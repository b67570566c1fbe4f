import LuaFront.Proofs.Parser.Outermost
import LuaFront.Proofs.Parser.Running

/-!
What is read without a report. From the form of what such a run gives it is known which tokens the
run found, and what was read of them.
-/

namespace LuaFront

namespace Grammar

open Parse ParseState

variable {α : Type} {k : Nat} {s t u v : ParseState} {kind : TokenKind}

/-- An empty block takes no tokens. -/
lemma ahead_of_empty {b : Block} (h : Quiet (level k).blockHere t b u) (hb : b.stats = []) :
    u.cursor.ahead = t.cursor.ahead := by
  cases k with
  | zero => exact (congrArg (·.2.cursor.ahead) h.run).symm
  | succ k =>
    have haround : Quiet (blockAround (level k) t.cursor.lastStop) t b u := h.congr rfl
    obtain ⟨v, -, hinner, hleave⟩ := haround.nested
    obtain ⟨count, v', hcount, hrest⟩ := hinner.bind
    obtain ⟨stats, w, hstats, hret⟩ := hrest.bind
    obtain ⟨rfl, rfl⟩ := hret.ret
    obtain rfl : stats = [] := hb
    have hstay := run_statements_nil (congrArg Prod.fst hstats.run)
    rw [hstats.run] at hstay
    rw [hleave]
    exact (congrArg (·.cursor.ahead) hstay).trans
      (congrArg (·.cursor.ahead) (Prod.mk.inj hcount.run).2.symm)

/-- A name that is read is the current token. -/
lemma facing_of_identifier {id : Identifier} (h : Quiet identifier t id u) :
    t.cursor.current.kind = .ident := by
  obtain ⟨token, v, htoken, -⟩ := h.bind
  obtain ⟨hkind, -, hcurrent, -⟩ := htoken.expect (by decide)
  exact hcurrent ▸ hkind

lemma facing_of_nameList {names : Separated Identifier} (h : Quiet nameList t names u) :
    t.cursor.current.kind = .ident := by
  obtain ⟨anchor, v, hanchor, hrest⟩ := Quiet.bind (p := lastStop) h
  obtain ⟨-, rfl⟩ := Prod.mk.inj hanchor.run
  obtain ⟨id, w, hid, -⟩ := hrest.bind
  exact facing_of_identifier hid

/-- What was next is the current token after the current one is consumed. -/
lemma current_advance (ht : t.Valid) (hkind : t.cursor.current.kind ≠ .eof) :
    t.cursor.advance.current = t.cursor.next := by
  obtain ⟨rest, hahead⟩ := ahead_of_facing ht rfl hkind
  rw [Cursor.advance_of_ahead hahead hkind, Cursor.next, hahead]
  rfl

lemma current_of_identifier {id : Identifier} (h : Quiet identifier t id u) :
    u.cursor.current = t.cursor.next := by
  have hfacing := facing_of_identifier h
  obtain ⟨token, v, htoken, hrest⟩ := h.bind
  obtain ⟨-, rfl⟩ := hrest.ret
  rw [(htoken.expect (by decide)).2.2.2]
  exact current_advance h.start (by rw [hfacing]; decide)

/-- A token of a kind is taken, or the current one is not of that kind. -/
lemma take?_cases {found : Option Token} (h : Quiet (take? kind) t found u) (hkind : kind ≠ .eof) :
    found = none ∧ u = t ∧ t.cursor.current.kind ≠ kind
      ∨ found = some t.cursor.current ∧ t.cursor.current.kind = kind
        ∧ t.cursor.ahead = t.cursor.current :: u.cursor.ahead
        ∧ Quiet advance t t.cursor.current u := by
  have hrun := h.run
  by_cases hfacing : t.cursor.current.kind = kind
  · rw [run_take?_of_facing hfacing] at hrun
    obtain ⟨rfl, rfl⟩ := Prod.mk.inj hrun
    obtain ⟨rest, hahead⟩ := ahead_of_facing h.start hfacing hkind
    refine .inr ⟨rfl, hfacing, ?_, h.start, rfl, h.log⟩
    rw [Cursor.advance_of_ahead hahead (hfacing.symm ▸ hkind)]
    exact hahead
  · rw [run_take?_of_not_facing hfacing] at hrun
    obtain ⟨rfl, rfl⟩ := Prod.mk.inj hrun
    exact .inl ⟨rfl, rfl, hfacing⟩

lemma elseIfs_none {inner : Level} [inner.Steady] {bound : Nat}
    (h : Quiet (elseIfs inner bound) t [] u) : u = t := by
  cases bound with
  | zero => exact h.ret.2.symm
  | succ bound =>
    obtain ⟨found, v, htake, hrest⟩ := h.cases fun found => by cases found <;> infer_instance
    rcases take?_cases htake (by decide) with ⟨rfl, rfl, -⟩ | ⟨rfl, -⟩
    · exact hrest.ret.2.symm
    · obtain ⟨cond, v₁, -, hrest⟩ := hrest.bind
      obtain ⟨opener, v₂, -, hrest⟩ := hrest.bind
      obtain ⟨b, v₃, -, hrest⟩ := hrest.bind
      obtain ⟨more, v₄, -, hrest⟩ := hrest.bind
      cases hrest.ret.1

lemma else_none {inner : Level} [inner.Steady] (h : Quiet (else_ inner) t none u) : u = t := by
  obtain ⟨found, v, htake, hrest⟩ := h.cases fun found => by cases found <;> infer_instance
  rcases take?_cases htake (by decide) with ⟨rfl, rfl, -⟩ | ⟨rfl, -⟩
  · exact hrest.ret.2.symm
  · obtain ⟨b, v₁, -, hrest⟩ := hrest.bind
    cases hrest.ret.1

lemma else_some {inner : Level} [inner.Steady] {c : Else}
    (h : Quiet (else_ inner) t (some c) u) :
    ∃ v, t.cursor.current.kind = .keyword .else_
      ∧ t.cursor.ahead = t.cursor.current :: v.cursor.ahead
      ∧ Quiet inner.blockHere v c.block u := by
  obtain ⟨found, v, htake, hrest⟩ := h.cases fun found => by cases found <;> infer_instance
  rcases take?_cases htake (by decide) with ⟨rfl, rfl, -⟩ | ⟨rfl, hfacing, hahead, -⟩
  · cases hrest.ret.1
  · obtain ⟨b, v₁, hblock, hrest⟩ := hrest.bind
    obtain ⟨heq, rfl⟩ := hrest.ret
    cases heq
    exact ⟨v, hfacing, hahead, hblock⟩

/-- Operators make something else of an operand, or there are none. -/
lemma operators_cases {power : Nat} {first e : Expr}
    (h : Quiet ((level k).operators power first) t e u) :
    e = first ∧ u = t ∨ ∃ lhs op sign rhs, e = .binary lhs op sign rhs := by
  induction k generalizing t u first with
  | zero =>
    obtain ⟨rfl, rfl⟩ := h.ret
    exact .inl ⟨rfl, rfl⟩
  | succ k ih =>
    have haround : Quiet (operatorsAround (level k) power first) t e u := h.congr rfl
    rw [operatorsAround] at haround
    have hkind := haround.congr run_currentKind
    split at hkind
    · obtain ⟨rfl, rfl⟩ := hkind.ret
      exact .inl ⟨rfl, rfl⟩
    · split at hkind
      · obtain ⟨rfl, rfl⟩ := hkind.ret
        exact .inl ⟨rfl, rfl⟩
      · obtain ⟨v, -, hinner, -⟩ := hkind.nested
        obtain ⟨sign, v₁, -, hinner⟩ := hinner.bind
        obtain ⟨second, v₂, -, hinner⟩ := hinner.bind
        rcases ih hinner with ⟨rfl, -⟩ | hbinary
        · exact .inr ⟨_, _, _, _, rfl⟩
        · exact .inr hbinary

/-- How many suffixes an expression ends with. -/
def suffixCount : Expr → Nat
  | .field base _ _ => suffixCount base + 1
  | .index base _ _ _ => suffixCount base + 1
  | .call callee _ => suffixCount callee + 1
  | .methodCall receiver _ _ _ => suffixCount receiver + 1
  | _ => 0

lemma suffix_count {inner : Level} [inner.Steady] {base e : Expr}
    (h : Quiet (suffix inner base) t e u) : suffixCount e = suffixCount base + 1 := by
  have hkind := h.congr run_currentKind
  split at hkind
  · obtain ⟨dot, v₁, -, hkind⟩ := hkind.bind
    obtain ⟨name, v₂, -, hkind⟩ := hkind.bind
    obtain ⟨rfl, -⟩ := hkind.ret
    rfl
  · obtain ⟨opening, v₁, -, hkind⟩ := hkind.bind
    obtain ⟨key, v₂, -, hkind⟩ := hkind.bind
    obtain ⟨closing, v₃, -, hkind⟩ := hkind.bind
    obtain ⟨rfl, -⟩ := hkind.ret
    rfl
  · obtain ⟨colon, v₁, -, hkind⟩ := hkind.bind
    obtain ⟨name, v₂, -, hkind⟩ := hkind.bind
    obtain ⟨args, v₃, -, hkind⟩ := hkind.bind
    obtain ⟨rfl, -⟩ := hkind.ret
    rfl
  · obtain ⟨args, v₁, -, hkind⟩ := hkind.bind
    obtain ⟨rfl, -⟩ := hkind.ret
    rfl

/-- An expression gets more suffixes, or there are none. -/
lemma suffixes_cases {calls : Bool} {base e : Expr}
    (h : Quiet ((level k).suffixes calls base) t e u) :
    e = base ∧ u = t ∨ ∃ k' e' v w, k = k' + 1 ∧ t.depth < maxDepth
      ∧ Quiet (suffix (level k') base) { t with depth := t.depth + 1 } e' v
      ∧ Quiet ((level k').suffixes calls e') v e w ∧ u = (leave.run w).2 := by
  cases k with
  | zero =>
    obtain ⟨rfl, rfl⟩ := h.ret
    exact .inl ⟨rfl, rfl⟩
  | succ k =>
    have haround : Quiet (suffixesAround (level k) calls base) t e u := h.congr rfl
    have hkind := haround.congr run_currentKind
    split at hkind
    · obtain ⟨w, hdepth, hinner, hleave⟩ := hkind.nested
      obtain ⟨e', v, hsuffix, hmore⟩ := hinner.bind
      exact .inr ⟨k, e', v, w, rfl, hdepth, hsuffix, hmore, hleave⟩
    · obtain ⟨rfl, rfl⟩ := hkind.ret
      exact .inl ⟨rfl, rfl⟩

lemma suffixes_count {calls : Bool} {base e : Expr}
    (h : Quiet ((level k).suffixes calls base) t e u) :
    e = base ∧ u = t ∨ suffixCount base < suffixCount e := by
  induction k generalizing t u base with
  | zero => exact (suffixes_cases h).imp_right fun ⟨_, _, _, _, hk, _⟩ => absurd hk (by omega)
  | succ k ih =>
    rcases suffixes_cases h with hnone | ⟨_, e', v, w, hk, -, hsuffix, hmore, -⟩
    · exact .inl hnone
    · cases hk
      have hcount := suffix_count hsuffix
      rcases ih hmore with ⟨rfl, -⟩ | hlt
      · exact .inr (by omega)
      · exact .inr (by omega)

/-- Only at its keyword a function is read. -/
lemma facing_of_operand {keyword : Token} {f : FuncBody}
    (h : Quiet (operand (level k)) t (.function keyword f) u) :
    t.cursor.current.kind = .keyword .function_ := by
  rw [operand] at h
  have h := h.congr run_currentKind
  split at h
  · have h := h.congr run_currentKind
    split at h
    iterate 5
      obtain ⟨token, v, -, h⟩ := h.bind
      cases h.ret.1
    · obtain ⟨dots, v, -, h⟩ := h.bind
      cases h.ret.1
    · obtain ⟨fields, v, -, h⟩ := h.bind
      cases h.ret.1
    · next hkind => exact hkind
    · obtain ⟨base, v, hprimary, h⟩ := h.bind
      rcases suffixes_count h with ⟨rfl, -⟩ | hlt
      · have hprimary := hprimary.congr run_currentKind
        split at hprimary
        · obtain ⟨name, w, -, hprimary⟩ := hprimary.bind
          cases hprimary.ret.1
        · obtain ⟨opening, w₁, -, hprimary⟩ := hprimary.bind
          obtain ⟨inner, w₂, -, hprimary⟩ := hprimary.bind
          obtain ⟨closing, w₃, -, hprimary⟩ := hprimary.bind
          cases hprimary.ret.1
        · obtain ⟨skipped, w, -, hprimary⟩ := hprimary.bind
          cases hprimary.ret.1
        · have hreport : (missingExpr.run t).2.log.entries ≠ [] :=
            run_errorExpected_ne_nil fun hgave => (hprimary.start.gaveUp hgave).2
          rw [hprimary.run] at hreport
          exact absurd hprimary.log hreport
      · exact absurd hlt (Nat.not_lt_zero _)
  · obtain ⟨sign, v₁, -, h⟩ := h.bind
    obtain ⟨inner, v₂, -, h⟩ := h.bind
    cases h.ret.1

lemma run_operand_function {l : Level} (h : s.cursor.current.kind = .keyword .function_) :
    (operand l).run s = (do
      let keyword ← advance
      return .function keyword (← funcBody l keyword) : Parse Expr).run s := by
  rw [operand, run_currentKind, h]
  change (simpleExpr l).run s = _
  rw [simpleExpr, run_currentKind, h]

/-- An expression that is a function is read from its keyword to the end of its body. -/
lemma function_cases {keyword : Token} {f : FuncBody}
    (h : Quiet (level (k + 1)).expression t (.function keyword f) u) :
    ∃ v w, t.depth < maxDepth ∧ t.cursor.current.kind = .keyword .function_
      ∧ Quiet advance { t with depth := t.depth + 1 } keyword v
      ∧ Quiet (funcBody (level k) keyword) v f w ∧ u = (leave.run w).2 := by
  have haround : Quiet (nested (cutOff none) (operand (level k) >>= (level k).operators 0)) t
    (.function keyword f) u := h.congr rfl
  obtain ⟨w, hdepth, hinner, hleave⟩ := haround.nested
  obtain ⟨first, v, hoperand, hoperators⟩ := hinner.bind
  obtain ⟨rfl, rfl⟩ : first = .function keyword f ∧ w = v := by
    rcases operators_cases hoperators with ⟨rfl, rfl⟩ | ⟨_, _, _, _, heq⟩
    · exact ⟨rfl, rfl⟩
    · cases heq
  have hat := facing_of_operand hoperand
  obtain ⟨keyword', v₁, hkeyword, hbody⟩ := (hoperand.congr (run_operand_function hat)).bind
  obtain ⟨f', v₂, hbody, hret⟩ := hbody.bind
  obtain ⟨heq, rfl⟩ := hret.ret
  cases heq
  exact ⟨v₁, v₂, hdepth, hat, hkeyword, hbody, hleave⟩

/-- What closes a function with an empty block, and the gate in front of it, are tokens of it. -/
lemma body_length_le {inner : Level} {keyword : Token} {f : FuncBody} [inner.Steady] {count : Nat}
    (h : Quiet (funcBody inner keyword) t f u) (hgate : count = u.cursor.ahead.length + 2) :
    count ≤ t.cursor.ahead.length := by
  obtain ⟨opening, t₁, h₁, h⟩ := h.bind
  obtain ⟨params, t₂, h₂, h⟩ := h.bind
  obtain ⟨closing, t₃, h₃, h⟩ := h.bind
  obtain ⟨b, t₄, h₄, h⟩ := h.bind
  obtain ⟨close, t₅, h₅, h⟩ := h.bind
  obtain ⟨rfl, rfl⟩ := h.ret
  have hahead₂ := congrArg List.length (h₃.expect (by decide)).2.1
  have hahead₄ := congrArg List.length (h₅.expectClosing (by decide)).2.1
  have hle₁ := h₁.length_le
  have hle₂ := h₂.length_le
  have hle₄ := h₄.length_le
  rw [List.length_cons] at hahead₂ hahead₄
  omega

lemma function_length_le {keyword : Token} {f : FuncBody} {count : Nat}
    (h : Quiet (level k).expression t (.function keyword f) u)
    (hgate : count = u.cursor.ahead.length + 2) : count ≤ t.cursor.ahead.length := by
  cases k with
  | zero => cases h.ret.1
  | succ k =>
    obtain ⟨v, w, -, -, h₁, h₂, rfl⟩ := function_cases h
    exact Nat.le_trans (body_length_le h₂ hgate) h₁.length_le

/-- Lists only get longer. -/
lemma moreItems_cases {item : Parse α} [Steady item] {bound : Nat} {list l : Separated α}
    (h : Quiet (moreItems item bound list) t l u) :
    l = list ∧ u = t ∨ list.items.length < l.items.length := by
  induction bound generalizing t list with
  | zero =>
    obtain ⟨rfl, rfl⟩ := h.ret
    exact .inl ⟨rfl, rfl⟩
  | succ bound ih =>
    obtain ⟨found, v, htake, hrest⟩ := h.cases fun found => by cases found <;> infer_instance
    rcases take?_cases htake (by decide) with ⟨rfl, rfl, -⟩ | ⟨rfl, -⟩
    · obtain ⟨rfl, rfl⟩ := hrest.ret
      exact .inl ⟨rfl, rfl⟩
    · obtain ⟨next, w, -, hrest⟩ := hrest.bind
      refine .inr ?_
      have hlength : ∀ comma, ((list.delimit comma).push next).items.length
          = list.items.length + 1 := fun comma => by simp
      rcases ih hrest with ⟨rfl, -⟩ | hlt
      · rw [hlength]
        exact Nat.lt_succ_self _
      · rw [hlength] at hlt
        exact Nat.lt_of_succ_lt hlt

lemma exprList_single {inner : Level} [inner.Steady] {e : Expr} {anchor : Offset}
    (h : Quiet inner.exprList t ⟨[⟨e, none⟩], anchor⟩ u) : Quiet inner.expression t e u := by
  obtain ⟨offset, v, hstop, hrest⟩ := Quiet.bind (p := lastStop) h
  obtain ⟨-, rfl⟩ := Prod.mk.inj hstop.run
  obtain ⟨e', w, hexpr, hitems⟩ := hrest.bind
  obtain ⟨count, w', hcount, hitems⟩ := hitems.bind
  obtain ⟨-, rfl⟩ := Prod.mk.inj hcount.run
  rcases moreItems_cases hitems with ⟨heq, rfl⟩ | hlt
  · cases heq
    exact hexpr
  · rw [Separated.items_push, List.length_append] at hlt
    exact absurd hlt (Nat.not_lt.2 (Nat.le_add_left _ _))

lemma facing_of_function {keyword : Token} {f : FuncBody}
    (h : Quiet (level k).expression t (.function keyword f) u) :
    t.cursor.current.kind = .keyword .function_ := by
  cases k with
  | zero => cases h.ret.1
  | succ k =>
    obtain ⟨v, w, -, hat, -⟩ := function_cases h
    exact hat

lemma argList_cases {inner : Level} [inner.Steady] {e : Expr} {anchor : Offset}
    (h : Quiet (argList inner) t ⟨[⟨e, none⟩], anchor⟩ u) :
    Quiet inner.exprList t ⟨[⟨e, none⟩], anchor⟩ u := by
  have hrun : (argList inner).run t
      = (if decide (t.cursor.current.kind = .symbol .closeParen) then (do
          return .empty (← lastStop)) else inner.exprList).run t := rfl
  have h := h.congr hrun
  split at h
  · obtain ⟨offset, v, -, h⟩ := h.bind
    cases h.ret.1
  · exact h

lemma callArgs_cases {inner : Level} [inner.Steady] {opening closing : Token}
    {args : Separated Expr} (h : Quiet (callArgs inner) t (.paren opening args closing) u) :
    ∃ v w, t.cursor.current.kind = .symbol .openParen ∧ Quiet advance t opening v
      ∧ Quiet (argList inner) v args w
      ∧ Quiet (expectClosing (.symbol .closeParen) opening) w closing u := by
  have hkind := h.congr run_currentKind
  split at hkind
  · obtain ⟨token, v, -, hkind⟩ := hkind.bind
    cases hkind.ret.1
  · obtain ⟨fields, v, -, hkind⟩ := hkind.bind
    cases hkind.ret.1
  · next hat =>
    obtain ⟨opening', v, h₁, hkind⟩ := hkind.bind
    obtain ⟨args', w, h₂, hkind⟩ := hkind.bind
    obtain ⟨closing', w', h₃, hkind⟩ := hkind.bind
    obtain ⟨heq, rfl⟩ := hkind.ret
    cases heq
    exact ⟨v, w, hat, h₁, h₂, h₃⟩
  · have hreport : ((do
        errorExpected "function arguments" []
        let anchor ← lastStop
        return .paren (.missing (.symbol .openParen) anchor) (.empty anchor)
          (.missing (.symbol .closeParen) anchor) : Parse CallArgs).run t).2.log.entries ≠ [] :=
      run_errorExpected_ne_nil fun hgave => (hkind.start.gaveUp hgave).2
    rw [hkind.run] at hreport
    exact absurd hkind.log hreport

lemma args_length_le {opening second closing : Token} {f : FuncBody} {anchor : Offset}
    {count : Nat} (h : Quiet (callArgs (level k)) t
      (.paren opening ⟨[⟨.function second f, none⟩], anchor⟩ closing) u)
    (hgate : count = u.cursor.ahead.length + 3) : count ≤ t.cursor.ahead.length := by
  obtain ⟨v, w, -, h₁, h₂, h₃⟩ := callArgs_cases h
  have hahead := congrArg List.length (h₃.expectClosing (by decide)).2.1
  have hfunction := exprList_single (argList_cases h₂)
  exact Nat.le_trans (function_length_le hfunction (hgate.trans (congrArg (· + 2) hahead.symm)))
    h₁.length_le

/-- A call of a name with arguments in parentheses is read from the name to its arguments. -/
lemma suffixed_cases {callee : Identifier} {args : CallArgs}
    (hat : t.cursor.current.kind = .ident)
    (h : Quiet (suffixed (level (k + 1)) true) t (.call (.name callee) args) u) :
    ∃ v w, Quiet (primary (level (k + 1))) t (.name callee) v ∧ v.depth < maxDepth
      ∧ Quiet (callArgs (level k)) { v with depth := v.depth + 1 } args w
      ∧ u = (leave.run w).2 := by
  obtain ⟨base, v, hprimary, hsuffixes⟩ := h.bind
  obtain ⟨name, rfl⟩ : ∃ name, base = .name name := by
    have hkind := hprimary.congr run_currentKind
    rw [hat] at hkind
    obtain ⟨token, w, -, hkind⟩ := hkind.bind
    exact ⟨_, hkind.ret.1.symm⟩
  rcases suffixes_cases hsuffixes with
    ⟨heq, -⟩ | ⟨k', e, w, w', hk', hdepth, hsuffix, hmore, hleave⟩
  · cases heq
  · obtain rfl : k = k' := Nat.succ.inj hk'
    have hcount := suffix_count hsuffix
    rcases suffixes_count hmore with ⟨rfl, rfl⟩ | hlt
    · have hkind := hsuffix.congr run_currentKind
      split at hkind
      · obtain ⟨dot, u₁, -, hkind⟩ := hkind.bind
        obtain ⟨name, u₂, -, hkind⟩ := hkind.bind
        cases hkind.ret.1
      · obtain ⟨opening, u₁, -, hkind⟩ := hkind.bind
        obtain ⟨key, u₂, -, hkind⟩ := hkind.bind
        obtain ⟨closing, u₃, -, hkind⟩ := hkind.bind
        cases hkind.ret.1
      · obtain ⟨colon, u₁, -, hkind⟩ := hkind.bind
        obtain ⟨name, u₂, -, hkind⟩ := hkind.bind
        obtain ⟨args, u₃, -, hkind⟩ := hkind.bind
        cases hkind.ret.1
      · obtain ⟨args', u₁, hargs, hkind⟩ := hkind.bind
        obtain ⟨heq, rfl⟩ := hkind.ret
        cases heq
        exact ⟨v, _, hprimary, hdepth, hargs, hleave⟩
    · have hone : suffixCount (.call (.name callee) args) = 1 := rfl
      omega

/-- A call as a statement. -/
lemma exprStat_cases {inner : Level} [inner.Steady] {e : Expr}
    (h : Quiet (exprStat inner) t (.call e) u) : Quiet (suffixed inner true) t e u := by
  obtain ⟨e', v, hsuffixed, h⟩ := h.cases fun e => Steady.cases fun kind => by
    split <;> infer_instance
  have hassignment : ∀ {w}, ¬ Quiet (assignment inner e') v (.call e) w := by
    intro w h
    obtain ⟨targets, v₁, -, h⟩ := h.bind
    obtain ⟨checked, v₂, -, h⟩ := h.bind
    obtain ⟨eq, v₃, -, h⟩ := h.bind
    obtain ⟨values, v₄, -, h⟩ := h.bind
    cases h.ret.1
  have hkind := h.congr run_currentKind
  split at hkind
  · exact absurd hkind hassignment
  · exact absurd hkind hassignment
  · split at hkind
    · obtain ⟨heq, rfl⟩ := hkind.ret
      cases heq
      exact hsuffixed
    · obtain ⟨reported, w, -, hkind⟩ := hkind.bind
      cases hkind.ret.1

/-- Where the parser goes back from the values, that is reported. -/
lemma exprList_of_assigned {inner : Level} [inner.Steady] {eq : Token} {values : Separated Expr}
    (h : Quiet (assignedValues inner eq) t values u) : Quiet inner.exprList t values u := by
  have hrun : (assignedValues inner eq).run t = _ := run_assignedValues eq t
  by_cases hback : (inner.exprList.run t).2.cursor.current.kind = .symbol .eq
      ∧ eq.isMissing = false
  · rw [if_pos hback] at hrun
    have hreport : ((assignedValues inner eq).run t).2.log.entries ≠ [] := by
      rw [hrun]
      refine run_error_ne_nil fun hgave => ?_
      have hvalid := (Steady.onward (p := inner.exprList) t).valid h.start
      rw [(hvalid.gaveUp hgave).1] at hback
      cases hback.1
    rw [h.run] at hreport
    exact absurd h.log hreport
  · rw [if_neg hback] at hrun
    exact h.congr hrun

/-- What is left of a declaration after its names. -/
lemma declaredValues_steady {inner : Level} [inner.Steady] {keyword : Token}
    {names : Separated Identifier} : Steady (do
      match ← take? (.symbol .eq) with
      | some eq => return Stat.local_ keyword names (some eq) (← assignedValues inner eq)
      | none => return .local_ keyword names none (.empty (← lastStop)) : Parse Stat) :=
  Steady.cases fun found => by cases found <;> infer_instance

lemma localStat_cases {inner : Level} [inner.Steady] {a : Stat}
    (h : Quiet (localStat inner) t a u) :
    ∃ keyword names t₁ t₂, Quiet advance t keyword t₁ ∧ Quiet nameList t₁ names t₂
      ∧ ((∃ values, a = .local_ keyword names none values) ∨ ∃ eq values t₃,
        a = .local_ keyword names (some eq) values ∧ t₂.cursor.current.kind = .symbol .eq
          ∧ Quiet advance t₂ eq t₃ ∧ Quiet (assignedValues inner eq) t₃ values u) := by
  obtain ⟨keyword, t₁, h₁, h⟩ := h.cases fun _ => Steady.cases fun _ => declaredValues_steady
  obtain ⟨names, t₂, h₂, h⟩ := h.cases fun _ => declaredValues_steady
  obtain ⟨found, t₃, h₃, h⟩ := h.cases fun found => by cases found <;> infer_instance
  refine ⟨keyword, names, t₁, t₂, h₁, h₂, ?_⟩
  rcases take?_cases h₃ (by decide) with ⟨rfl, -⟩ | ⟨rfl, hat₂, -, hadvance⟩
  · obtain ⟨offset, v, -, h⟩ := h.bind
    exact .inl ⟨_, h.ret.1.symm⟩
  · obtain ⟨values, t₄, h₄, h⟩ := h.bind
    obtain ⟨hsame, rfl⟩ := h.ret
    exact .inr ⟨_, _, t₃, hsame.symm, hat₂, hadvance, h₄⟩

/-! ### Statements with a block and declarations -/

variable {keyword : Token}

/-- An if statement is read from its keyword through its clauses to the token that closes it. -/
lemma ifStat_cases {inner : Level} [inner.Steady] {keyword opener close : Token} {cond : Expr}
    {b : Block} {clauses : List ElseIf} {last : Option Else}
    (h : Quiet (ifStat inner) t (.if_ ⟨keyword, cond, opener, b, clauses, last, close⟩) u) :
    ∃ bound t₁ t₂ t₃ t₄ t₅ t₆, Quiet advance t keyword t₁ ∧ Quiet inner.expression t₁ cond t₂
      ∧ Quiet (expect (.keyword .then_)) t₂ opener t₃ ∧ Quiet inner.blockHere t₃ b t₄
      ∧ Quiet (elseIfs inner bound) t₄ clauses t₅ ∧ Quiet (else_ inner) t₅ last t₆
      ∧ Quiet (expectClosing (.keyword .end_) keyword) t₆ close u := by
  obtain ⟨keyword, t₁, h₁, h⟩ := h.bind
  obtain ⟨cond, t₂, h₂, h⟩ := h.bind
  obtain ⟨opener, t₃, h₃, h⟩ := h.bind
  obtain ⟨b, t₄, h₄, h⟩ := h.bind
  obtain ⟨bound, t₅, h₅, h⟩ := h.bind
  obtain ⟨clauses, t₆, h₆, h⟩ := h.bind
  obtain ⟨last, t₇, h₇, h⟩ := h.bind
  obtain ⟨close, t₈, h₈, h⟩ := h.bind
  obtain ⟨heq, rfl⟩ := h.ret
  cases heq
  -- How much remains is only looked at.
  obtain ⟨-, rfl⟩ := Prod.mk.inj h₅.run
  exact ⟨bound, _, _, _, _, _, _, h₁, h₂, h₃, h₄, h₆, h₇, h₈⟩

/-- A loop over what an iterator gives is read as such a loop. -/
lemma genericFor_cases {inner : Level} [inner.Steady] {a : Stat}
    (h : Quiet (genericFor inner keyword) t a u) :
    ∃ r t₁ t₂ t₃ t₄ t₅, a = .genericFor r ∧ r.keyword = keyword ∧ Quiet nameList t r.names t₁
      ∧ Quiet (expect (.keyword .in_)) t₁ r.in_ t₂ ∧ Quiet inner.exprList t₂ r.exprs t₃
      ∧ Quiet (expect (.keyword .do_)) t₃ r.opener t₄ ∧ Quiet inner.blockHere t₄ r.block t₅
      ∧ Quiet (expectClosing (.keyword .end_) keyword) t₅ r.close u := by
  obtain ⟨names, t₁, h₁, h⟩ := h.bind
  obtain ⟨in_, t₂, h₂, h⟩ := h.bind
  obtain ⟨exprs, t₃, h₃, h⟩ := h.bind
  obtain ⟨opener, t₄, h₄, h⟩ := h.bind
  obtain ⟨b, t₅, h₅, h⟩ := h.bind
  obtain ⟨close, t₆, h₆, h⟩ := h.bind
  obtain ⟨rfl, rfl⟩ := h.ret
  exact ⟨_, _, _, _, _, _, rfl, rfl, h₁, h₂, h₃, h₄, h₅, h₆⟩

/-- A loop over numbers is read as such a loop. -/
lemma numericFor_cases {inner : Level} [inner.Steady] {a : Stat}
    (h : Quiet (numericFor inner keyword) t a u) :
    ∃ r t₁ t₂ t₃ t₄ t₅ t₆ t₇ t₈, a = .numericFor r ∧ r.keyword = keyword
      ∧ Quiet identifier t r.var t₁ ∧ Quiet advance t₁ r.eq t₂
      ∧ Quiet inner.expression t₂ r.start t₃ ∧ Quiet (expect (.symbol .comma)) t₃ r.comma t₄
      ∧ Quiet inner.expression t₄ r.limit t₅ ∧ Quiet (step inner) t₅ r.step t₆
      ∧ Quiet (expect (.keyword .do_)) t₆ r.opener t₇ ∧ Quiet inner.blockHere t₇ r.block t₈
      ∧ Quiet (expectClosing (.keyword .end_) keyword) t₈ r.close u := by
  obtain ⟨var, t₁, h₁, h⟩ := h.bind
  obtain ⟨eq, t₂, h₂, h⟩ := h.bind
  obtain ⟨start, t₃, h₃, h⟩ := h.bind
  obtain ⟨comma, t₄, h₄, h⟩ := h.bind
  obtain ⟨limit, t₅, h₅, h⟩ := h.bind
  obtain ⟨last, t₆, h₆, h⟩ := h.bind
  obtain ⟨opener, t₇, h₇, h⟩ := h.bind
  obtain ⟨b, t₈, h₈, h⟩ := h.bind
  obtain ⟨close, t₉, h₉, h⟩ := h.bind
  obtain ⟨rfl, rfl⟩ := h.ret
  exact ⟨_, _, _, _, _, _, _, _, _, rfl, rfl, h₁, h₂, h₃, h₄, h₅, h₆, h₇, h₈, h₉⟩

/-- What comes after the keyword of a declaration. -/
lemma run_declaration {inner : Level} (h : s.cursor.current.kind = .keyword .local_) :
    (statement inner).run s = (if s.cursor.next.kind = .keyword .function_ then localFunction inner
      else localStat inner).run s := by
  rw [statement, run_currentKind, h]
  rfl

lemma isFunction_of_declaration {inner : Level} [inner.Steady] {a : Stat}
    (h : Quiet (if t.cursor.next.kind = .keyword .function_ then localFunction inner
      else localStat inner) t a u) :
    t.cursor.next.kind = .keyword .function_ ∧ Quiet (localFunction inner) t a u
        ∧ (∃ keyword second name f, a = .localFunction keyword second name f)
      ∨ t.cursor.next.kind ≠ .keyword .function_ ∧ Quiet (localStat inner) t a u
        ∧ ∃ keyword names eq values, a = .local_ keyword names eq values := by
  split at h
  · next hnext =>
    refine .inl ⟨hnext, h, ?_⟩
    obtain ⟨keyword, t₁, h₁, h⟩ := h.bind
    obtain ⟨second, t₂, h₂, h⟩ := h.bind
    obtain ⟨name, t₃, h₃, h⟩ := h.bind
    obtain ⟨f, t₄, h₄, h⟩ := h.bind
    exact ⟨_, _, _, _, h.ret.1.symm⟩
  · next hnext =>
    refine .inr ⟨hnext, h, ?_⟩
    obtain ⟨keyword, names, _, _, -, -, ⟨values, ha⟩ | ⟨eq, values, _, ha, -⟩⟩ := localStat_cases h
    · exact ⟨_, _, _, _, ha⟩
    · exact ⟨_, _, _, _, ha⟩

/-! ### Statements -/

/-- A statement that is read without a report from sound tokens lacks nothing. -/
lemma complete_of_statement {inner : Level} [inner.Steady] {a : Stat} (hgood : inner.Good t.depth)
    (h : Quiet (statement inner) t a u) (hends : t.cursor.current.kind.endsBlock = false)
    (hbehind : ∀ token ∈ t.cursor.behind, token.isMissing = false ∧ token.kind ≠ .invalid)
    (hahead : ∀ token ∈ t.cursor.ahead, token.isMissing = false ∧ token.kind ≠ .invalid) :
    (Node.stat a).All Node.Complete
      ∧ t.cursor.ahead = (Node.stat a).tokens ++ u.cursor.ahead := by
  have hread := statement_ensures hgood hends t ⟨rfl, .start h.start (Nat.zero_le _)⟩
  rw [h.run] at hread
  obtain ⟨l, hl, hback, -, -, hkept⟩ := hread.reads.exists_consumed
  have hsound : ∀ token ∈ l, token.isMissing = false ∧ token.kind ≠ .invalid := fun token htoken =>
    hahead token (by rw [hl]; exact List.mem_append_left _ htoken)
  have hclean : u.Clean := ⟨h.log, fun token htoken => by
    rw [hback, List.mem_append, List.mem_reverse] at htoken
    exact htoken.elim (hsound token) (hbehind token)⟩
  have hcomplete : (Node.stat a).All Node.Complete := 
    hread.complete hclean (.node (.stat a)) (by simp)
  refine ⟨hcomplete, ?_⟩
  have htokens : (([] ++ [Part.node (.stat a)]).flatMap Part.marks).filterMap Mark.token?
      = (Node.stat a).tokens := by
    simp [Part.marks, Node.tokens_eq_marks]
  rw [htokens, List.filter_eq_self.2 fun token htoken => by
      simp [Node.present_of_complete hcomplete htoken],
    List.filter_eq_self.2 fun token htoken => by simp [(hsound token htoken).1]] at hkept
  rw [hkept, hl]

/-- What is there of the statements of a block was ahead. -/
lemma mem_ahead_of_statements {inner : Level} {bound : Nat} {afterReturn : Bool} {a : Stat}
    {token : Token} (hgood : inner.Good s.depth) (hs : s.Valid)
    (ha : a ∈ ((statements inner bound afterReturn).run s).1)
    (htoken : token ∈ (Node.stat a).tokens) (hpresent : token.isMissing = false) :
    token ∈ s.cursor.ahead := by
  have hread := statements_ensures hgood bound afterReturn s (.start hs (Nat.zero_le _))
  obtain ⟨l, hl, -, -, -, hkept⟩ := hread.reads.exists_consumed
  have hmem : token ∈ l.filter (!·.isMissing) := by
    rw [← hkept, List.mem_filter]
    refine ⟨?_, by simp [hpresent]⟩
    rw [Node.tokens_eq_marks] at htoken
    obtain ⟨mark, hmark, htoken⟩ := List.mem_filterMap.1 htoken
    refine List.mem_filterMap.2 ⟨mark, List.mem_flatMap.2 ⟨.node (.stat a), ?_, hmark⟩, htoken⟩
    simpa using ha
  rw [hl]
  exact List.mem_append_left _ (List.mem_of_mem_filter hmem)

end Grammar

end LuaFront
