import LuaFront.Proofs.Acceptance.Expressions

/-!
The statements of the grammar are accepted, and blocks of them. Only a return statement says that
it is one, and it comes last.
-/

namespace LuaFront.Grammar

open Parse ParseState
open Phrase (Derives Form Suffixes Suffixed Stops Ends)

variable {inner : Level} {depth bound : Nat} {o o' : Bool} {w v u rest : List TokenKind}

/-! ### Names -/

lemma nameList_proceeds (hw : Derives true (.list .name) o w)
    (hlast : TokenKind.front rest ≠ .symbol .comma) :
    Proceeds (Ready depth (w ++ rest)) nameList fun _ => Ready depth rest :=
  (commaList_proceeds identifier_takes (fun _ _ => trivial) hw trivial hlast).imp
    fun _ _ hs => hs.2

lemma names_front (hw : Derives true (.list .name) o w) :
    ∃ v, w = .ident :: v ∧ (v = [] ∨ ∃ u, v = .symbol .comma :: u) := by
  obtain ⟨o', w', v, rfl, hname, hmore, -⟩ := exists_first hw
  cases hname
  refine ⟨v, rfl, ?_⟩
  cases hmore with
  | nil => exact .inl rfl
  | cons => exact .inr ⟨_, rfl⟩

lemma funcBody_front (h : Derives true .funcBody o w) :
    ∃ v, w = .symbol .openParen :: v := by
  cases h
  exact ⟨_, rfl⟩

section Inner

variable [inner.Steady] (h : inner.Accepts depth)

include h

/-! ### Compound statements -/

omit [inner.Steady] in
lemma doStat_proceeds (hb : Derives true .block o v) :
    Proceeds (Ready depth (.keyword .do_ :: (v ++ TokenKind.keyword .end_ :: rest))) (doStat inner)
      fun a s => a.isReturn = false ∧ Ready depth rest s := by
  refine Proceeds.advance (by decide) fun keyword => ?_
  refine h.blockHere hb rfl fun block => ?_
  exact Proceeds.expectClosing (by decide) fun close => Proceeds.ret fun s hs => ⟨rfl, hs⟩

lemma whileStat_proceeds (hw : Derives true .exp o w) (hb : Derives true .block o' v) :
    Proceeds (Ready depth
        (.keyword .while_ :: (w ++ TokenKind.keyword .do_ ::
          (v ++ TokenKind.keyword .end_ :: rest))))
      (whileStat inner) fun a s => a.isReturn = false ∧ Ready depth rest s := by
  refine Proceeds.advance (by decide) fun keyword => ?_
  refine h.expression.step hw (.of rfl) fun cond _ => ?_
  refine Proceeds.expect (by decide) fun opener => ?_
  refine h.blockHere hb rfl fun block => ?_
  exact Proceeds.expectClosing (by decide) fun close => Proceeds.ret fun s hs => ⟨rfl, hs⟩

lemma repeatStat_proceeds (hb : Derives true .block o v) (hw : Derives true .exp o' w)
    (hrest : Stops o' rest) :
    Proceeds (Ready depth (.keyword .repeat_ :: (v ++ TokenKind.keyword .until_ :: (w ++ rest))))
      (repeatStat inner) fun a s => a.isReturn = false ∧ Ready depth rest s := by
  refine Proceeds.advance (by decide) fun keyword => ?_
  refine h.blockHere hb rfl fun block => ?_
  refine Proceeds.expectClosing (by decide) fun close => ?_
  exact h.expression.step hw hrest fun cond _ => Proceeds.ret fun s hs => ⟨rfl, hs⟩

omit [inner.Steady] h in
lemma elseIfs_front (hv : Derives true .elseIfs o v)
    (hrest : (TokenKind.front rest).endsBlock = true) :
    (TokenKind.front (v ++ rest)).endsBlock = true := by
  cases hv with
  | noElseIf => exact hrest
  | elseIf => rfl

lemma elseIfs_proceeds (hv : Derives true .elseIfs o v) (hbound : v.length ≤ bound)
    (hrest : (TokenKind.front rest).endsBlock = true)
    (helse : TokenKind.front rest ≠ .keyword .elseif_) :
    Proceeds (Ready depth (v ++ rest)) (elseIfs inner bound) fun _ => Ready depth rest := by
  induction bound generalizing o v with
  | zero =>
    obtain rfl := List.length_eq_zero_iff.1 (Nat.le_zero.1 hbound)
    exact Proceeds.ret fun s hs => hs
  | succ bound ih =>
    cases hv with
    | noElseIf => exact Proceeds.takeNone helse (Proceeds.ret fun s hs => hs)
    | elseIf hw hb hmore =>
      simp only [List.length_cons, List.length_append] at hbound
      simp only [List.cons_append, List.append_assoc]
      refine Proceeds.take (by decide) fun keyword => ?_
      refine h.expression.step hw (.of rfl) fun cond _ => ?_
      refine Proceeds.expect (by decide) fun opener => ?_
      refine h.blockHere hb (elseIfs_front hmore hrest) fun block => ?_
      refine (ih hmore (by omega)).bind fun clauses => ?_
      exact Proceeds.ret fun s hs => hs

omit [inner.Steady] in
lemma else_proceeds (hu : Derives true (.opt .else_) o u) :
    Proceeds (Ready depth (u ++ TokenKind.keyword .end_ :: rest)) (else_ inner)
      fun _ => Ready depth (.keyword .end_ :: rest) := by
  cases hu with
  | none => exact Proceeds.takeNone (by simp) (Proceeds.ret fun s hs => hs)
  | some hu =>
    cases hu with
    | else_ hb =>
      refine Proceeds.take (by decide) fun keyword => ?_
      exact h.blockHere hb rfl fun block => Proceeds.ret fun s hs => hs

lemma ifStat_proceeds {o₁ o₂ : Bool} {b : List TokenKind} (hw : Derives true .exp o w)
    (hb : Derives true .block o' b) (hv : Derives true .elseIfs o₁ v)
    (hu : Derives true (.opt .else_) o₂ u) :
    Proceeds (Ready depth (.keyword .if_ :: (w ++ TokenKind.keyword .then_ ::
        (b ++ (v ++ (u ++ TokenKind.keyword .end_ :: rest))))))
      (ifStat inner) fun a s => a.isReturn = false ∧ Ready depth rest s := by
  have hends : (TokenKind.front (u ++ TokenKind.keyword .end_ :: rest)).endsBlock = true
      ∧ TokenKind.front (u ++ TokenKind.keyword .end_ :: rest) ≠ .keyword .elseif_ := by
    cases hu with
    | none => exact ⟨rfl, by simp⟩
    | some hu =>
      cases hu
      exact ⟨rfl, by simp⟩
  refine Proceeds.advance (by decide) fun keyword => ?_
  refine h.expression.step hw (.of rfl) fun cond _ => ?_
  refine Proceeds.expect (by decide) fun opener => ?_
  refine h.blockHere hb (elseIfs_front hv hends.1) fun block => Proceeds.remaining ?_
  refine (elseIfs_proceeds h hv (by simp) hends.1 hends.2).bind fun clauses => ?_
  refine (else_proceeds h hu).bind fun last => ?_
  exact Proceeds.expectClosing (by decide) fun close => Proceeds.ret fun s hs => ⟨rfl, hs⟩

omit [inner.Steady] in
lemma step_proceeds (hu : Derives true (.opt .step) o u) :
    Proceeds (Ready depth (u ++ TokenKind.keyword .do_ :: rest)) (step inner)
      fun _ => Ready depth (.keyword .do_ :: rest) := by
  cases hu with
  | none => exact Proceeds.takeNone (by simp) (Proceeds.ret fun s hs => hs)
  | some hu =>
    cases hu with
    | step hw =>
      refine Proceeds.take (by decide) fun comma => ?_
      exact h.expression.step hw (.of rfl) fun value _ => Proceeds.ret fun s hs => hs

lemma numericFor_proceeds {keyword : Token} {o₁ o₂ : Bool} {b : List TokenKind}
    (hw : Derives true .exp o w) (hv : Derives true .exp o' v)
    (hu : Derives true (.opt .step) o₁ u) (hb : Derives true .block o₂ b) :
    Proceeds (Ready depth (.ident :: .symbol .eq :: (w ++ TokenKind.symbol .comma ::
        (v ++ (u ++ TokenKind.keyword .do_ :: (b ++ TokenKind.keyword .end_ :: rest))))))
      (numericFor inner keyword) fun a s => a.isReturn = false ∧ Ready depth rest s := by
  have hstops : Stops o'
      (u ++ TokenKind.keyword .do_ :: (b ++ TokenKind.keyword .end_ :: rest)) := by
    cases hu with
    | none => exact .of rfl
    | some hu =>
      cases hu
      exact .of rfl
  refine proceeds_identifier fun var => Proceeds.advance (by decide) fun eq => ?_
  refine h.expression.step hw (.of rfl) fun start _ => ?_
  refine Proceeds.expect (by decide) fun comma => ?_
  refine h.expression.step hv hstops fun limit _ => ?_
  refine (step_proceeds h hu).bind fun step => ?_
  refine Proceeds.expect (by decide) fun opener => ?_
  refine h.blockHere hb rfl fun block => ?_
  exact Proceeds.expectClosing (by decide) fun close => Proceeds.ret fun s hs => ⟨rfl, hs⟩

lemma genericFor_proceeds {keyword : Token} {o₁ : Bool} {b : List TokenKind}
    (hw : Derives true (.list .name) o w) (hv : Derives true (.list .exp) o' v)
    (hb : Derives true .block o₁ b) :
    Proceeds (Ready depth (w ++ TokenKind.keyword .in_ ::
        (v ++ TokenKind.keyword .do_ :: (b ++ TokenKind.keyword .end_ :: rest))))
      (genericFor inner keyword) fun a s => a.isReturn = false ∧ Ready depth rest s := by
  refine (nameList_proceeds hw (by simp)).bind fun names => ?_
  refine Proceeds.expect (by decide) fun in_ => ?_
  refine (exprList_proceeds h hv (.of rfl) (by simp)).bind fun exprs => ?_
  refine Proceeds.expect (by decide) fun opener => ?_
  refine h.blockHere hb rfl fun block => ?_
  exact Proceeds.expectClosing (by decide) fun close => Proceeds.ret fun s hs => ⟨rfl, hs⟩

/-! ### Functions -/

lemma functionName_proceeds (hw : Derives true .dotted o w)
    (hrest : beginsSuffix false (.front rest) = false) :
    Proceeds (Ready depth (w ++ rest)) (functionName inner)
      fun e s => firstNonName? e = none ∧ Ready depth rest s := by
  obtain ⟨v, rfl, hv⟩ := hw.unrolled
  have hsuffixed : Suffixed false .dotted (.ident :: v) := .mk .name hv
  exact Proceeds.atKind (decide_eq_true rfl) (suffixed_proceeds h hsuffixed hrest)

omit [inner.Steady] h in
lemma checkName_eq {e : Expr} (he : firstNonName? e = none) : checkName e = pure () := by
  rw [checkName, he]

omit [inner.Steady] h in
lemma methodName_proceeds (hu : u = [] ∨ u = [.symbol .colon, .ident])
    (hrest : TokenKind.front rest ≠ .symbol .colon) :
    Proceeds (Ready depth (u ++ rest)) methodName fun _ => Ready depth rest := by
  rcases hu with rfl | rfl
  · exact Proceeds.takeNone hrest (Proceeds.ret fun s hs => hs)
  · exact Proceeds.take (by decide) fun colon =>
      proceeds_identifier fun name => Proceeds.ret fun s hs => hs

omit [inner.Steady] h in
lemma exists_dotted (hw : Derives true .funcName o w) :
    ∃ o' w' u, w = w' ++ u ∧ Derives true .dotted o' w'
      ∧ (u = [] ∨ u = [.symbol .colon, .ident]) := by
  cases hw with
  | plainName hname => exact ⟨_, _, [], by simp, hname, .inl rfl⟩
  | methodName hname => exact ⟨_, _, _, rfl, hname, .inr rfl⟩

lemma functionStat_proceeds (hw : Derives true .funcName o w)
    (hv : Derives true .funcBody o' v) :
    Proceeds (Ready depth (.keyword .function_ :: (w ++ (v ++ rest)))) (functionStat inner)
      fun a s => a.isReturn = false ∧ Ready depth rest s := by
  obtain ⟨o₁, w, u, rfl, hname, hu⟩ := exists_dotted hw
  obtain ⟨v, rfl⟩ := funcBody_front hv
  have hfront : beginsSuffix false
      (.front (u ++ TokenKind.symbol .openParen :: (v ++ rest))) = false := by
    rcases hu with rfl | rfl <;> rfl
  rw [List.append_assoc]
  refine Proceeds.advance (by decide) fun keyword => ?_
  refine (functionName_proceeds h hname hfront).bindFact fun name hdotted => ?_
  rw [checkName_eq hdotted, pure_bind]
  refine (methodName_proceeds hu (by simp)).bind fun method => ?_
  exact (funcBody_takes h).step hv trivial fun body _ => Proceeds.ret fun s hs => ⟨rfl, hs⟩

lemma localFunction_proceeds (hw : Derives true .funcBody o w) :
    Proceeds (Ready depth (.keyword .local_ :: .keyword .function_ :: .ident :: (w ++ rest)))
      (localFunction inner) fun a s => a.isReturn = false ∧ Ready depth rest s := by
  refine Proceeds.advance (by decide) fun keyword => Proceeds.advance (by decide) fun second => ?_
  refine proceeds_identifier fun name => ?_
  exact (funcBody_takes h).step hw trivial fun body _ => Proceeds.ret fun s hs => ⟨rfl, hs⟩

/-! ### Assignments -/

/-- No equals sign comes after the values, so the parser does not go back. -/
lemma assignedValues_proceeds {eq : Token} (hw : Derives true (.list .exp) o w)
    (hrest : Ends o rest) :
    Proceeds (Ready depth (w ++ rest)) (assignedValues inner eq) fun _ => Ready depth rest := by
  intro s hs hdeep
  have hvalues := exprList_proceeds h hw hrest.toStops hrest.comma s hs
  rw [run_assignedValues] at hdeep ⊢
  split at hdeep
  · next hback =>
    rw [run_bind (run_error_eq ..)] at hdeep
    have hfacing := (hvalues hdeep).currentKind_eq
    exact absurd (hfacing.symm.trans hback.1) hrest.eq
  · next hvals =>
    rw [if_neg hvals]
    exact hvalues hdeep

omit h in
lemma localStat_proceeds (hw : Derives true (.list .name) o w) (hrest : Ends false rest) :
    Proceeds (Ready depth (.keyword .local_ :: (w ++ rest))) (localStat inner)
      fun a s => a.isReturn = false ∧ Ready depth rest s := by
  refine Proceeds.advance (by decide) fun keyword => ?_
  refine (nameList_proceeds hw hrest.comma).bind
    (h := fun names => Steady.cases fun found => ?_) fun names => ?_
  · cases found <;> infer_instance
  · refine Proceeds.takeNone hrest.eq (Proceeds.lastStop fun anchor => ?_)
    exact Proceeds.ret fun s hs => ⟨rfl, hs⟩

lemma localValues_proceeds (hw : Derives true (.list .name) o w)
    (hv : Derives true (.list .exp) o' v) (hrest : Ends o' rest) :
    Proceeds (Ready depth (.keyword .local_ :: (w ++ TokenKind.symbol .eq :: (v ++ rest))))
      (localStat inner) fun a s => a.isReturn = false ∧ Ready depth rest s := by
  refine Proceeds.advance (by decide) fun keyword => ?_
  refine (nameList_proceeds hw (by simp)).bind
    (h := fun names => Steady.cases fun found => ?_) fun names => ?_
  · cases found <;> infer_instance
  · refine Proceeds.take (by decide) fun eq => ?_
    refine (assignedValues_proceeds h hv hrest).bind fun values => ?_
    exact Proceeds.ret fun s hs => ⟨rfl, hs⟩

omit [inner.Steady] h in
lemma checkTargets_eq {targets : List Expr} (h : ∀ e ∈ targets, e.isAssignable = true) :
    checkTargets targets = pure () := by
  induction targets with
  | nil => rfl
  | cons e targets ih =>
    rw [List.forall_mem_cons] at h
    rw [checkTargets, ih h.2, h.1]
    rfl

lemma target_takes :
    Takes Stops depth .var (suffixed inner true) fun e => e.isAssignable = true := by
  intro o w rest hw hrest
  obtain ⟨rfl, f, hsuffixed, hassignable⟩ := hw.unrolled
  exact (suffixed_proceeds h hsuffixed (hrest.suffix rfl)).imp
    fun e _ hs => ⟨hassignable e hs.1, hs.2⟩

lemma assignment_proceeds {first : Expr} (hfirst : first.isAssignable = true)
    (hw : More .var o w) (hv : Derives true (.list .exp) o' v) (hrest : Ends o' rest) :
    Proceeds (Ready depth (w ++ TokenKind.symbol .eq :: (v ++ rest))) (assignment inner first)
      fun a s => a.isReturn = false ∧ Ready depth rest s := by
  refine (itemsAfter_proceeds (target_takes h) (fun _ _ => .of rfl) hw hfirst (.of rfl)
    (by simp)).bindFact fun targets htargets => ?_
  rw [checkTargets_eq htargets, pure_bind]
  refine Proceeds.expect (by decide) fun eq => ?_
  refine (assignedValues_proceeds h hv hrest).bind fun values => ?_
  exact Proceeds.ret fun s hs => ⟨rfl, hs⟩

/-! ### Expressions as statements -/

lemma exprStat_assign (hw : Derives true (.list .var) o w) (hv : Derives true (.list .exp) o' v)
    (hrest : Ends o' rest) :
    Proceeds (Ready depth (w ++ TokenKind.symbol .eq :: (v ++ rest))) (exprStat inner)
      fun a s => a.isReturn = false ∧ Ready depth rest s := by
  obtain ⟨o₁, w, u, rfl, hfirst, hmore, ho⟩ := exists_first hw
  rw [List.append_assoc]
  refine (target_takes h hfirst (hmore.append ho (fun _ _ => .of rfl) (.of rfl))).bindFact
    (h := fun e => Steady.cases fun kind => ?_) fun e he => ?_
  · split <;> infer_instance
  · have hassign := assignment_proceeds h he hmore hv hrest
    cases hmore <;> exact Proceeds.currentKind rfl hassign

lemma exprStat_call (hw : Derives true .call o w) (hrest : Ends true rest) :
    Proceeds (Ready depth (w ++ rest)) (exprStat inner)
      fun a s => a.isReturn = false ∧ Ready depth rest s := by
  refine (suffixed_proceeds h hw.unrolled.2 (hrest.suffix rfl)).bindFact
    (h := fun e => Steady.cases fun kind => ?_) fun e he => ?_
  · split <;> infer_instance
  · refine Proceeds.currentKind rfl ?_
    split
    · next heq => exact absurd heq hrest.eq
    · next heq => exact absurd heq hrest.comma
    · have hcall : e.isCall = true := he
      rw [if_pos hcall]
      exact Proceeds.ret fun s hs => ⟨rfl, hs⟩

/-! ### Statements -/

lemma statement_takes : Takes Ends depth .stat (statement inner) fun a => a.isReturn = false := by
  intro o w rest hw hrest
  cases hw with
  | empty =>
    exact Proceeds.currentKind rfl (Proceeds.advance (by decide) fun t =>
      Proceeds.ret fun s hs => ⟨rfl, hs⟩)
  | assign hw hv =>
    have hstat := exprStat_assign h hw hv hrest
    rw [List.append_assoc, List.cons_append]
    obtain ⟨k, u, rfl, rfl | rfl⟩ := hw.vars_front <;> exact Proceeds.currentKind rfl hstat
  | callStat hw =>
    have hstat := exprStat_call h hw hrest
    obtain ⟨k, u, rfl, rfl | rfl⟩ := hw.unrolled.2.front <;>
      exact Proceeds.currentKind rfl hstat
  | label =>
    refine Proceeds.currentKind rfl (Proceeds.advance (by decide) fun opening => ?_)
    refine proceeds_identifier fun name => ?_
    exact Proceeds.expect (by decide) fun closing => Proceeds.ret fun s hs => ⟨rfl, hs⟩
  | break_ =>
    exact Proceeds.currentKind rfl (Proceeds.advance (by decide) fun t =>
      Proceeds.ret fun s hs => ⟨rfl, hs⟩)
  | goto_ =>
    refine Proceeds.currentKind rfl (Proceeds.advance (by decide) fun keyword => ?_)
    exact proceeds_identifier fun label => Proceeds.ret fun s hs => ⟨rfl, hs⟩
  | do_ hb =>
    simp only [List.cons_append, List.append_assoc, List.nil_append]
    exact Proceeds.currentKind rfl (doStat_proceeds h hb)
  | while_ hw hb =>
    simp only [List.cons_append, List.append_assoc, List.nil_append]
    exact Proceeds.currentKind rfl (whileStat_proceeds h hw hb)
  | repeat_ hb hw =>
    simp only [List.cons_append, List.append_assoc]
    exact Proceeds.currentKind rfl (repeatStat_proceeds h hb hw hrest.toStops)
  | if_ hw hb hv hu =>
    simp only [List.cons_append, List.append_assoc, List.nil_append]
    exact Proceeds.currentKind rfl (ifStat_proceeds h hw hb hv hu)
  | numericFor hw hv hu hb =>
    simp only [List.cons_append, List.append_assoc, List.nil_append]
    refine Proceeds.currentKind rfl (Proceeds.advance (by decide) fun keyword => ?_)
    refine Proceeds.currentKind rfl (Proceeds.nextKind rfl ?_)
    exact numericFor_proceeds h hw hv hu hb
  | genericFor hw hv hb =>
    simp only [List.cons_append, List.append_assoc, List.nil_append]
    refine Proceeds.currentKind rfl (Proceeds.advance (by decide) fun keyword => ?_)
    -- one name or more: no equals sign comes after the first
    obtain ⟨u, rfl, rfl | ⟨u, rfl⟩⟩ := names_front hw
    all_goals
      refine Proceeds.currentKind rfl (Proceeds.nextKind rfl ?_)
      exact genericFor_proceeds h hw hv hb
  | functionStat hw hv =>
    simp only [List.cons_append, List.append_assoc]
    exact Proceeds.currentKind rfl (functionStat_proceeds h hw hv)
  | localFunction hw =>
    refine Proceeds.currentKind rfl (Proceeds.nextKind rfl ?_)
    exact localFunction_proceeds h hw
  | local_ hw =>
    obtain ⟨v, rfl, -⟩ := names_front hw
    refine Proceeds.currentKind rfl (Proceeds.nextKind rfl ?_)
    exact localStat_proceeds hw hrest
  | localValues hw hv =>
    obtain ⟨u, rfl, -⟩ := names_front hw
    simp only [List.cons_append, List.append_assoc]
    refine Proceeds.currentKind rfl (Proceeds.nextKind rfl ?_)
    exact localValues_proceeds h hw hv hrest

/-- What comes after the values of a return statement. -/
def Returned (rest : List TokenKind) : Prop :=
  (TokenKind.front rest).endsBlock = true ∨ TokenKind.front rest = .symbol .semi

lemma returnValues_proceeds (hw : Derives true (.opt (.list .exp)) o w) (hrest : Returned rest) :
    Proceeds (Ready depth (w ++ rest)) (returnValues inner) fun _ => Ready depth rest := by
  cases hw with
  | none =>
    refine Proceeds.currentKind (k := .front rest) rfl ?_
    rw [if_pos (by simpa [Returned] using hrest)]
    exact Proceeds.lastStop fun anchor => Proceeds.ret fun s hs => hs
  | some hw =>
    obtain ⟨k, v, rfl, hk⟩ := list_front hw
    have hsemi : k ≠ .symbol .semi := by
      rintro rfl
      exact absurd hk (by decide)
    have hstop : Stops o rest ∧ TokenKind.front rest ≠ .symbol .comma := by
      rcases hrest with hrest | hrest
      · have hends : Ends o rest := .of_endsBlock hrest
        exact ⟨hends.toStops, hends.comma⟩
      · exact ⟨.ofFront (by rw [hrest]; rfl), by simp [hrest]⟩
    refine Proceeds.currentKind (k := k) rfl ?_
    rw [if_neg (by simp [Phrase.endsBlock_of_canBeginExpr hk, hsemi])]
    exact exprList_proceeds h hw hstop.1 hstop.2

lemma returnStat_proceeds (hw : Derives true .return_ o w)
    (hrest : (TokenKind.front rest).endsBlock = true) :
    Proceeds (Ready depth (w ++ rest)) (returnStat inner) fun _ => Ready depth rest := by
  cases hw with
  | return_ hvalues hsemi =>
    simp only [List.cons_append, List.append_assoc]
    refine Proceeds.advance (by decide) fun keyword => ?_
    cases hsemi with
    | none =>
      refine (returnValues_proceeds h hvalues (.inl hrest)).bind fun values => ?_
      refine Proceeds.takeNone (fun heq => ?_) (Proceeds.ret fun s hs => hs)
      exact absurd (heq ▸ hrest) (by decide)
    | some hsemi =>
      cases hsemi with
      | semi =>
        refine (returnValues_proceeds h hvalues (.inr rfl)).bind fun values => ?_
        exact Proceeds.take (by decide) fun semi => Proceeds.ret fun s hs => hs

lemma returnStatement_proceeds (hw : Derives true .return_ o w)
    (hrest : (TokenKind.front rest).endsBlock = true) :
    Proceeds (Ready depth (w ++ rest)) (statement inner) fun _ => Ready depth rest := by
  have hstat := returnStat_proceeds h hw hrest
  cases hw
  exact Proceeds.currentKind rfl hstat

/-! ### Blocks -/

lemma statements_proceeds {afterReturn : Bool} (hw : Derives true .block o w)
    (hbound : w.length ≤ bound) (hafter : afterReturn = true → w = [])
    (hrest : (TokenKind.front rest).endsBlock = true) :
    Proceeds (Ready depth (w ++ rest)) (statements inner bound afterReturn)
      fun _ => Ready depth rest := by
  induction bound generalizing o w afterReturn with
  | zero =>
    obtain rfl := List.length_eq_zero_iff.1 (Nat.le_zero.1 hbound)
    exact Proceeds.ret fun s hs => hs
  | succ bound ih =>
    cases hw with
    | emptyBlock =>
      refine Proceeds.currentKind (k := .front rest) rfl ?_
      rw [if_pos hrest]
      exact Proceeds.ret fun s hs => hs
    | lastStat hreturn =>
      obtain ⟨v, rfl⟩ := hreturn.return_front
      obtain rfl : afterReturn = false := by simpa using hafter
      refine Proceeds.currentKind rfl ?_
      -- the loop goes on after a return statement, but finds the end of the block
      refine (returnStatement_proceeds h hreturn hrest).bind fun a => Proceeds.errorIf ?_
      refine (ih .emptyBlock (by simp) (fun _ => rfl)).bind fun stats => ?_
      exact Proceeds.ret fun s hs => hs
    | stats hstat hv hgreedy =>
      obtain ⟨k, u, rfl, hk⟩ := hstat.stat_front
      obtain rfl : afterReturn = false := by simpa using hafter
      simp only [List.cons_append, List.length_cons, List.length_append] at hbound
      rw [List.append_assoc]
      refine Proceeds.currentKind (k := k) rfl ?_
      rw [if_neg (by simp [Phrase.endsBlock_of_starter hk])]
      refine (statement_takes h).step hstat (hv.block_ends (hgreedy rfl) hrest) fun a ha => ?_
      refine Proceeds.errorIf ?_
      refine (ih hv (by omega) fun hreturn => ?_).bind fun stats => Proceeds.ret fun s hs => hs
      exact absurd (ha.symm.trans hreturn) Bool.false_ne_true

end Inner

lemma blockAround_proceeds [inner.Steady] (h : inner.Accepts (depth + 1)) {anchor : Offset}
    (hw : Derives true .block o w) (hrest : (TokenKind.front rest).endsBlock = true) :
    Proceeds (Ready depth (w ++ rest)) (blockAround inner anchor) fun _ => Ready depth rest := by
  refine Proceeds.nested (Proceeds.remaining ?_)
  have hbound : w.length ≤ (w ++ rest).length := by simp
  refine (statements_proceeds h hw hbound (fun hfalse => ?_) hrest).bind fun stats => ?_
  · exact absurd hfalse Bool.false_ne_true
  exact Proceeds.ret fun s hs => hs.leave

end LuaFront.Grammar
