import LuaFront.Proofs.Acceptance.Levels

/-!
The expressions of the grammar are accepted by the parsers of the level around one that accepts
what is nested in them.
-/

namespace LuaFront.Grammar

open Parse ParseState
open Phrase (Derives Form Suffix Suffixes Primary Suffixed Simple Chain Stops isStop binaryOps
  fieldSeps)

variable {inner : Level} {depth power bound : Nat} {o calls : Bool} {k : TokenKind}
  {w v rest : List TokenKind}

/-! ### Tables -/


/-- Nothing, or a delimiter and perhaps more fields. -/
inductive MoreFields : List TokenKind → Prop
  | nil : MoreFields []
  | cons {sep : TokenKind} {isOpen : Bool} {w : List TokenKind} :
    sep ∈ fieldSeps → Derives true (.opt .fields) isOpen w → MoreFields (sep :: w)

section Inner

variable [inner.Steady] (h : inner.Accepts depth)

include h

lemma exprList_proceeds (hw : Derives true (.list .exp) o w) (hrest : Stops o rest)
    (hlast : TokenKind.front rest ≠ .symbol .comma) :
    Proceeds (Ready depth (w ++ rest)) inner.exprList fun _ => Ready depth rest :=
  (commaList_proceeds h.expression (fun _ _ => .of rfl) hw hrest hlast).imp fun _ _ hs => hs.2

lemma tableField_takes :
    Takes (fun o rest => Stops o rest ∧ TokenKind.front rest ≠ .symbol .eq) depth .field
      (tableField inner) fun _ => True := by
  rintro o w rest hw ⟨hrest, heq⟩
  cases hw with
  | positional hexp =>
    obtain ⟨k, v, rfl, hk⟩ := hexp.unrolled.front
    refine Proceeds.currentKind (k := k) rfl ?_
    split
    · exact absurd hk (by decide)
    · refine Proceeds.nextKind (k := .front (v ++ rest)) rfl ?_
      rw [if_neg (hexp.unrolled.second heq)]
      exact h.expression.step hexp hrest fun value _ => Proceeds.ret fun s hs => ⟨trivial, hs⟩
    · exact h.expression.step hexp hrest fun value _ => Proceeds.ret fun s hs => ⟨trivial, hs⟩
  | named hexp =>
    refine Proceeds.currentKind rfl (Proceeds.nextKind rfl ?_)
    refine Proceeds.advance (by decide) fun name => Proceeds.advance (by decide) fun eq => ?_
    exact h.expression.step hexp hrest fun value _ => Proceeds.ret fun s hs => ⟨trivial, hs⟩
  | keyed hkey hexp =>
    simp only [List.cons_append, List.append_assoc]
    refine Proceeds.currentKind rfl (Proceeds.advance (by decide) fun opening => ?_)
    refine h.expression.step hkey (.of rfl) fun key _ => ?_
    refine Proceeds.expectClosing (by decide) fun closing => ?_
    refine Proceeds.expect (by decide) fun eq => ?_
    exact h.expression.step hexp hrest fun value _ => Proceeds.ret fun s hs => ⟨trivial, hs⟩

omit [inner.Steady] h in
lemma field_front (hw : Derives true .field o w) :
    ∃ k v, w = k :: v ∧ (k.canBeginExpr || k = .symbol .openBracket) = true := by
  cases hw with
  | positional hexp =>
    obtain ⟨k, v, rfl, hk⟩ := hexp.unrolled.front
    exact ⟨k, v, rfl, by simp [hk]⟩
  | named | keyed => exact ⟨_, _, rfl, rfl⟩

omit [inner.Steady] h in
lemma exists_field (hw : Derives true .fields o w) :
    ∃ o' w' v, w = w' ++ v ∧ Derives true .field o' w' ∧ MoreFields v := by
  cases hw with
  | lastField hfield => exact ⟨_, _, [], by simp, hfield, .nil⟩
  | endedField hfield hsep => exact ⟨_, _, _, rfl, hfield, .cons hsep .none⟩
  | moreFields hfield hsep hmore => exact ⟨_, _, _, rfl, hfield, .cons hsep (.some hmore)⟩

omit [inner.Steady] h in
lemma MoreFields.stops (hv : MoreFields v) :
    Stops o (v ++ TokenKind.symbol .closeBrace :: rest)
      ∧ TokenKind.front (v ++ TokenKind.symbol .closeBrace :: rest) ≠ .symbol .eq := by
  cases hv with
  | nil => exact ⟨.of rfl, by simp⟩
  | cons hsep =>
    simp only [fieldSeps, List.mem_cons, List.not_mem_nil, or_false] at hsep
    rcases hsep with rfl | rfl <;> exact ⟨.of rfl, by simp⟩

lemma tableFields_proceeds {fields : Separated TableField}
    (hw : Derives true (.opt .fields) o w) (hbound : w.length ≤ bound) :
    Proceeds (Ready depth (w ++ TokenKind.symbol .closeBrace :: rest))
      (tableFields inner bound fields) fun _ => Ready depth (.symbol .closeBrace :: rest) := by
  induction bound generalizing o w fields with
  | zero =>
    obtain rfl := List.length_eq_zero_iff.1 (Nat.le_zero.1 hbound)
    exact Proceeds.ret fun s hs => hs
  | succ bound ih =>
    cases hw with
    | none => exact Proceeds.currentKind rfl (Proceeds.ret fun s hs => hs)
    | some hfields =>
      obtain ⟨o', w', v, rfl, hfield, hv⟩ := exists_field hfields
      obtain ⟨k, w', rfl, hk⟩ := field_front hfield
      refine Proceeds.currentKind (k := k) rfl ?_
      rw [if_pos hk, List.append_assoc]
      simp only [List.length_cons, List.length_append] at hbound
      refine (tableField_takes h hfield hv.stops).bindFact
        (h := fun field => Steady.cases fun next => ?_) fun field _ => ?_
      · split <;> infer_instance
      · cases hv with
        | nil => exact Proceeds.currentKind rfl (Proceeds.ret fun s hs => hs)
        | cons hsep hmore =>
          simp only [List.length_cons] at hbound
          simp only [fieldSeps, List.mem_cons, List.not_mem_nil, or_false] at hsep
          rcases hsep with rfl | rfl
          all_goals
            refine Proceeds.currentKind rfl (Proceeds.advance (by decide) fun sep => ?_)
            exact ih hmore (by omega)

lemma table_takes : Takes Always depth .table (table inner) fun _ => True := by
  intro o w rest hw _
  cases hw with
  | table hfields =>
    simp only [List.cons_append, List.append_assoc, List.nil_append]
    refine Proceeds.advance (by decide) fun opening => Proceeds.remaining ?_
    refine (tableFields_proceeds h hfields (by simp)).bind fun fields => ?_
    exact Proceeds.expectClosing (by decide) fun closing => Proceeds.ret fun s hs => ⟨trivial, hs⟩

/-! ### Functions -/

omit [inner.Steady] h in
lemma parameters_proceeds {params : Separated Param} (hw : Derives true .parameters o w)
    (hbound : w.length ≤ bound) :
    Proceeds (Ready depth (w ++ TokenKind.symbol .closeParen :: rest)) (parameters bound params)
      fun _ => Ready depth (.symbol .closeParen :: rest) := by
  induction bound generalizing w params with
  | zero => cases hw <;> exact absurd hbound (by simp)
  | succ bound ih =>
    cases hw with
    | lastParam =>
      refine Proceeds.currentKind rfl (Proceeds.advance (by decide) fun name => ?_)
      exact Proceeds.takeNone (by simp) (Proceeds.ret fun s hs => hs)
    | vararg =>
      exact Proceeds.currentKind rfl (Proceeds.advance (by decide) fun t =>
        Proceeds.ret fun s hs => hs)
    | moreParams hmore =>
      simp only [List.length_cons] at hbound
      refine Proceeds.currentKind rfl (Proceeds.advance (by decide) fun name => ?_)
      refine Proceeds.take (by decide) fun comma => ?_
      exact ih hmore (by omega)

omit [inner.Steady] h in
lemma parameterList_proceeds (hw : Derives true (.opt .parameters) o w) :
    Proceeds (Ready depth (w ++ TokenKind.symbol .closeParen :: rest)) parameterList
      fun _ => Ready depth (.symbol .closeParen :: rest) := by
  refine Proceeds.lastStop fun anchor => ?_
  cases hw with
  | none => exact Proceeds.atKind (decide_eq_true rfl) (Proceeds.ret fun s hs => hs)
  | some hparams =>
    have hfront : decide (TokenKind.front (w ++ TokenKind.symbol .closeParen :: rest)
        = .symbol .closeParen) = false := by
      cases hparams <;> rfl
    refine Proceeds.atKind hfront (Proceeds.remaining ?_)
    exact parameters_proceeds hparams (by simp; omega)

lemma funcBody_takes {keyword : Token} :
    Takes Always depth .funcBody (funcBody inner keyword) fun _ => True := by
  intro o w rest hw _
  cases hw with
  | funcBody hparams hblock =>
    simp only [List.cons_append, List.append_assoc, List.nil_append]
    refine Proceeds.expect (by decide) fun opening => ?_
    refine (parameterList_proceeds hparams).bind fun params => ?_
    refine Proceeds.expect (by decide) fun closing => ?_
    refine h.blockHere hblock rfl fun block => ?_
    exact Proceeds.expectClosing (by decide) fun close => Proceeds.ret fun s hs => ⟨trivial, hs⟩

/-! ### Suffixes -/

lemma argList_proceeds (hw : Derives true (.opt (.list .exp)) o w) :
    Proceeds (Ready depth (w ++ TokenKind.symbol .closeParen :: rest)) (argList inner)
      fun _ => Ready depth (.symbol .closeParen :: rest) := by
  cases hw with
  | none =>
    refine Proceeds.atKind (decide_eq_true rfl) ?_
    exact Proceeds.lastStop fun anchor => Proceeds.ret fun s hs => hs
  | some hargs =>
    refine Proceeds.atKind (decide_eq_false ?_) (exprList_proceeds h hargs (.of rfl) (by simp))
    obtain ⟨k, v, rfl, hk⟩ := list_front hargs
    rintro ⟨⟩
    exact absurd hk (by decide)

lemma callArgs_takes : Takes Always depth .args (callArgs inner) fun _ => True := by
  intro o w rest hw _
  cases hw with
  | argsParen hargs =>
    simp only [List.cons_append, List.append_assoc, List.nil_append]
    refine Proceeds.currentKind rfl (Proceeds.advance (by decide) fun opening => ?_)
    refine (argList_proceeds h hargs).bind fun args => ?_
    exact Proceeds.expectClosing (by decide) fun closing => Proceeds.ret fun s hs => ⟨trivial, hs⟩
  | argsTable htable =>
    obtain ⟨v, rfl⟩ := htable.table_front
    refine Proceeds.currentKind rfl ?_
    exact (table_takes h).step htable trivial fun t _ => Proceeds.ret fun s hs => ⟨trivial, hs⟩
  | argsString =>
    exact Proceeds.currentKind rfl (Proceeds.advance (by decide) fun t =>
      Proceeds.ret fun s hs => ⟨trivial, hs⟩)

lemma suffix_proceeds {f g : Form} {base : Expr} (hw : Suffix calls f g w) (hbase : f.Of base) :
    Proceeds (Ready depth (w ++ rest)) (suffix inner base)
      fun e s => g.Of e ∧ Ready depth rest s := by
  cases hw with
  | dot =>
    refine Proceeds.currentKind rfl (Proceeds.advance (by decide) fun dot => ?_)
    exact proceeds_identifier fun name => Proceeds.ret fun s hs => ⟨hbase, hs⟩
  | field =>
    refine Proceeds.currentKind rfl (Proceeds.advance (by decide) fun dot => ?_)
    exact proceeds_identifier fun name => Proceeds.ret fun s hs => ⟨rfl, hs⟩
  | index hkey =>
    simp only [List.cons_append, List.append_assoc, List.nil_append]
    refine Proceeds.currentKind rfl (Proceeds.advance (by decide) fun opening => ?_)
    refine h.expression.step hkey (.of rfl) fun key _ => ?_
    exact Proceeds.expectClosing (by decide) fun closing => Proceeds.ret fun s hs => ⟨rfl, hs⟩
  | method hargs =>
    refine Proceeds.currentKind rfl (Proceeds.advance (by decide) fun colon => ?_)
    refine proceeds_identifier fun name => ?_
    exact (callArgs_takes h).step hargs trivial fun args _ => Proceeds.ret fun s hs => ⟨rfl, hs⟩
  | call hargs =>
    obtain ⟨k, v, rfl, hk⟩ := hargs.args_front
    simp only [List.mem_cons, List.not_mem_nil, or_false] at hk
    rcases hk with rfl | rfl | rfl
    all_goals
      refine Proceeds.currentKind rfl ?_
      exact (callArgs_takes h).step hargs trivial fun args _ => Proceeds.ret fun s hs => ⟨rfl, hs⟩

omit [inner.Steady] in
lemma primary_proceeds {f : Form} (hw : Primary f w) :
    Proceeds (Ready depth (w ++ rest)) (primary inner) fun e s => f.Of e ∧ Ready depth rest s := by
  cases hw with
  | name =>
    exact Proceeds.currentKind rfl (Proceeds.advance (by decide) fun t =>
      Proceeds.ret fun s hs => ⟨rfl, hs⟩)
  | paren hexp =>
    simp only [List.cons_append, List.append_assoc, List.nil_append]
    refine Proceeds.currentKind rfl (Proceeds.advance (by decide) fun opening => ?_)
    refine h.expression.step hexp (.of rfl) fun e _ => ?_
    exact Proceeds.expectClosing (by decide) fun closing => Proceeds.ret fun s hs => ⟨trivial, hs⟩

lemma suffixed_proceeds {g : Form} (hw : Suffixed calls g w)
    (hrest : beginsSuffix calls (.front rest) = false) :
    Proceeds (Ready depth (w ++ rest)) (suffixed inner calls)
      fun e s => g.Of e ∧ Ready depth rest s := by
  obtain ⟨hprimary, hsuffixes⟩ := hw
  rw [List.append_assoc]
  exact (primary_proceeds h hprimary).bindFact fun e he => h.suffixes hsuffixes he hrest

/-! ### Operands -/

lemma simpleExpr_proceeds (hw : Simple o w)
    (hrest : o = true → beginsSuffix true (.front rest) = false) :
    Proceeds (Ready depth (w ++ rest)) (simpleExpr inner) fun _ => Ready depth rest := by
  cases hw with
  | literal hk =>
    simp only [Phrase.literals, List.mem_cons, List.not_mem_nil, or_false] at hk
    rcases hk with rfl | rfl | rfl | rfl | rfl | rfl
    all_goals
      exact Proceeds.currentKind rfl (Proceeds.advance (by decide) fun t =>
        Proceeds.ret fun s hs => hs)
  | function hbody =>
    refine Proceeds.currentKind rfl (Proceeds.advance (by decide) fun keyword => ?_)
    exact (funcBody_takes h).step hbody trivial fun body _ => Proceeds.ret fun s hs => hs
  | table htable =>
    obtain ⟨v, rfl⟩ := htable.table_front
    refine Proceeds.currentKind rfl ?_
    exact (table_takes h).step htable trivial fun t _ => Proceeds.ret fun s hs => hs
  | suffixed hsuffixed =>
    have hproceeds := (suffixed_proceeds h hsuffixed (hrest rfl)).imp fun _ _ hs => hs.2
    obtain ⟨k, v, rfl, rfl | rfl⟩ := hsuffixed.front <;> exact Proceeds.currentKind rfl hproceeds

lemma operand_proceeds (hw : Chain o w) (hrest : Stops o rest) :
    Proceeds (Ready depth (w ++ rest)) (operand inner)
      fun _ s => ∃ v, Links o v ∧ Ready depth (v ++ rest) s := by
  cases hw with
  | simple hsimple =>
    obtain ⟨k, v, rfl, -, hunary⟩ := hsimple.front
    refine Proceeds.currentKind (k := k) rfl ?_
    rw [hunary]
    exact (simpleExpr_proceeds h hsimple hrest.suffix).imp fun _ s hs => ⟨[], .nil, hs⟩
  | @unary k _ _ hk hchain =>
    obtain ⟨op, hop⟩ := Phrase.unaryOp?_of_mem hk
    refine Proceeds.currentKind (k := k) rfl ?_
    rw [hop]
    refine Proceeds.advance (by rintro rfl; exact absurd hk (by decide)) fun sign => ?_
    -- what the operand leaves comes after the unary expression as a whole
    refine (h.expr hchain hrest).bind fun e => proceeds_left fun v hv _ => ?_
    exact Proceeds.ret fun s hs => ⟨v, hv, hs⟩
  | binary hsimple hop hchain =>
    obtain ⟨k, v, rfl, -, hunary⟩ := hsimple.front
    rw [List.append_assoc]
    refine Proceeds.currentKind (k := k) rfl ?_
    rw [hunary]
    refine (simpleExpr_proceeds h hsimple fun _ => ?_).imp fun _ s hs => ⟨_, .cons hop hchain, hs⟩
    exact Phrase.beginsSuffix_of_mem hop

end Inner

/-! ### The parsers of the next level out -/

section Around

variable [inner.Steady] (h : inner.Accepts (depth + 1))

lemma Left.leave {s : ParseState} (hs : Left (depth + 1) power o rest s) :
    Left depth power o rest (Parse.leave.run s).2 := by
  obtain ⟨v, hlinks, hweak, hs⟩ := hs
  exact ⟨v, hlinks, hweak, hs.leave⟩

include h

lemma exprAround_proceeds (hw : Chain o w) (hrest : Stops o rest) :
    Proceeds (Ready depth (w ++ rest)) (exprAround inner power)
      fun _ => Left depth power o rest := by
  refine Proceeds.nested ((operand_proceeds h hw hrest).bind fun first => ?_)
  rintro s ⟨v, hlinks, hs⟩ hdeep
  exact (h.operators hlinks hrest s hs hdeep).leave

lemma operatorsAround_proceeds {first : Expr} (hw : Links o w) (hrest : Stops o rest) :
    Proceeds (Ready depth (w ++ rest)) (operatorsAround inner power first)
      fun _ => Left depth power o rest := by
  cases hw with
  | nil =>
    refine Proceeds.currentKind (k := .front rest) rfl ?_
    rw [hrest.operator]
    exact Proceeds.ret fun s hs => ⟨[], .nil, nofun, hs⟩
  | @cons k w hk hchain =>
    obtain ⟨op, hop, -⟩ := Phrase.binaryOp?_of_mem hk
    refine Proceeds.currentKind (k := k) rfl ?_
    rw [hop]
    dsimp only
    split
    · next hweak =>
      -- the operator is too weak here and is left to a caller
      refine Proceeds.ret fun s hs => ⟨k :: w, .cons hk hchain, fun op' hop' => ?_, hs⟩
      obtain rfl := Option.some.inj (hop.symm.trans hop')
      exact hweak
    · refine Proceeds.nested ?_
      refine Proceeds.advance (by rintro rfl; exact absurd hk (by decide)) fun sign => ?_
      refine (h.expr hchain hrest).bind fun second => proceeds_left fun v hlinks _ => ?_
      exact (h.operators hlinks hrest).imp fun _ _ => Left.leave

lemma suffixesAround_proceeds {f g : Form} {base : Expr} (hw : Suffixes calls f g w)
    (hbase : f.Of base) (hrest : beginsSuffix calls (.front rest) = false) :
    Proceeds (Ready depth (w ++ rest)) (suffixesAround inner calls base)
      fun e s => g.Of e ∧ Ready depth rest s := by
  cases hw with
  | nil =>
    refine Proceeds.currentKind (k := .front rest) rfl ?_
    rw [hrest]
    exact Proceeds.ret fun s hs => ⟨hbase, hs⟩
  | cons hfirst hmore =>
    obtain ⟨k, v, rfl, hk⟩ := hfirst.front
    refine Proceeds.currentKind (k := k) rfl ?_
    rw [if_pos hk, List.append_assoc]
    refine Proceeds.nested ((suffix_proceeds h hfirst hbase).bindFact fun e he => ?_)
    exact (h.suffixes hmore he hrest).imp fun _ _ hs => ⟨hs.1, hs.2.leave⟩

end Around

end LuaFront.Grammar
