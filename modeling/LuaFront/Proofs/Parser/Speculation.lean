import LuaFront.Proofs.Parser.Echoes

/-!
Values that are no values. After the equals sign of an assignment without values the targets of the
next assignment are read as values, up to its equals sign. Thereby the parser is one level deeper
than where it reads them as targets, so that it may meet the nesting limit; otherwise it gets as
far, and goes back.
-/

namespace LuaFront

namespace Excerpt

open ParseState

/-- The part is read one level further in. -/
def inside (x : Excerpt) (h : x.limited) : Excerpt :=
  { x with
    gap := x.gap + 1
    deeper := fun _ => h }

variable {x : Excerpt} {depth : Nat} {s t : ParseState} {h : x.limited}

lemma Echo.inward (hecho : x.Echo depth s t) (hs : s.depth < maxDepth) :
    (x.inside h).Echo depth { s with depth := s.depth + 1 } t :=
  { hecho with
    whole := hecho.whole.atDepth hs
    depth_whole := by rw [hecho.depth_whole]; rfl }

lemma Echo.outward (hecho : (x.inside h).Echo depth s t) :
    x.Echo depth (Parse.leave.run s).2 t :=
  { hecho with
    whole := hecho.whole.outward
    depth_whole := by
      have hdepth : s.depth = depth + (x.gap + 1) := hecho.depth_whole
      exact Nat.sub_eq_of_eq_add hdepth }

end Excerpt

namespace Grammar

open Parse ParseState Excerpt TokenKind

variable {x : Excerpt} {depth : Nat} {s t : ParseState} {l outer inner : Level}

/-! ### One target -/

/-- The kind begins a target, or what the lexer has reported. -/
def beginsTarget : TokenKind → Bool
  | .ident | .symbol .openParen | .invalid => true
  | _ => false

lemma run_operand_target (h : beginsTarget s.cursor.current.kind = true) :
    (operand l).run s = (suffixed l true).run s := by
  have hunary : s.cursor.current.kind.unaryOp? = none := by
    unfold beginsTarget at h
    split at h
    iterate 3 next hkind => rw [hkind]; rfl
    cases h
  rw [operand, run_currentKind, hunary]
  dsimp only
  rw [simpleExpr, run_currentKind]
  split <;> first | rfl | simp_all [beginsTarget]

/-- Where no target begins, that is reported. -/
lemma run_suffixed_report [l.Steady] {calls : Bool} (hs : s.Valid)
    (h : beginsTarget s.cursor.current.kind = false) :
    ((suffixed l calls).run s).2.log.entries ≠ [] := by
  rw [suffixed, primary, bind_assoc, run_currentKind]
  split
  iterate 3 simp_all [beginsTarget]
  rw [missingExpr, bind_assoc]
  exact run_errorExpected_ne_nil fun hgave => (hs.gaveUp hgave).2

lemma operand_echoes_target [outer.Steady] [inner.Steady] (h : outer.Echoes x depth inner) :
    Parse.Echoes x depth Anywhere x.move.expr (operand outer) (suffixed inner true) := by
  intro s t hecho _
  cases hkind : beginsTarget t.cursor.current.kind with
  | false => exact .inr (.inl (.reported (run_suffixed_report hecho.part hkind)))
  | true =>
    have hsame : s.cursor.current.kind = t.cursor.current.kind :=
      hecho.kind_eq fun heof => by rw [heof] at hkind; cases hkind
    rw [run_operand_target (hsame ▸ hkind)]
    exact suffixed_echoes h s t hecho trivial

lemma run_operators_none {k power : Nat} {first : Expr}
    (h : s.cursor.current.kind.binaryOp? = none) :
    ((level k).operators power first).run s = (first, s) := by
  cases k with
  | zero => rfl
  | succ k =>
    have hrun : ((level (k + 1)).operators power first).run s
        = (operatorsAround (level k) power first).run s := rfl
    rw [hrun, operatorsAround, run_currentKind, h]
    rfl

section Items

variable {α : Type} {item : Parse α} {bound : Nat} {list : Separated α}

lemma run_moreItems_stop
    (h : s.cursor.current.kind ≠ .symbol .comma) :
    (moreItems item bound list).run s = (list, s) := by
  cases bound with
  | zero => rfl
  | succ bound =>
    rw [moreItems, run_bind (run_take?_of_not_facing h)]
    rfl

lemma run_moreItems_comma (h : s.cursor.current.kind = .symbol .comma) :
    (moreItems item (bound + 1) list).run s
      = (moreItems item bound ((list.delimit s.cursor.current).push
          (item.run (advance.run s).2).1)).run (item.run (advance.run s).2).2 := by
  rw [moreItems, run_bind (run_take?_of_facing h)]
  rfl

/-- Where the items are followed by an equals sign, each is followed by that or by a comma. -/
lemma facing_of_moreItems
    (h : ((moreItems item bound list).run s).2.cursor.current.kind = .symbol .eq) :
    s.cursor.current.kind = .symbol .comma ∨ s.cursor.current.kind = .symbol .eq := by
  by_cases hcomma : s.cursor.current.kind = .symbol .comma
  · exact .inl hcomma
  · rw [run_moreItems_stop hcomma] at h
    exact .inr h

end Items

/-! ### Targets as values -/

/-- Where a target is before a comma or an equals sign, and nothing is reported, an expression in
the whole gets as far as the target in the part, or meets the nesting limit. -/
def Tried (x : Excerpt) (depth : Nat) (value target : Parse Expr) : Prop :=
  ∀ s t, x.Echo depth s t → (target.run t).2.log.entries = [] →
    (target.run t).2.cursor.current.kind.binaryOp? = none →
    x.Gave (value.run s).2 ∨ x.Echo depth (value.run s).2 (target.run t).2

lemma expression_tried {k : Nat} (hk : depth + (x.gap + 1) + k = maxDepth + 1)
    (hlimited : x.limited) (hclose : x.close = []) :
    Tried x depth (level (k + 1)).expression (suffixed (level (k + (x.gap + 1))) true) := by
  intro s t hecho hlog hnext
  have hrun : (level (k + 1)).expression.run s
      = (nested (cutOff none) (operand (level k) >>= (level k).operators 0)).run s := rfl
  rw [hrun]
  by_cases hdepth : maxDepth ≤ s.depth
  · rw [run_nested_refused hecho.tooDeep hdepth]
    exact .inl ((hecho.refused hlimited).onward (cutOff_steady.onward _))
  have hdepth := Nat.lt_of_not_le hdepth
  have hinside := operand_echoes_target (x := x.inside hlimited) (level_echoes hk) _ _
    (hecho.inward hdepth) trivial
  obtain ⟨r, hr⟩ : ∃ r, (operand (level k)).run { s with depth := s.depth + 1 } = r := ⟨_, rfl⟩
  rw [run_nested_entered hecho.tooDeep hdepth, run_bind hr]
  rw [hr] at hinside
  rcases hinside with hgave | hlost | ⟨-, hecho'⟩
  · have hgave' := hgave.onward (((level_steady (k := k)).operators 0 r.1).onward r.2)
    exact .inl ⟨hlimited, hgave'.tooDeep, hgave'.reported⟩
  · rcases hlost with hreported | hpassed
    · exact absurd hlog hreported
    · have hnone : (x.inside hlimited).close = [] := hclose
      exact absurd hpassed (by simp [hnone])
  · have hsettled : Settled binaryOp? := by constructor <;> rfl
    rw [run_operators_none ((hsettled.alike hecho'.alike).trans hnext)]
    exact .inr hecho'.outward

section Tried

variable {value target : Parse Expr} [Steady value] [Steady target] {anchor : Expr → Offset}

lemma moreItems_tried (h : Tried x depth value target) (hclose : x.close = []) {bound : Nat}
    {list list' : Separated Expr} (hecho : x.Echo depth s t)
    (hlog : ((moreItems target bound list').run t).2.log.entries = [])
    (hsign : ((moreItems target bound list').run t).2.cursor.current.kind = .symbol .eq) :
    x.Gave ((moreItems value bound list).run s).2
      ∨ x.Echo depth ((moreItems value bound list).run s).2
        ((moreItems target bound list').run t).2 := by
  induction bound generalizing s t list list' with
  | zero => exact .inr hecho
  | succ bound ih =>
    by_cases hcomma : t.cursor.current.kind = .symbol .comma
    · have hcomma' := (hecho.kind_eq (by rw [hcomma]; decide)).trans hcomma
      obtain ⟨-, hecho'⟩ := (Echoes.run_advance (by decide) hecho hcomma).resolve_left
        fun hlost => hlost.rec (fun hreported => hreported hecho.log_part) (by simp [hclose])
      rw [run_moreItems_comma hcomma] at hlog hsign ⊢
      rw [run_moreItems_comma hcomma']
      obtain ⟨r, hr⟩ : ∃ r, target.run (advance.run t).2 = r := ⟨_, rfl⟩
      rw [hr] at hlog hsign ⊢
      have hnone : r.2.log.entries = [] :=
        List.prefix_nil.1 (hlog ▸ (moreItems_steady.onward r.2).log)
      have hnext : r.2.cursor.current.kind.binaryOp? = none := by
        rcases facing_of_moreItems hsign with hnext | hnext <;> rw [hnext] <;> rfl
      rcases h _ _ hecho' (hr ▸ hnone) (hr ▸ hnext) with hgave | hecho''
      · exact .inl (hgave.onward (moreItems_steady.onward _))
      · exact ih (hr ▸ hecho'') hlog hsign
    · have hsign' := run_moreItems_stop hcomma ▸ hsign
      have hsame := (hecho.kind_eq (by rw [hsign']; decide)).trans hsign'
      rw [run_moreItems_stop hcomma, run_moreItems_stop (by rw [hsame]; decide)]
      exact .inr hecho

lemma commaList_tried (h : Tried x depth value target) (hclose : x.close = [])
    (hecho : x.Echo depth s t)
    (hlog : ((target >>= fun e => itemsAfter target (anchor e) e).run t).2.log.entries = [])
    (hsign : ((target >>= fun e => itemsAfter target (anchor e) e).run t).2.cursor.current.kind
      = .symbol .eq) :
    x.Gave ((commaList value).run s).2
      ∨ x.Echo depth ((commaList value).run s).2
        ((target >>= fun e => itemsAfter target (anchor e) e).run t).2 := by
  obtain ⟨r, hr⟩ : ∃ r, target.run t = r := ⟨_, rfl⟩
  obtain ⟨v, hv⟩ : ∃ v, value.run s = v := ⟨_, rfl⟩
  have hrun : (commaList value).run s
      = (itemsAfter value s.cursor.lastStop v.1).run v.2 :=
    run_bind (f := itemsAfter value s.cursor.lastStop) hv
  rw [run_bind hr] at hlog hsign ⊢
  rw [hrun]
  have hnone : r.2.log.entries = [] :=
    List.prefix_nil.1 (hlog ▸ (itemsAfter_steady.onward r.2).log)
  have hnext : r.2.cursor.current.kind.binaryOp? = none := by
    rcases facing_of_moreItems hsign with hnext | hnext <;> rw [hnext] <;> rfl
  rcases h s t hecho (hr ▸ hnone) (hr ▸ hnext) with hgave | hecho'
  · exact .inl (hv ▸ hgave.onward (itemsAfter_steady.onward _))
  rw [hr, hv] at hecho'
  -- The bounds of both loops may differ, but both are ample.
  have hbound : (itemsAfter target (anchor r.1) r.1).run r.2
      = (moreItems target v.2.cursor.ahead.length
        ((Separated.empty (anchor r.1)).push r.1)).run r.2 :=
    (moreItems_ample.run_eq hecho'.part hecho'.depth_part (hecho'.length_le hclose)).symm
  rw [hbound] at hlog hsign ⊢
  exact moreItems_tried h hclose hecho' hlog hsign

end Tried

/-- **Where an assignment has no values,** and the targets of another one come after its equals
sign, the parser goes back and reports it, unless it meets the nesting limit. -/
theorem run_assignedValues_tried {l : Level} [l.Steady] {target : Parse Expr} [Steady target]
    {anchor : Expr → Offset} {eq : Token} (h : Tried x depth l.expression target)
    (hclose : x.close = []) (hecho : x.Echo depth s t)
    (hlog : ((target >>= fun e => itemsAfter target (anchor e) e).run t).2.log.entries = [])
    (hsign : ((target >>= fun e => itemsAfter target (anchor e) e).run t).2.cursor.current.kind
      = .symbol .eq)
    (heq : eq.isMissing = false)
    (hlimit : ∀ d ∈ ((assignedValues l eq).run s).2.log.entries, d.message ≠ limitMessage) :
    (assignedValues l eq).run s = (noValues eq.span.stop,
      { s with
        log := told s (.error (.empty eq.span.stop) "expected expression after '='" []) }) := by
  rw [run_assignedValues] at hlimit ⊢
  rcases commaList_tried h hclose hecho hlog hsign with hgave | hecho'
  · have hgave : x.Gave (l.exprList.run s).2 := hgave
    have hend := (((exprList_steady.onward s).valid hecho.whole).gaveUp hgave.tooDeep).1
    rw [if_neg (by simp [hend])] at hlimit
    obtain ⟨d, hd, hmessage⟩ := hgave.reported
    exact absurd hmessage (hlimit d hd)
  · have hecho' : x.Echo depth (l.exprList.run s).2 _ := hecho'
    have hfacing := (hecho'.kind_eq (by rw [hsign]; decide)).trans hsign
    rw [if_pos ⟨hfacing, heq⟩, hecho'.tooDeep, ← hecho.tooDeep, run_bind (run_error_eq ..)]
    rfl

end Grammar

end LuaFront
