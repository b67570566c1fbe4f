import LuaFront.Proofs.Parser.Speculation

/-!
At the end of input. There nothing is left to read: tokens that close something are missing, lists
do not go on, and an expression that is wanted is an invalid one.
-/

namespace LuaFront

namespace ParseState

/-- Nothing is left to read. -/
structure Ended (s : ParseState) : Prop where
  valid : s.Valid
  eof : s.cursor.current.kind = .eof

/-- From the first state to the second nothing is read, and no report is taken back. -/
structure Idle (s s' : ParseState) : Prop where
  ended : s'.Ended
  cursor : s'.cursor = s.cursor
  log : s.log.entries <+: s'.log.entries

variable {s s' s'' : ParseState}

lemma Ended.refl (h : s.Ended) : s.Idle s := ⟨h, rfl, List.prefix_refl _⟩

lemma Idle.trans (h : s.Idle s') (h' : s'.Idle s'') : s.Idle s'' :=
  ⟨h'.ended, h'.cursor.trans h.cursor, h.log.trans h'.log⟩

lemma Ended.idle (h : s.Ended) (hwalk : s.Walk s') : s.Idle s' := by
  have hcursor := hwalk.cursor_eq h.valid h.eof
  exact ⟨⟨hwalk.onward.valid h.valid, hcursor.symm ▸ h.eof⟩, hcursor, hwalk.onward.log⟩

lemma Ended.leave (h : s.Ended) : s.Idle (Parse.leave.run s).2 :=
  ⟨⟨h.valid.outward, h.eof⟩, rfl, List.prefix_refl _⟩

lemma Ended.run {α : Type} (h : s.Ended) (p : Parse α) [hp : Parse.Steady p] :
    s.Idle (p.run s).2 := h.idle (hp.walk s)

end ParseState

namespace Parse

open ParseState

variable {s : ParseState} {kind : TokenKind}

lemma run_take?_ended (h : s.Ended) (hkind : kind ≠ .eof) : (take? kind).run s = (none, s) :=
  run_take?_of_not_facing fun heq => hkind (heq.symm.trans h.eof)

/-- What closes something is missing there. -/
lemma run_expectClosing_ended (h : s.Ended) (hkind : kind ≠ .eof) (opener : Token) :
    ((expectClosing kind opener).run s).1 = .missing kind s.cursor.lastStop := by
  rw [expectClosing, run_bind (run_take?_ended h hkind)]
  have hreport := h.run (errorExpected kind.describe (unclosed opener))
  have hrun : ((do
      errorExpected kind.describe (unclosed opener)
      return Token.missing kind (← lastStop) : Parse Token).run s).1
      = .missing kind ((errorExpected kind.describe (unclosed opener)).run s).2.cursor.lastStop :=
    rfl
  rw [hrun, hreport.cursor]

lemma isMissing_ended (h : s.Ended) (hkind : kind ≠ .eof) {opener : Token} :
    ((expectClosing kind opener).run s).1.isMissing = true := by
  rw [run_expectClosing_ended h hkind]
  exact Token.isMissing_missing hkind

end Parse

namespace Grammar

open Parse ParseState

variable {s : ParseState} {k : Nat} {inner : Level}

lemma run_suffixes_none {calls : Bool} {base : Expr}
    (h : beginsSuffix calls s.cursor.current.kind = false) :
    ((level k).suffixes calls base).run s = (base, s) := by
  cases k with
  | zero => rfl
  | succ k =>
    have hrun : ((level (k + 1)).suffixes calls base).run s
        = (suffixesAround (level k) calls base).run s := rfl
    rw [hrun, suffixesAround, run_currentKind, h]
    rfl

lemma run_suffixes_ended (h : s.Ended) (calls : Bool) (base : Expr) :
    ((level k).suffixes calls base).run s = (base, s) :=
  run_suffixes_none (by rw [h.eof]; rfl)

lemma run_operators_ended (h : s.Ended) (power : Nat) (first : Expr) :
    ((level k).operators power first).run s = (first, s) :=
  run_operators_none (by rw [h.eof]; rfl)

lemma run_moreItems_ended {α : Type} {item : Parse α} {bound : Nat} {list : Separated α}
    (h : s.Ended) : (moreItems item bound list).run s = (list, s) :=
  run_moreItems_stop (by rw [h.eof]; decide)

lemma run_elseIfs_ended (h : s.Ended) (bound : Nat) : (elseIfs inner bound).run s = ([], s) := by
  cases bound with
  | zero => rfl
  | succ bound => exact run_bind (run_take?_ended h (by decide))

lemma run_else_ended (h : s.Ended) : (else_ inner).run s = (none, s) :=
  run_bind (run_take?_ended h (by decide))

lemma run_missingExpr_ended (h : s.Ended) :
    ∃ anchor, (missingExpr.run s).1 = .invalid none [] anchor := by
  have hreport := h.run (errorExpected "expression" [])
  obtain ⟨s', hs'⟩ : ∃ s', (errorExpected "expression" []).run s = ((), s') := ⟨_, rfl⟩
  rw [hs'] at hreport
  have hrun : missingExpr.run s = (if s'.cursor.current.kind.isAwaited
      then return .invalid none [] s'.cursor.lastStop
      else return .invalid none [← advance] s'.cursor.lastStop : Parse Expr).run s' := by
    rw [missingExpr, run_bind hs']
    rfl
  rw [hrun, hreport.ended.eof]
  exact ⟨_, rfl⟩

/-- An expression that is wanted there is an invalid one. -/
lemma run_expression_ended (h : s.Ended) :
    ∃ skipped anchor, ((level k).expression.run s).1 = .invalid none skipped anchor := by
  cases k with
  | zero => exact ⟨_, _, rfl⟩
  | succ k =>
    have hrun : (level (k + 1)).expression.run s
        = (nested (cutOff none) (operand (level k) >>= (level k).operators 0)).run s := rfl
    rw [hrun]
    refine @nested_cases _ _ _ s
      (fun (e : Expr) _ => ∃ skipped anchor, e = .invalid none skipped anchor)
      (fun tokens s' _ _ => ⟨tokens, s'.cursor.lastStop, rfl⟩) fun _ hdepth => ?_
    have hinside : { s with depth := s.depth + 1 : ParseState }.Ended :=
      ⟨h.valid.atDepth hdepth, h.eof⟩
    generalize { s with depth := s.depth + 1 : ParseState } = s' at hinside ⊢
    obtain ⟨anchor, hmissing⟩ := run_missingExpr_ended hinside
    have hoperand : (operand (level k)).run s' = missingExpr.run s' := by
      have hsuffixes := run_suffixes_ended (k := k) (hinside.run missingExpr).ended true
        (missingExpr.run s').1
      rw [operand, run_currentKind, hinside.eof]
      change (simpleExpr (level k)).run s' = _
      rw [simpleExpr, run_currentKind, hinside.eof]
      change (suffixed (level k) true).run s' = _
      rw [suffixed, primary, bind_assoc, run_currentKind, hinside.eof]
      exact hsuffixes
    refine ⟨[], anchor, ?_⟩
    rw [← hmissing, StateT.run_bind, hoperand]
    exact congrArg Prod.fst
      (run_operators_ended (k := k) (hinside.run missingExpr).ended 0 (missingExpr.run s').1)

end Grammar

end LuaFront
