import LuaFront.Proofs.Parser.Statements
import LuaFront.Proofs.Parser.Steady

/-!
The loops of the parsers have a bound that each step lowers, and each step takes a token. They are
run with the number of tokens ahead as their bound; with a larger one they would do the same.
-/

namespace LuaFront

namespace Parse

open ParseState

variable {α β : Type} {depth n m : Nat} {kind : TokenKind} {s : ParseState}

lemma run_take?_of_facing (h : s.cursor.current.kind = kind) :
    (take? kind).run s = (some s.cursor.current, { s with cursor := s.cursor.advance }) := by
  have hrun : (take? kind).run s = (if decide (s.cursor.current.kind = kind)
      then some <$> advance else return none : Parse (Option Token)).run s := rfl
  rw [hrun, if_pos (decide_eq_true h)]
  rfl

lemma run_take?_of_not_facing (h : s.cursor.current.kind ≠ kind) :
    (take? kind).run s = (none, s) := by
  have hrun : (take? kind).run s = (if decide (s.cursor.current.kind = kind)
      then some <$> advance else return none : Parse (Option Token)).run s := rfl
  rw [hrun, if_neg (by simpa using h)]
  rfl

lemma ahead_lt_of_advance (hs : s.Valid) (hkind : s.cursor.current.kind ≠ .eof) :
    s.cursor.advance.ahead.length < s.cursor.ahead.length := by
  obtain ⟨rest, hahead⟩ := ahead_of_facing hs rfl hkind
  rw [Cursor.advance_of_ahead hahead hkind, hahead]
  exact Nat.lt_succ_self _

lemma current_of_done (hs : s.Valid) (h : s.cursor.ahead.length ≤ 0) :
    s.cursor.current.kind = .eof := by
  rw [Cursor.current, List.length_eq_zero_iff.1 (Nat.le_zero.1 h)]
  exact hs.eof

/-- With no more than `n` tokens ahead, two parsers do the same. -/
def Agree (depth n : Nat) (p q : Parse α) : Prop :=
  ∀ s : ParseState, s.Valid → s.depth = depth → s.cursor.ahead.length ≤ n → p.run s = q.run s

namespace Agree

variable {p q : Parse α} {step : Parse β} {f g : β → Parse α}

lemma refl (p : Parse α) : Agree depth n p p := fun _ _ _ _ => rfl

/-- The rule for a step that takes tokens. -/
lemma run_bind [hstep : Steady step] (hf : ∀ a, Agree depth m (f a) (g a)) (hs : s.Valid)
    (hdepth : s.depth = depth) (hm : (step.run s).2.cursor.ahead.length ≤ m) :
    (step >>= f).run s = (step >>= g).run s :=
  have honward := hstep.onward s
  hf _ _ (honward.valid hs) (honward.depth.trans hdepth) hm

lemma bind [hstep : Steady step] (hf : ∀ a, Agree depth n (f a) (g a)) :
    Agree depth n (step >>= f) (step >>= g) := fun s hs hdepth hn =>
  run_bind hf hs hdepth (Nat.le_trans (hstep.onward s).cursor.length_le hn)

lemma facing {f g : TokenKind → Parse α} (h : ∀ s : ParseState, s.Valid → s.depth = depth →
      s.cursor.ahead.length ≤ n →
      (f s.cursor.current.kind).run s = (g s.cursor.current.kind).run s) :
    Agree depth n (currentKind >>= f) (currentKind >>= g) := h

lemma take? {f g : Option Token → Parse α} (hkind : kind ≠ .eof) (hnone : f none = g none)
    (hsome : ∀ t, Agree depth n (f (some t)) (g (some t))) :
    Agree depth (n + 1) (Parse.take? kind >>= f) (Parse.take? kind >>= g) := by
  intro s hs hdepth hn
  by_cases hfacing : s.cursor.current.kind = kind
  · have hrun := run_take?_of_facing hfacing
    have hlt := ahead_lt_of_advance hs (hfacing ▸ hkind)
    have honward := Steady.onward (p := advance) s
    rw [Parse.run_bind hrun, Parse.run_bind hrun]
    exact hsome _ _ (honward.valid hs) hdepth (Nat.le_of_lt_succ (Nat.lt_of_lt_of_le hlt hn))
  · have hrun := run_take?_of_not_facing hfacing
    rw [Parse.run_bind hrun, Parse.run_bind hrun, hnone]

end Agree

/-- As a bound, the number of tokens ahead is enough. -/
def Ample (depth : Nat) (loop : Nat → Parse α) : Prop := ∀ n, Agree depth n (loop (n + 1)) (loop n)

namespace Ample

variable {loop : Nat → Parse α}

lemma bind (h : Ample depth loop) (f : α → Parse β) : Ample depth fun n => loop n >>= f := by
  intro n s hs hdepth hn
  rw [StateT.run_bind, StateT.run_bind, h n s hs hdepth hn]

lemma run_eq (h : Ample depth loop) (hs : s.Valid) (hdepth : s.depth = depth)
    (hn : s.cursor.ahead.length ≤ n) :
    (loop n).run s = (loop s.cursor.ahead.length).run s := by
  induction hn with
  | refl => rfl
  | step hn ih => rw [h _ s hs hdepth hn, ih]

end Ample

end Parse

namespace Grammar

open Parse ParseState

variable {α : Type} {item : Parse α} {inner : Level} {depth : Nat}

lemma moreItems_ample [Steady item] {list : Separated α} :
    Ample depth fun bound => moreItems item bound list := by
  intro n
  induction n generalizing list with
  | zero =>
    intro s hs hdepth hn
    have hkind : s.cursor.current.kind ≠ .symbol .comma := by simp [current_of_done hs hn]
    exact run_bind (run_take?_of_not_facing hkind)
  | succ n ih => exact .take? (by decide) rfl fun comma => .bind fun next => ih

lemma parameters_ample {params : Separated Param} :
    Ample depth fun bound => parameters (bound + 1) params := by
  intro n
  induction n generalizing params with
  | zero =>
    intro s hs hdepth hn
    simp only [parameters, run_currentKind, current_of_done hs hn]
  | succ n ih =>
    refine .bind fun kind => ?_
    split
    · exact .bind fun name => .take? (by decide) rfl fun comma => ih
    · exact .refl _
    · exact .refl _

lemma elseIfs_ample [inner.Steady] : Ample depth fun bound => elseIfs inner bound := by
  intro n
  induction n with
  | zero =>
    intro s hs hdepth hn
    have hkind : s.cursor.current.kind ≠ .keyword .elseif_ := by simp [current_of_done hs hn]
    exact run_bind (run_take?_of_not_facing hkind)
  | succ n ih =>
    refine .take? (by decide) rfl fun keyword => .bind fun cond => .bind fun opener => ?_
    refine .bind fun block s hs hdepth hn => ?_
    rw [StateT.run_bind, StateT.run_bind, ih s hs hdepth hn]

/-! ### Loops whose steps take a token -/

section Inner

variable (hinner : inner.Good depth)

include hinner

lemma tableField_shortens {s : ParseState} (hs : s.Valid) (hdepth : s.depth = depth)
    (hkind : (s.cursor.current.kind.canBeginExpr
      || s.cursor.current.kind = .symbol .openBracket) = true) :
    ((tableField inner).run s).2.cursor.ahead.length < s.cursor.ahead.length := by
  have hread := tableField_ensures hinner hkind s
    ⟨rfl, hdepth ▸ Reached.start hs (Nat.le_refl s.cursor.pos)⟩
  have := ahead_le hread
  omega

lemma statement_shortens {s : ParseState} (hs : s.Valid) (hdepth : s.depth = depth)
    (hkind : s.cursor.current.kind.endsBlock = false) :
    ((statement inner).run s).2.cursor.ahead.length < s.cursor.ahead.length := by
  have hread := statement_ensures hinner hkind s
    ⟨rfl, hdepth ▸ Reached.start hs (Nat.le_refl s.cursor.pos)⟩
  have := ahead_le hread
  omega

variable [inner.Steady]

lemma tableFields_ample {fields : Separated TableField} :
    Ample depth fun bound => tableFields inner bound fields := by
  intro n
  induction n generalizing fields with
  | zero =>
    refine .facing (g := fun _ => return fields) fun s hs hdepth hn => ?_
    rw [current_of_done hs hn]
    rfl
  | succ n ih =>
    refine .facing fun s hs hdepth hn => ?_
    split
    · next hkind =>
      have htaken := tableField_shortens hinner hs hdepth hkind
      refine Agree.run_bind (fun field => .bind fun next => ?_) hs hdepth
        (Nat.le_of_lt_succ (Nat.lt_of_lt_of_le htaken hn))
      split
      · exact .bind fun delimiter => ih
      · exact .bind fun delimiter => ih
      · exact .refl _
    · rfl

lemma statements_ample {afterReturn : Bool} :
    Ample depth fun bound => statements inner bound afterReturn := by
  intro n
  induction n generalizing afterReturn with
  | zero =>
    refine .facing (g := fun _ => return []) fun s hs hdepth hn => ?_
    rw [current_of_done hs hn]
    rfl
  | succ n ih =>
    refine .facing fun s hs hdepth hn => ?_
    split
    · rfl
    · next hkind =>
      have htaken := statement_shortens hinner hs hdepth (by simpa using hkind)
      refine Agree.run_bind (fun a => .bind fun _ s hs hdepth hn => ?_) hs hdepth
        (Nat.le_of_lt_succ (Nat.lt_of_lt_of_le htaken hn))
      rw [StateT.run_bind, StateT.run_bind, ih s hs hdepth hn]

end Inner

end Grammar

end LuaFront
