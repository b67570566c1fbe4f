import LuaFront.Proofs.Parser.Echoes

/-!
Runs without a report. What is known of such a run is known of its steps: each token that was
expected is there, and no level is refused.
-/

namespace LuaFront

namespace Parse

open ParseState Excerpt

variable {α β : Type} {p : Parse α} {f : α → Parse β} {s t u : ParseState} {a : α} {b : β}
  {kind : TokenKind} {token : Token}

/-- From a valid state the parser gives a result, and nothing has been reported then. -/
structure Quiet (p : Parse α) (t : ParseState) (a : α) (u : ParseState) : Prop where
  start : t.Valid
  run : p.run t = (a, u)
  log : u.log.entries = []

namespace Quiet

lemma onward (h : Quiet p t a u) [hp : Steady p] : t.Onward u := by
  have honward := hp.onward t
  rwa [h.run] at honward

lemma length_le (h : Quiet p t a u) [Steady p] :
    u.cursor.ahead.length ≤ t.cursor.ahead.length := h.onward.cursor.length_le

lemma start_log (h : Quiet p t a u) [Steady p] : t.log.entries = [] :=
  List.prefix_nil.1 (h.log ▸ h.onward.log)

lemma congr {q : Parse α} (h : Quiet p t a u) (hrun : p.run t = q.run t) : Quiet q t a u :=
  ⟨h.start, hrun ▸ h.run, h.log⟩

lemma ret {c : α} (h : Quiet (pure c) t a u) : c = a ∧ t = u := Prod.mk.inj h.run

lemma bind (h : Quiet (p >>= f) t b u) [hp : Steady p] [hf : ∀ a, Steady (f a)] :
    ∃ a v, Quiet p t a v ∧ Quiet (f a) v b u := by
  obtain ⟨⟨a, v⟩, hrun⟩ : ∃ r, p.run t = r := ⟨_, rfl⟩
  have hrest : (f a).run v = (b, u) := (run_bind hrun).symm.trans h.run
  have hfirst := hp.onward t
  have hsecond := (hf a).onward v
  rw [hrun] at hfirst
  rw [hrest] at hsecond
  exact ⟨a, v, ⟨h.start, hrun, List.prefix_nil.1 (h.log ▸ hsecond.log)⟩,
    hfirst.valid h.start, hrest, h.log⟩

/-- The rule for a step whose result is then told apart by cases. -/
lemma cases (h : Quiet (p >>= f) t b u) [Steady p] (hf : ∀ a, Steady (f a)) :
    ∃ a v, Quiet p t a v ∧ Quiet (f a) v b u := h.bind

/-! ### Tokens -/

lemma advance (h : Quiet Parse.advance t token u) :
    token = t.cursor.current ∧ u = { t with cursor := t.cursor.advance } :=
  (Prod.mk.inj h.run).imp Eq.symm Eq.symm

lemma takes {f : Option Token → Parse Token} (h : Quiet (Parse.take? kind >>= f) t token u)
    (hkind : kind ≠ .eof) (hsome : ∀ token, f (some token) = pure token)
    (hnone : ((f none).run t).2.log.entries ≠ []) :
    token.kind = kind ∧ t.cursor.ahead = token :: u.cursor.ahead ∧ token = t.cursor.current
      ∧ u = { t with cursor := t.cursor.advance } := by
  have hrun := h.run
  by_cases hfacing : t.cursor.current.kind = kind
  · rw [run_bind (run_take?_of_facing hfacing), hsome] at hrun
    obtain ⟨rfl, rfl⟩ := Prod.mk.inj hrun
    obtain ⟨rest, hahead⟩ := ahead_of_facing h.start hfacing hkind
    refine ⟨hfacing, ?_, rfl, rfl⟩
    rw [Cursor.advance_of_ahead hahead (hfacing.symm ▸ hkind), hahead]
  · rw [run_bind (run_take?_of_not_facing hfacing)] at hrun
    rw [hrun] at hnone
    exact absurd h.log hnone

/-- A token that was expected is there. -/
lemma expect (h : Quiet (Parse.expect kind) t token u) (hkind : kind ≠ .eof) :
    token.kind = kind ∧ t.cursor.ahead = token :: u.cursor.ahead ∧ token = t.cursor.current
      ∧ u = { t with cursor := t.cursor.advance } :=
  h.takes hkind (fun _ => rfl) (run_errorExpected_ne_nil fun hgave => (h.start.gaveUp hgave).2)

lemma expectClosing {opener : Token} (h : Quiet (Parse.expectClosing kind opener) t token u)
    (hkind : kind ≠ .eof) :
    token.kind = kind ∧ t.cursor.ahead = token :: u.cursor.ahead ∧ token = t.cursor.current
      ∧ u = { t with cursor := t.cursor.advance } :=
  h.takes hkind (fun _ => rfl) (run_errorExpected_ne_nil fun hgave => (h.start.gaveUp hgave).2)

/-! ### Levels -/

lemma nested {refused : List Token → Parse α} {inner : Parse α}
    [hsteady : ∀ tokens, Steady (refused tokens)] [hinner : Steady inner]
    (h : Quiet (Parse.nested refused inner) t a u) :
    ∃ v, t.depth < maxDepth ∧ Quiet inner { t with depth := t.depth + 1 } a v
      ∧ u = (leave.run v).2 := by
  have hdeep : t.tooDeep = false := by
    cases hgave : t.tooDeep with
    | false => rfl
    | true => exact absurd h.start_log (h.start.gaveUp hgave).2
  have hdepth : t.depth < maxDepth := by
    by_contra hlimit
    have hrun := h.run
    rw [run_nested_refused hdeep (Nat.not_lt.1 hlimit)] at hrun
    have hlost := told_ne_nil (fun hgave => (h.start.gaveUp hgave).2) (refusal t.cursor.current)
    have hlog := Steady.log_ne_nil (refused t.cursor.remaining)
      (s := { t with
        cursor := t.cursor.finish
        log := told t (refusal t.cursor.current)
        tooDeep := true }) hlost
    rw [hrun] at hlog
    exact hlog h.log
  have hrun := h.run
  rw [run_nested_entered hdeep hdepth] at hrun
  obtain ⟨rfl, rfl⟩ := Prod.mk.inj hrun
  exact ⟨_, hdepth, ⟨h.start.atDepth hdepth, rfl, h.log⟩, rfl⟩

end Quiet

end Parse

end LuaFront
