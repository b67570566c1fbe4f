import LuaFront.Proofs.Parser.Limit

/-!
What the steps of a parser do to its state, as equations.
-/

namespace LuaFront

namespace Parse

open ParseState

variable {α β : Type}

lemma run_bind {p : Parse α} {f : α → Parse β} {s s' : ParseState} {a : α}
    (h : p.run s = (a, s')) : (p >>= f).run s = (f a).run s' := by
  rw [StateT.run_bind, h]
  rfl

lemma run_currentKind {f : TokenKind → Parse α} {s : ParseState} :
    (currentKind >>= f).run s = (f s.cursor.current.kind).run s := rfl

lemma run_nextKind {f : TokenKind → Parse α} {s : ParseState} :
    (nextKind >>= f).run s = (f s.cursor.next.kind).run s := rfl

lemma run_atKind {kind : TokenKind} {f : Bool → Parse α} {s : ParseState} :
    (atKind kind >>= f).run s = (f (decide (s.cursor.current.kind = kind))).run s := rfl

lemma run_lastStop {f : Offset → Parse α} {s : ParseState} :
    (lastStop >>= f).run s = (f s.cursor.lastStop).run s := rfl

lemma run_remaining {f : Nat → Parse α} {s : ParseState} :
    (remaining >>= f).run s = (f s.cursor.ahead.length).run s := rfl

lemma run_advance (s : ParseState) :
    advance.run s = (s.cursor.current, { s with cursor := s.cursor.advance }) := rfl

/-! ### Errors -/

/-- The log after an error, which may be held back. -/
def told (s : ParseState) (d : Diagnostic) : Log :=
  if s.tooDeep || s.log.entries.getLast?.any (·.span.start = d.span.start) then s.log
  else s.log.push d

lemma run_error_eq (s : ParseState) (span : Span) (message : String) (labels : List Label) :
    (error span message labels).run s
      = ((), { s with log := told s (.error span message labels) }) := by
  have hrun : (error span message labels).run s
      = ((), if s.tooDeep || s.log.entries.getLast?.any (·.span.start = span.start) then s
        else { s with log := s.log.error span message labels }) := rfl
  have htold : told s (.error span message labels)
      = if s.tooDeep || s.log.entries.getLast?.any (·.span.start = span.start) then s.log
        else s.log.error span message labels := rfl
  rw [hrun, htold]
  split <;> rfl

/-- Once the parser gave up, nothing is reported. -/
lemma told_of_gaveUp {s : ParseState} (h : s.tooDeep = true) (d : Diagnostic) :
    told s d = s.log := by
  simp [told, h]

lemma told_added {s : ParseState} (h : s.tooDeep = false) (d : Diagnostic) :
    (told s d).entries = s.log.entries ++ d.added s.log.entries := by
  simp only [told, h, Bool.false_or, Diagnostic.added]
  split
  · rw [List.append_nil]
  · rfl

lemma told_first {s : ParseState} (h : s.tooDeep = false) (hlog : s.log.entries = [])
    (d : Diagnostic) : (told s d).entries = [d] := by
  rw [told_added h, hlog]
  rfl

/-- An error is held back where another one was reported before. -/
lemma told_ne_nil {s : ParseState} (h : s.tooDeep = true → s.log.entries ≠ []) (d : Diagnostic) :
    (told s d).entries ≠ [] := by
  unfold told
  split
  · next hsilent =>
    intro hlog
    rw [hlog, List.getLast?_nil, Option.any_none, Bool.or_false] at hsilent
    exact h hsilent hlog
  · simp [Log.push]

lemma told_onward (s : ParseState) (d : Diagnostic) : s.log.entries <+: (told s d).entries := by
  unfold told
  split
  · exact List.prefix_refl _
  · exact List.prefix_append _ _

lemma mem_told {s : ParseState} {d e : Diagnostic} (h : e ∈ (told s d).entries) :
    e ∈ s.log.entries ∨ e = d := by
  unfold told at h
  split at h
  · exact .inl h
  · simpa [Log.push] using h

/-! ### Levels -/

lemma run_enter_gaveUp {s : ParseState} (h : s.tooDeep = true) : enter.run s = (some [], s) := by
  simp [enter, h]
  rfl

lemma run_enter_refused {s : ParseState} (h : s.tooDeep = false) (hdepth : maxDepth ≤ s.depth) :
    enter.run s = (do
      error s.cursor.current.span "chunk has too many syntax levels" []
      return some (← giveUp) : Parse (Option (List Token))).run s := by
  simp [enter, h, hdepth]

lemma run_enter_giveUp {s : ParseState} (h : s.tooDeep = false) (hdepth : maxDepth ≤ s.depth) :
    enter.run s = (some s.cursor.remaining, { s with
      cursor := s.cursor.finish
      log := told s (refusal s.cursor.current)
      tooDeep := true }) := by
  rw [run_enter_refused h hdepth, run_bind (run_error_eq ..)]
  rfl

lemma run_enter_entered {s : ParseState} (h : s.tooDeep = false) (hdepth : s.depth < maxDepth) :
    enter.run s = (none, { s with depth := s.depth + 1 }) := by
  simp [enter, h, Nat.not_le.2 hdepth]
  rfl

/-- Either tokens are given up, on the same level, or a level is entered, within the limit. -/
lemma enter_cases (s : ParseState) :
    (∃ tokens s', enter.run s = (some tokens, s') ∧ s'.depth = s.depth ∧ s'.tooDeep = true)
      ∨ s.tooDeep = false ∧ s.depth < maxDepth
        ∧ enter.run s = (none, { s with depth := s.depth + 1 }) := by
  by_cases hdeep : s.tooDeep = true
  · exact .inl ⟨[], s, run_enter_gaveUp hdeep, rfl, hdeep⟩
  · have hdeep := Bool.eq_false_iff.2 hdeep
    by_cases hdepth : maxDepth ≤ s.depth
    · exact .inl ⟨_, _, run_enter_giveUp hdeep hdepth, rfl, rfl⟩
    · have hdepth := Nat.not_le.1 hdepth
      exact .inr ⟨hdeep, hdepth, run_enter_entered hdeep hdepth⟩

lemma enter_eq_none {s : ParseState} (h : (enter.run s).1 = none) :
    s.tooDeep = false ∧ s.depth < maxDepth
      ∧ (enter.run s).2 = { s with depth := s.depth + 1 } := by
  rcases enter_cases s with ⟨tokens, s', henter, -⟩ | ⟨hdeep, hdepth, henter⟩
  · rw [henter] at h
    cases h
  · exact ⟨hdeep, hdepth, congrArg Prod.snd henter⟩

variable {refused : List Token → Parse α} {inner : Parse α} {s : ParseState}

lemma run_nested_some {s' : ParseState} {tokens : List Token}
    (h : enter.run s = (some tokens, s')) :
    (nested refused inner).run s = (refused tokens).run s' := run_bind h

lemma run_nested_none {s' : ParseState} (h : enter.run s = (none, s')) :
    (nested refused inner).run s
      = ((inner.run s').1, (leave.run (inner.run s').2).2) := run_bind h

lemma run_nested_gaveUp (h : s.tooDeep = true) :
    (nested refused inner).run s = (refused []).run s := run_nested_some (run_enter_gaveUp h)

lemma run_nested_refused (h : s.tooDeep = false) (hdepth : maxDepth ≤ s.depth) :
    (nested refused inner).run s = (refused s.cursor.remaining).run
      { s with
        cursor := s.cursor.finish
        log := told s (refusal s.cursor.current)
        tooDeep := true } := run_nested_some (run_enter_giveUp h hdepth)

lemma run_nested_entered (h : s.tooDeep = false) (hdepth : s.depth < maxDepth) :
    (nested refused inner).run s
      = ((inner.run { s with depth := s.depth + 1 }).1,
        (leave.run (inner.run { s with depth := s.depth + 1 }).2).2) :=
  run_nested_none (run_enter_entered h hdepth)

/-- A level is entered, or what is made of the tokens given up stands in for it. -/
lemma nested_cases {post : α → ParseState → Prop}
    (hrefused : ∀ tokens s', s'.depth = s.depth → s'.tooDeep = true →
      post ((refused tokens).run s').1 ((refused tokens).run s').2)
    (hinner : s.tooDeep = false → s.depth < maxDepth →
      post (inner.run { s with depth := s.depth + 1 }).1
        (leave.run (inner.run { s with depth := s.depth + 1 }).2).2) :
    post ((nested refused inner).run s).1 ((nested refused inner).run s).2 := by
  rcases enter_cases s with ⟨tokens, s', henter, hdepth, hdeep⟩ | ⟨hdeep, hdepth, henter⟩
  · rw [run_nested_some henter]
    exact hrefused tokens s' hdepth hdeep
  · rw [run_nested_none henter]
    exact hinner hdeep hdepth

end Parse

end LuaFront
