import LuaFront.Proofs.Chunk.Outcome

/-!
How the nesting limit shows. The tokens from the one at which a further level was refused to the end
of the text are swallowed. The parser reports this once and nothing after it. The report is held
back like any other if the last error begins at the same offset.
-/

namespace LuaFront.Parsed

open ParseState

/-- The text ends in tokens that were swallowed. An invalid node keeps them all, and any other keeps
a single token at most. -/
structure Swallows (source : String) (swallowed : List Token) (eof : Token) : Prop where
  tokens : ∃ front, (Lexed.ofSource source).tokens = front ++ swallowed ++ [eof]
  eof_kind : eof.kind = .eof
  kept : swallowed ≠ [] → ∃ n ∈ (ofSource source).root.preorder, n.skipped = swallowed
  others : ∀ n ∈ (ofSource source).root.preorder, n.skipped.length ≤ 1 ∨ n.skipped = swallowed

namespace Outcome

variable {source : String} {read : List Token} {eof : Token} {s : ParseState}

lemma current_eq (h : Outcome source read eof s) : s.cursor.current = eof := by
  obtain ⟨-, -, -, heof, -⟩ := h.reached.reads.exists_consumed
  rw [Cursor.current, h.ahead]
  exact heof

/-- Before the first token nothing was reported. -/
lemma quiet_before : (before read eof).Quiet := by
  simp [Quiet, before, Log.empty]

lemma exists_swallowed (h : Outcome source read eof s) (hdeep : s.tooDeep = true) :
    ∃ swallowed, Swallows source swallowed eof ∧ GaveUp swallowed s.cursor s.log := by
  obtain ⟨swallowed, hkeeps, hgave⟩ := h.reached.watched.gaveUp hdeep rfl quiet_before
  obtain ⟨hkept, hothers⟩ := hkeeps.tree rfl
  refine ⟨swallowed, ⟨?_, h.splits.eof_kind, hkept, hothers⟩, hgave⟩
  obtain ⟨front, hbehind⟩ := hgave.behind
  have hread : read = front.reverse ++ swallowed := by
    rw [← List.reverse_reverse read, ← h.behind, hbehind]
    simp
  exact ⟨front.reverse, by rw [h.splits.tokens, hread]⟩

end Outcome

/-- **The nesting limit is reported once**: at the first token swallowed, and after all else. -/
theorem limit_reported (source : String) (h : (ending source).tooDeep = true) :
    ∃ swallowed eof earlier, Swallows source swallowed eof
      ∧ (∀ d ∈ earlier, d.message ≠ limitMessage)
      ∧ (ending source).log.entries
        = earlier ++ (refusal (swallowed.head?.getD eof)).added earlier := by
  obtain ⟨read, eof, hout⟩ := ending_outcome source
  obtain ⟨swallowed, hswallows, hgave⟩ := hout.exists_swallowed h
  obtain ⟨earlier, hearlier, hentries⟩ := hgave.reported
  rw [hout.current_eq] at hentries
  exact ⟨swallowed, eof, earlier, hswallows, hearlier, hentries⟩

/-- A text of 200 nested operators. -/
theorem limit_reported_nested :
    let source := "x=" ++ String.ofList (List.replicate 200 '#') ++ "1"
    (ending source).tooDeep = true
      ∧ ∃ swallowed eof, Swallows source swallowed eof
        ∧ (ending source).log.entries = [refusal (swallowed.head?.getD eof)] := by
  intro source
  obtain ⟨hdeep, hmessages⟩ : (ending source).tooDeep = true
      ∧ (ending source).log.entries.map (·.message) = [limitMessage] := by decide +kernel
  obtain ⟨swallowed, eof, earlier, hswallows, hearlier, hentries⟩ := limit_reported source hdeep
  refine ⟨hdeep, swallowed, eof, hswallows, ?_⟩
  cases earlier with
  | nil => exact hentries
  | cons d earlier =>
    rw [hentries, List.cons_append, List.map_cons, List.cons.injEq] at hmessages
    exact absurd hmessages.1 (hearlier d (by simp))

/-- A text ends after `function`. The missing parenthesis is reported at its end, where the limit
would be reported too. -/
theorem limit_not_reported :
    ¬ ∀ source, (ending source).tooDeep = true →
      (ending source).log.entries.countP (·.message = limitMessage) = 1 := by
  intro h
  let source := "x=" ++ String.ofList (List.replicate 198 '#') ++ "function"
  obtain ⟨hdeep, hnone⟩ : (ending source).tooDeep = true
      ∧ (ending source).log.entries.countP (·.message = limitMessage) = 0 := by decide +kernel
  exact absurd (h source hdeep) (by simp [hnone])

end LuaFront.Parsed
