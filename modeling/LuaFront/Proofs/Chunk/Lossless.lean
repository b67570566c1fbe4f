import LuaFront.Proofs.Chunk.Outcome

/-!
A tree keeps every token of its text, each one once and in the order of the text; what else stands
in it is missing from the text and has no width.
-/

namespace LuaFront.Parsed

open ParseState

namespace Outcome

variable {source : String} {read : List Token} {eof : Token} {s : ParseState}

/-- The tokens of the tree that are not missing are those read. -/
lemma present_eq (h : Outcome source read eof s) :
    (ofSource source).root.tokens.filter (!·.isMissing) = read := by
  obtain ⟨l, hfront, -, -, -, hkept⟩ := h.reached.reads.exists_consumed
  have hl : read = l ++ s.cursor.ahead := hfront
  rw [h.ahead, List.append_nil] at hl
  rw [Node.tokens_eq_parts_marks, hkept, ← hl, List.filter_eq_self]
  intro t ht
  simp [h.splits.present ht]

lemma mem_read (h : Outcome source read eof s) {t : Token}
    (ht : t ∈ (ofSource source).root.tokens) :
    t ∈ read ∨ ∃ kind offset, kind ≠ .eof ∧ t = .missing kind offset := by
  rw [Node.tokens_eq_parts_marks] at ht
  obtain ⟨m, hm, hmt⟩ := List.mem_filterMap.1 ht
  cases m with
  | anchor => cases hmt
  | token u =>
    cases hmt
    simpa [h.behind] using h.reached.reads.mem_behind hm

end Outcome

/-- **No token is lost**: without what is missing, the tree of a text has the tokens of the text in
their order, all but the one for its end. -/
theorem tokens_lossless (source : String) :
    ∃ eof, eof.kind = .eof
      ∧ (Lexed.ofSource source).tokens
        = (ofSource source).root.tokens.filter (!·.isMissing) ++ [eof]
      ∧ ∀ t ∈ (ofSource source).root.tokens,
        t.kind ≠ .eof ∧ (t.isMissing = true → t.span.isEmpty = true ∧ t.trivia = []) := by
  obtain ⟨read, eof, s, h⟩ := exists_outcome source
  refine ⟨eof, h.splits.eof_kind, by rw [h.present_eq, h.splits.tokens], fun t ht => ?_⟩
  rcases h.mem_read ht with hread | ⟨kind, offset, hkind, rfl⟩
  · refine ⟨h.splits.kind t hread, fun hmissing => ?_⟩
    simp [h.splits.present hread] at hmissing
  · exact ⟨hkind, fun _ => ⟨by simp [Token.missing, Span.empty, Span.isEmpty], rfl⟩⟩

theorem tokens_lossless_unfinished :
    .missing .ident 5 ∈ (ofSource "local").root.tokens
      ∧ (Token.missing .ident 5).isMissing = true
      ∧ (Token.missing .ident 5).span.isEmpty = true := by
  obtain ⟨eof, -, -, h⟩ := tokens_lossless "local"
  have hmem : .missing .ident 5 ∈ (ofSource "local").root.tokens := by decide +kernel
  have hmissing : (Token.missing .ident 5).isMissing = true := by decide
  exact ⟨hmem, hmissing, ((h _ hmem).2 hmissing).1⟩

end LuaFront.Parsed
