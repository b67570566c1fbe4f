import LuaFront.Proofs.Chunk.Outcome

/-!
Spans of the nodes of a parsed text. The marks of its tree are laid out in the text, and so are
those of every node in it.
-/

namespace LuaFront.Parsed

open ParseState

namespace Outcome

variable {source : String} {read : List Token} {eof : Token} {s : ParseState}

/-- The last token read ends within the text. -/
lemma lastStop_le (h : Outcome source read eof s) :
    s.cursor.lastStop ≤ Text.byteSize source.toList := by
  rcases hback : s.cursor.behind with _ | ⟨t, rest⟩
  · simp [Cursor.lastStop, hback]
  · have ht : t ∈ read := by
      rw [← List.mem_reverse, ← h.behind, hback]
      exact List.mem_cons_self
    simpa [Cursor.lastStop, hback] using h.splits.stop_le ht

lemma laid_parts (h : Outcome source read eof s) :
    Laid 0 ((ofSource source).root.parts.flatMap Part.marks) s.cursor.lastStop := by
  obtain ⟨stop, hlaid, -⟩ := h.splits.laid
  exact (h.reached.reads.laid ⟨stop, hlaid⟩).1

/-- A text without statements has no tokens but the one for its end. -/
lemma read_eq_nil (h : Outcome source read eof s) (hparts : (ofSource source).root.parts = []) :
    read = [] := by
  have hreads := h.reached.reads
  rw [hparts] at hreads
  have hcursor : s.cursor.ahead = read := by
    rw [hreads.eq_of_nil]
    rfl
  rw [← hcursor, h.ahead]

lemma laid_root (h : Outcome source read eof s) :
    ∃ start stop, Laid start (ofSource source).root.marks stop
      ∧ stop ≤ Text.byteSize source.toList := by
  by_cases hparts : (ofSource source).root.parts = []
  · refine ⟨Text.byteSize source.toList, Text.byteSize source.toList, ?_, Nat.le_refl _⟩
    rw [Node.marks_of_no_parts hparts, h.anchor, h.read_eq_nil hparts]
    exact ⟨by simp [h.splits.eof_span, Span.empty], rfl⟩
  · refine ⟨0, _, ?_, h.lastStop_le⟩
    rw [Node.marks_of_parts hparts]
    exact h.laid_parts

/-- The tree begins where the first token does and ends where the last one does. -/
lemma span_root (h : Outcome source read eof s) {first last : Token}
    (hfirst : read.head? = some first) (hlast : read.getLast? = some last) :
    (ofSource source).root.span = ⟨first.span.start, last.span.stop⟩ := by
  have hparts : (ofSource source).root.parts ≠ [] := by
    intro hparts
    simp [h.read_eq_nil hparts] at hfirst
  have hmarks := Node.marks_of_parts hparts
  have hstop : s.cursor.lastStop = last.span.stop := by
    obtain ⟨rest, hread⟩ := List.getLast?_eq_some_iff.1 hlast
    simp [Cursor.lastStop, h.behind, hread]
  have hhead : (ofSource source).root.marks.head? = some (.token first) := by
    have hhead := h.reached.reads.head?_eq rfl (hmarks ▸ Node.marks_ne_nil _)
    rw [hmarks, hhead]
    simp [before, hfirst]
  have hplaced := Node.placed (hmarks ▸ h.laid_parts)
  have hspan : (ofSource source).root.span.stop = s.cursor.lastStop := hplaced.stop_eq
  rw [← hstop, ← hspan, ← Node.start_eq_of_head? hhead]

end Outcome

/-- **The spans of a tree nest and follow each other**: this holds of every node of every text, and
the tree runs from the first token of the text to the last. -/
theorem spans_nested (source : String) :
    (∀ n ∈ (ofSource source).root.preorder, n.Spanned (Text.byteSize source.toList))
      ∧ ∀ first last, ((Lexed.ofSource source).tokens.filter (·.kind ≠ .eof)).head? = some first →
        ((Lexed.ofSource source).tokens.filter (·.kind ≠ .eof)).getLast? = some last →
        (ofSource source).root.span = ⟨first.span.start, last.span.stop⟩ := by
  obtain ⟨read, eof, s, h⟩ := exists_outcome source
  constructor
  · intro n hn
    obtain ⟨start, stop, hlaid, hstop⟩ := h.laid_root
    obtain ⟨lo, hi, -, hn, hhi⟩ := hlaid.of_infix (Node.marks_infix_of_mem_preorder hn)
    exact Node.spanned_of_laid hn (Nat.le_trans hhi hstop)
  · intro first last hfirst hlast
    have hread : (Lexed.ofSource source).tokens.filter (·.kind ≠ .eof) = read := by
      rw [h.splits.tokens, List.filter_append, List.filter_eq_self.2 fun t ht => by
        simpa using h.splits.kind t ht]
      simp [h.splits.eof_kind]
    rw [hread] at hfirst hlast
    exact h.span_root hfirst hlast

theorem spans_nested_unclosed :
    (ofSource "f(").root ∈ (ofSource "f(").root.preorder
      ∧ (ofSource "f(").root.Spanned (Text.byteSize "f(".toList)
      ∧ ((Lexed.ofSource "f(").tokens.filter (·.kind ≠ .eof)).head?
        = some ⟨.ident, "f", ⟨0, 1⟩, []⟩
      ∧ ((Lexed.ofSource "f(").tokens.filter (·.kind ≠ .eof)).getLast?
        = some ⟨.symbol .openParen, "(", ⟨1, 2⟩, []⟩
      ∧ (ofSource "f(").root.span = ⟨0, 2⟩ := by
  have hroot := (ofSource "f(").root.self_mem_preorder
  have hfirst : ((Lexed.ofSource "f(").tokens.filter (·.kind ≠ .eof)).head?
      = some ⟨.ident, "f", ⟨0, 1⟩, []⟩ := by decide +kernel
  have hlast : ((Lexed.ofSource "f(").tokens.filter (·.kind ≠ .eof)).getLast?
      = some ⟨.symbol .openParen, "(", ⟨1, 2⟩, []⟩ := by decide +kernel
  exact ⟨hroot, (spans_nested "f(").1 _ hroot, hfirst, hlast,
    (spans_nested "f(").2 _ _ hfirst hlast⟩

end LuaFront.Parsed
