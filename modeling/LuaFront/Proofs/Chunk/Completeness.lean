import LuaFront.Proofs.Chunk.Outcome

/-!
Nothing is repaired in silence. If no error is reported, then the log of the parser is empty and
every token read is valid, so that each node was closed over complete parts.
-/

namespace LuaFront.Parsed

open ParseState

namespace Outcome

variable {source : String} {read : List Token} {eof : Token} {s : ParseState}

/-- Without an error the parser ends as clean as it began. -/
lemma clean (h : Outcome source read eof s)
    (herrors : ∀ d ∈ (ofSource source).diagnostics, d.severity ≠ .error) : s.Clean := by
  constructor
  · rw [List.eq_nil_iff_forall_not_mem]
    intro d hd
    exact herrors d ((h.diagnostics d).2 (.inr hd)) (h.reached.valid.severity d hd)
  · intro t ht
    rw [h.behind, List.mem_reverse] at ht
    refine ⟨h.splits.present ht, fun hkind => ?_⟩
    obtain ⟨d, hd, herror⟩ := h.splits.error t ht hkind
    exact herrors d ((h.diagnostics d).2 (.inl hd)) herror

lemma all_complete (h : Outcome source read eof s) (hs : s.Clean) :
    (ofSource source).root.All Node.Complete := by
  have hparts := h.reached.complete hs
  refine Node.all_iff.2 ⟨⟨trivial, h.reached.good hs, ?_⟩, ?_⟩
  · exact fun t ht => (hparts _ ht).1
  · exact fun m hm => hparts _ (Node.mem_children.1 hm)

end Outcome

/-- **No silent recovery**: a text about which no error is reported has a complete tree, in which
no token is missing. -/
theorem complete_of_no_error (source : String)
    (h : ∀ d ∈ (ofSource source).diagnostics, d.severity ≠ .error) :
    (∀ n ∈ (ofSource source).root.preorder, n.Complete)
      ∧ ∀ t ∈ (ofSource source).root.tokens, t.isMissing = false := by
  obtain ⟨read, eof, s, hout⟩ := exists_outcome source
  have hcomplete := hout.all_complete (hout.clean h)
  exact ⟨hcomplete, fun t ht => Node.present_of_complete hcomplete ht⟩

theorem complete_of_no_error_function :
    let source := "local function f(a, ...) return a, \x7b 1, 2; \x7d end"
    (∀ d ∈ (ofSource source).diagnostics, d.severity ≠ .error)
      ∧ ∀ n ∈ (ofSource source).root.preorder, n.Complete := by
  intro source
  have h : ∀ d ∈ (ofSource source).diagnostics, d.severity ≠ .error := by decide +kernel
  exact ⟨h, (complete_of_no_error source h).1⟩

end LuaFront.Parsed
