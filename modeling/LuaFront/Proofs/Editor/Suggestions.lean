import LuaFront.Editor.Suggestion
import LuaFront.Proofs.Editor.Occurrences
import LuaFront.Proofs.Scope.Behind
import LuaFront.Proofs.Scope.Visible

/-!
Suggestions at the end of a name. What has been typed there is the whole name, and the bindings
that are visible are those of its start, but for the ones that have been dropped. So the name is
suggested wherever it is bound, and missed at the end of a loop if a local of the loop binds it.
-/

namespace LuaFront

namespace Document

variable {version : Int} {text : String} {o : Identifier} {b : Binding} {at_ : Place}
  {pos : Offset} {front back : List Char} {settings : Settings}

/-- At the end of a name, what has been typed is the name. -/
lemma typed_eq (h : Named text.toList o.token front back) :
    (ofText version text).typed o.token.span.stop = o.token.text.toList := by
  have htext : (ofText version text).text = text := rfl
  have hstop : o.token.span.stop = Text.byteSize (front ++ o.token.text.toList) := by
    rw [h.span_eq]
  have hinner : ∀ c ∈ o.token.text.toList.reverse, Word.isInner c = true := by
    simpa using h.inner
  have hfront : front.reverse.takeWhile Word.isInner = [] := by
    cases hreverse : front.reverse with
    | nil => rfl
    | cons c rest =>
      have hlast : front.getLast? = some c := by
        rw [← List.head?_reverse, hreverse]
        rfl
      exact List.takeWhile_cons_of_neg (by simp [h.apart c hlast])
  rw [typed, htext, hstop, h.text_eq, Text.splitAtByte?_byteSize]
  dsimp only
  rw [List.reverse_append, List.takeWhile_append_of_pos hinner, hfront, List.append_nil,
    List.reverse_reverse]

/-- What is visible is suggested, if its name begins with what has been typed and the limit is no
smaller than the number of visible names. -/
lemma mem_suggestions (hpos : (ofText version text).offset at_ = .ok pos)
    (hb : b ∈ (ofText version text).root.enclosing pos)
    (htyped : (ofText version text).typed pos <+: b.name.toList)
    (hlimit : ((ofText version text).parsed.block.visible pos).length ≤ settings.completionLimit) :
    ∃ items, (ofText version text).suggestions at_ settings = .ok items
      ∧ ∃ item ∈ items, item.name = b.name := by
  obtain ⟨c, hc, hname⟩ := Binding.exists_mem_distinct hb
  have hvisible : c ∈ (ofText version text).parsed.block.visible pos := hc
  refine ⟨_, by rw [suggestions, hpos]; rfl, ⟨c.name, c.kind⟩, ?_, hname⟩
  refine List.mem_map.2 ⟨c, ?_, rfl⟩
  rw [List.take_of_length_le]
  · refine List.mem_filter.2 ⟨List.mem_reverse.2 hvisible, ?_⟩
    rw [hname]
    exact List.isPrefixOf_iff_prefix.2 htyped
  · refine Nat.le_trans (List.length_filter_le _ _) ?_
    rwa [List.length_reverse]

/-- **Suggestions agree with resolution**: where no error is reported, a name that is not declared
where it stands and has a binding is suggested at its end, unless its binding has been dropped
there. -/
theorem suggestions_agree (version : Int) (text : String)
    (herror : ∀ d ∈ (ofText version text).parsed.diagnostics, d.severity ≠ .error)
    (o : Identifier) (ho : o ∈ (ofText version text).occurrences)
    (hfree : ∀ b ∈ (ofText version text).root.preorder.flatMap Node.declared, b.id ≠ o)
    (b : Binding) (hb : (ofText version text).resolve? o = some b)
    (hdropped : b ∉ (ofText version text).root.preorder.flatMap (Node.dropped o.token.span.stop))
    (settings : Settings)
    (hlimit : ((ofText version text).parsed.block.visible o.token.span.stop).length
      ≤ settings.completionLimit)
    (at_ : Place) (hpos : (ofText version text).offset at_ = .ok o.token.span.stop) :
    (ofText version text).nameAt at_ = .ok (some o)
      ∧ ∃ items, (ofText version text).suggestions at_ settings = .ok items
        ∧ ∃ item ∈ items, item.name = o.name := by
  have htidy : (ofText version text).root.Tidy := Parsed.tidy_of_no_error herror
  obtain ⟨hid, -, hlabel⟩ := mem_occurrences_iff.1 ho
  obtain ⟨front, back, hnamed⟩ := exists_named ho
  have hwidth := htidy.width _ (Node.mem_tokens_of_mem_preorder hid)
  refine ⟨nameAt_eq ho hpos (Nat.le_of_lt hwidth) (Nat.le_refl _), ?_⟩
  rcases resolve?_cases hb with ⟨hdeclared, hself⟩ | ⟨hstart, hname⟩
  · exact absurd hself (hfree b hdeclared)
  have hstop : b ∈ (ofText version text).root.enclosing o.token.span.stop :=
    ((htidy.visible_behind hid hfree hlabel b hstart).resolve_left hdropped).2
  have htyped : (ofText version text).typed o.token.span.stop <+: b.name.toList := by
    rw [typed_eq hnamed, hname]
    exact List.prefix_refl _
  rw [← hname]
  exact mem_suggestions hpos hstop htyped hlimit

theorem suggestions_agree_closed :
    let d := ofText 1 "repeat local x = 1 until (x)"
    let o : Identifier := ⟨.ident, "x", ⟨26, 27⟩, []⟩
    o ∈ d.occurrences
      ∧ ∃ items, d.suggestions ⟨0, 27⟩ {} = .ok items ∧ ∃ item ∈ items, item.name = "x" := by
  intro d o
  have herror : ∀ e ∈ d.parsed.diagnostics, e.severity ≠ .error := by decide +kernel
  have ho : o ∈ d.occurrences := by decide +kernel
  have hfree : ∀ b ∈ d.root.preorder.flatMap Node.declared, b.id ≠ o := by decide +kernel
  let b : Binding := .named .local_
    ⟨.keyword .local_, "local", ⟨7, 12⟩, [⟨.whitespace, " ", ⟨6, 7⟩⟩]⟩
    ⟨.ident, "x", ⟨13, 14⟩, [⟨.whitespace, " ", ⟨12, 13⟩⟩]⟩
  have hb : d.resolve? o = some b := by decide +kernel
  have hdropped : b ∉ d.root.preorder.flatMap (Node.dropped o.token.span.stop) := by
    decide +kernel
  have hlimit : (d.parsed.block.visible o.token.span.stop).length
      ≤ Settings.completionLimit {} := by decide +kernel
  have hpos : d.offset ⟨0, 27⟩ = .ok o.token.span.stop := by decide +kernel
  exact ⟨ho, (suggestions_agree 1 _ herror o ho hfree b hb hdropped {} hlimit _ hpos).2⟩

/-- A loop that ends with its condition does not reach the end of a name there, so that its locals
are not suggested for the name, which refers to one of them. -/
theorem suggestions_miss :
    let d := ofText 1 "repeat local x = 1 until x"
    let o : Identifier := ⟨.ident, "x", ⟨25, 26⟩, [⟨.whitespace, " ", ⟨24, 25⟩⟩]⟩
    (∀ e ∈ d.parsed.diagnostics, e.severity ≠ .error)
      ∧ o ∈ d.occurrences
      ∧ (∀ b ∈ d.root.preorder.flatMap Node.declared, b.id ≠ o)
      ∧ (d.resolve? o).map (·.kind) = some .local_
      ∧ (d.parsed.block.visible o.token.span.stop).length ≤ Settings.completionLimit {}
      ∧ d.offset ⟨0, 26⟩ = .ok o.token.span.stop
      ∧ d.nameAt ⟨0, 26⟩ = .ok (some o)
      ∧ d.suggestions ⟨0, 26⟩ {} = .ok [] := by
  decide +kernel

end Document

end LuaFront
