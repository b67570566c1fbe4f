import LuaFront.Editor.Suggestion
import LuaFront.Proofs.Editor.Occurrences
import LuaFront.Proofs.Scope.Ordered

/-!
Which names are suggested, and in which order: each visible name that begins with what has been
typed is suggested once, in the reverse order of the places where the names are first declared. A
name that is declared again keeps its place, although it is the later declaration that is visible.
-/

namespace LuaFront.Document

open Text

variable {version : Int} {text : String} {at_ : Place} {pos : Offset} {before back : List Char}
  {settings : Settings}

/-- A place stands for an offset at which the text can be cut. -/
lemma offset_cut (h : (ofText version text).offset at_ = .ok pos) :
    ∃ before back, text.toList = before ++ back ∧ byteSize before = pos := by
  have hplace : (LineTable.ofSource text).ofPlace? text at_ = some pos := by
    rw [offset, lines_ofText] at h
    split at h
    · next heq =>
      cases h
      exact heq
    · cases h
  have hline : at_.line < (LineTable.ofSource text).lineCount := by
    by_contra hge
    have hend : (LineTable.ofSource text).lineEnd? at_.line = none := by
      rw [LineTable.lineEnd?, if_neg hge]
    rw [LineTable.ofPlace?, hend] at hplace
    cases hstart : (LineTable.ofSource text).lineStart? at_.line <;> simp [hstart] at hplace
  obtain ⟨before, line, rest, hisLine⟩ := LineTable.exists_line hline
  obtain ⟨part, back, rfl, hoffset, -, -⟩ := LineTable.exists_ofPlace? hisLine
  refine ⟨before ++ part, back ++ rest, by simp [hisLine.split], ?_⟩
  exact Option.some_inj.1 (hoffset.symm.trans hplace)

/-- What has been typed is the longest run of characters of a name that ends at the offset. -/
lemma typed_run (htext : text.toList = before ++ back) :
    let typed := (ofText version text).typed (byteSize before)
    ∃ front, before = front ++ typed ∧ (∀ c ∈ typed, Word.isInner c = true)
      ∧ ∀ c ∈ front.getLast?, Word.isInner c = false := by
  intro typed
  have htyped : typed = (before.reverse.takeWhile Word.isInner).reverse := by
    have hd : (ofText version text).text = text := rfl
    simp only [typed, Document.typed, hd, htext, splitAtByte?_byteSize]
  refine ⟨(before.reverse.dropWhile Word.isInner).reverse, ?_, ?_, ?_⟩
  · rw [htyped, ← List.reverse_append, List.takeWhile_append_dropWhile, List.reverse_reverse]
  · rw [htyped]
    exact fun c hc => List.mem_takeWhile_imp (List.mem_reverse.1 hc)
  · rw [List.getLast?_reverse]
    intro c hc
    have hnot := List.head?_dropWhile_not Word.isInner before.reverse
    rwa [Option.mem_def.1 hc] at hnot

/-- Of two visible bindings the one that comes first has the name that is declared first. -/
lemma visible_ordered (text : String) (pos : Offset) :
    ((Parsed.ofSource text).block.visible pos).Pairwise fun b c =>
      ∃ b₀ c₀, ((Parsed.ofSource text).root.enclosing pos).find? (·.name = b.name) = some b₀
        ∧ ((Parsed.ofSource text).root.enclosing pos).find? (·.name = c.name) = some c₀
        ∧ b₀.id.token.span.stop ≤ c₀.id.token.span.start := by
  have hordered := (Parsed.root_inOrder text).enclosing_ordered pos
  have hnames := List.pairwise_map.1
    (Binding.names_ordered ((Parsed.ofSource text).root.enclosing pos))
  have hfirst : ∀ b ∈ (Parsed.ofSource text).block.visible pos,
      ∃ b₀, ((Parsed.ofSource text).root.enclosing pos).find? (·.name = b.name) = some b₀ := by
    intro b hb
    refine Option.isSome_iff_exists.1 (List.find?_isSome.2 ⟨b, Binding.mem_of_mem_distinct hb, ?_⟩)
    exact decide_eq_true rfl
  refine hnames.imp_of_mem fun {b c} hb hc hbc => ?_
  obtain ⟨b₀, hb₀⟩ := hfirst b hb
  obtain ⟨c₀, hc₀⟩ := hfirst c hc
  exact ⟨b₀, c₀, hb₀, hc₀, List.pairwise_iff_forall_sublist.1 hordered (hbc b₀ c₀ hb₀ hc₀)⟩

/-- **What is suggested**: the visible names that begin with the longest run of characters of a name
before the place, each once and with the binding that is visible, in the reverse order of the places
where the names were first declared, up to the limit. -/
theorem suggestions_listed (version : Int) (text : String) (at_ : Place) (settings : Settings) :
    let d := ofText version text
    match d.offset at_ with
    | .error e => d.suggestions at_ settings = .error e
    | .ok pos => ∃ front typed back, text.toList = front ++ typed ++ back
        ∧ byteSize (front ++ typed) = pos
        ∧ (∀ c ∈ typed, Word.isInner c = true) ∧ (∀ c ∈ front.getLast?, Word.isInner c = false)
        ∧ ∃ bs : List Binding,
          d.suggestions at_ settings
              = .ok ((bs.take settings.completionLimit).map fun b => ⟨b.name, b.kind⟩)
          ∧ (bs.map (·.name)).Nodup
          ∧ (∀ b, b ∈ bs ↔
            d.parsed.block.lookup? pos b.name = some b ∧ typed <+: b.name.toList)
          ∧ bs.Pairwise fun b c =>
            ∃ b₀ c₀, (d.root.enclosing pos).find? (·.name = b.name) = some b₀
              ∧ (d.root.enclosing pos).find? (·.name = c.name) = some c₀
              ∧ c₀.id.token.span.stop ≤ b₀.id.token.span.start := by
  intro d
  cases hoffset : d.offset at_ with
  | error e =>
    rw [suggestions, hoffset]
    rfl
  | ok pos =>
    obtain ⟨before, back, htext, rfl⟩ := offset_cut hoffset
    obtain ⟨front, hbefore, hinner, hlast⟩ := @typed_run version _ _ _ htext
    set typed := d.typed (byteSize before) with htyped
    let bs := (d.parsed.block.visible (byteSize before)).reverse.filter fun b =>
      typed.isPrefixOf b.name.toList
    refine ⟨front, typed, back, hbefore ▸ htext, hbefore ▸ rfl, hinner, hlast, bs, ?_, ?_, ?_, ?_⟩
    · rw [suggestions, hoffset]
      rfl
    · have hnodup := List.nodup_reverse.2 (Binding.names_nodup (d.root.enclosing (byteSize before)))
      rw [← List.map_reverse] at hnodup
      exact hnodup.sublist (List.filter_sublist.map _)
    · intro b
      rw [List.mem_filter, List.mem_reverse, List.isPrefixOf_iff_prefix, Block.lookup?_eq]
      exact and_congr_left fun _ => Binding.mem_distinct_iff
    · have hordered := List.pairwise_reverse.2 (visible_ordered text (byteSize before))
      exact (hordered.imp fun ⟨c₀, b₀, hc, hb, hle⟩ => ⟨b₀, c₀, hb, hc, hle⟩).filter _

/-- The `a` that is visible is declared after the `b`, and is suggested behind it all the same, or
not at all if the limit is one. -/
theorem redeclared_behind :
    let d := ofText 1 "local a, b = 1, 2 local a = 3 "
    d.offset ⟨0, 30⟩ = .ok 30
      ∧ (d.parsed.block.lookup? 30 "a").map (·.id.token.span) = some ⟨24, 25⟩
      ∧ (d.parsed.block.lookup? 30 "b").map (·.id.token.span) = some ⟨9, 10⟩
      ∧ d.suggestions ⟨0, 30⟩ {} = .ok [⟨"b", .local_⟩, ⟨"a", .local_⟩]
      ∧ d.suggestions ⟨0, 30⟩ { completionLimit := 1 } = .ok [⟨"b", .local_⟩] := by
  decide +kernel

end LuaFront.Document
