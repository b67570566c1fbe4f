import LuaFront.Proofs.Chunk.Lossless
import LuaFront.Proofs.Lexeme.Lines
import LuaFront.Proofs.Lexeme.Words
import LuaFront.Proofs.Position.Places
import LuaFront.Proofs.Scope.Declared
import LuaFront.Proofs.Traversal.Locate

/-!
Occurrences of variables in a document. A place from the start of an occurrence to its end names the
occurrence. Those of one variable form a class: each of them leads to the same declaration and to
the same highlights, and the declaration is one of them.
-/

namespace LuaFront

open Text

namespace Parsed

/-- A name of the tree that is not missing is one of the text. -/
lemma name_mem_tokens {source : String} {id : Identifier}
    (hid : .identifier id ∈ (ofSource source).root.preorder)
    (hpresent : id.name ≠ "" ∨ id.token.span.start < id.token.span.stop) :
    id.token ∈ (Lexed.ofSource source).tokens ∧ id.token.kind = .ident ∧ id.name ≠ ""
      ∧ id.token.span.start < id.token.span.stop := by
  obtain ⟨read, eof, s, h⟩ := exists_outcome source
  have hform : (ofSource source).root.All Node.Form :=
    Node.all_iff.2 ⟨trivial, fun m hm => h.reached.form _ (Node.mem_children.1 hm)⟩
  rcases h.mem_read (Node.mem_tokens_of_mem_preorder hid) with hread | ⟨kind, offset, -, heq⟩
  · refine ⟨?_, hform _ hid, h.splits.text _ hread, h.splits.width _ hread⟩
    rw [h.splits.tokens]
    exact List.mem_append_left _ hread
  · simp [Identifier.name, heq, Token.missing, Span.empty] at hpresent

end Parsed

namespace Document

variable {version : Int} {text : String} {id o : Identifier} {at_ : Place} {pos : Offset}

lemma mem_occurrences_iff {d : Document} : o ∈ d.occurrences ↔
    .identifier o ∈ d.root.preorder ∧ o.name ≠ "" ∧ o ∉ d.root.preorder.flatMap Node.labels := by
  have hid : o ∈ d.root.preorder.filterMap Node.identifier? ↔ .identifier o ∈ d.root.preorder := by
    rw [List.mem_filterMap]
    refine ⟨fun ⟨n, hn, ho⟩ => ?_, fun h => ⟨_, h, rfl⟩⟩
    rwa [← Node.identifier_eq_of_identifier? ho]
  simp only [occurrences, List.mem_filter, hid, Bool.and_eq_true, decide_eq_true_eq]

/-- Each occurrence ends before the next one begins. -/
lemma occurrences_ordered :
    (ofText version text).occurrences.Pairwise
      fun o o' => o.token.span.stop ≤ o'.token.span.start := by
  have htokens := (Parsed.root_inOrder text).tokens_ordered
  have hids := htokens.sublist (Node.identifiers_sublist _)
  exact (List.pairwise_map.1 hids).filter _

/-! ### The occurrence at a place -/

lemma identifierAt?_eq_some_iff : (ofText version text).identifierAt? pos = some id ↔
    .identifier id ∈ (ofText version text).root.preorder
      ∧ id.token.span.start ≤ pos ∧ pos < id.token.span.stop := by
  have hroot : (ofText version text).root.InOrder := Parsed.root_inOrder text
  rw [← Node.covers_identifier_iff, identifierAt?, Node.locate?]
  constructor
  · intro h
    split at h
    · next hpos =>
      have hnode := Node.identifier_eq_of_identifier? h
      have hmem : ((ofText version text).root.innermost pos).node
          ∈ (ofText version text).root.preorder.filter (Node.covers pos) := by
        rw [hroot.filter_covers hpos, Path.nodes]
        simp
      rw [hnode] at hmem
      exact List.mem_filter.1 hmem
    · cases h
  · rintro ⟨hid, hpos⟩
    rw [if_pos (hroot.covers_of_mem_preorder hid hpos), Option.bind_some,
      hroot.innermost_leaf hid hpos rfl]
    rfl

/-- Where an occurrence ends no other one begins. -/
lemma identifierAt?_stop (ho : o ∈ (ofText version text).occurrences) :
    (ofText version text).identifierAt? o.token.span.stop = none := by
  obtain ⟨hid, hname, -⟩ := mem_occurrences_iff.1 ho
  rw [Option.eq_none_iff_forall_ne_some]
  intro id h
  obtain ⟨hid', hlo, hhi⟩ := identifierAt?_eq_some_iff.1 h
  obtain ⟨htoken, hkind, -, hwidth⟩ := Parsed.name_mem_tokens hid (.inl hname)
  obtain ⟨htoken', hkind', -, -⟩ :=
    Parsed.name_mem_tokens hid' (.inr (Nat.lt_of_le_of_lt hlo hhi))
  have hne : o.token ≠ id.token := fun heq => absurd (heq ▸ hhi) (Nat.lt_irrefl _)
  have hapart := Lexed.names_apart htoken htoken' hkind hkind' hname
  have hordered := (Parsed.root_inOrder text).tokens_apart
    (Node.mem_tokens_of_mem_preorder hid) (Node.mem_tokens_of_mem_preorder hid') hne
  rcases hordered with hle | hle
  · exact hapart (Nat.le_antisymm hle hlo)
  · exact Nat.not_lt.2 (Nat.le_trans hle (Nat.le_of_lt hwidth)) hhi

/-- **A place from the start of an occurrence to its end names it.** -/
lemma nameAt_eq (ho : o ∈ (ofText version text).occurrences)
    (hpos : (ofText version text).offset at_ = .ok pos) (hlo : o.token.span.start ≤ pos)
    (hhi : pos ≤ o.token.span.stop) : (ofText version text).nameAt at_ = .ok (some o) := by
  obtain ⟨hid, hname, -⟩ := mem_occurrences_iff.1 ho
  obtain ⟨-, -, -, hwidth⟩ := Parsed.name_mem_tokens hid (.inl hname)
  have hfound : ((ofText version text).identifierAt? pos).or
      (if pos = 0 then none else (ofText version text).identifierAt? (pos - 1)) = some o := by
    rcases Nat.lt_or_eq_of_le hhi with hlt | rfl
    · rw [identifierAt?_eq_some_iff.2 ⟨hid, hlo, hlt⟩, Option.some_or]
    · have hlast : (ofText version text).identifierAt? (o.token.span.stop - 1) = some o :=
        identifierAt?_eq_some_iff.2
          ⟨hid, Nat.le_pred_of_lt hwidth, Nat.pred_lt_of_lt hwidth⟩
      rw [identifierAt?_stop ho, if_neg (Nat.ne_zero_of_lt hwidth), hlast]
      rfl
  simp only [nameAt, hpos]
  change Except.ok _ = _
  rw [hfound]
  simp [ho]

/-! ### Ranges of occurrences -/

section Range

variable {front back front' back' : List Char} {o' : Identifier}

lemma exists_named (ho : o ∈ (ofText version text).occurrences) :
    ∃ front back, Named text.toList o.token front back := by
  obtain ⟨hid, hname, -⟩ := mem_occurrences_iff.1 ho
  obtain ⟨htoken, hkind, -, -⟩ := Parsed.name_mem_tokens hid (.inl hname)
  exact Lexed.named htoken hkind

lemma lines_ofText : (ofText version text).parsed.lines = .ofSource text := Lexed.lines_eq text

lemma range?_eq (h : Named text.toList o.token front back) :
    (ofText version text).range? o.token.span
      = some ⟨.after front, .after (front ++ o.token.text.toList)⟩ := by
  have hstart : (ofText version text).place? (byteSize front) = some (.after front) := by
    rw [place?, lines_ofText]
    exact LineTable.toPlace?_eq (h.text_eq.trans (List.append_assoc ..)) (.inl rfl)
  have hstop : (ofText version text).place? (byteSize (front ++ o.token.text.toList))
      = some (.after (front ++ o.token.text.toList)) := by
    rw [place?, lines_ofText]
    exact LineTable.toPlace?_eq h.text_eq (.inl rfl)
  rw [range?, h.span_eq, hstart, hstop]
  rfl

lemma offset_start (h : Named text.toList o.token front back) :
    (ofText version text).offset (.after front) = .ok o.token.span.start := by
  have hoffset : (ofText version text).parsed.lines.ofPlace? text (.after front)
      = some (byteSize front) := by
    rw [lines_ofText]
    exact LineTable.ofPlace?_after (h.text_eq.trans (List.append_assoc ..))
  have htext : (ofText version text).text = text := rfl
  rw [offset, htext, hoffset, h.span_eq]

/-- A place in the range of an occurrence stands for an offset in its span. -/
lemma offset_between (h : Named text.toList o.token front back)
    (hlo : ¬ at_.Before (.after front))
    (hhi : ¬ (Place.after (front ++ o.token.text.toList)).Before at_) :
    ∃ pos, (ofText version text).offset at_ = .ok pos ∧ o.token.span.start ≤ pos
      ∧ pos ≤ o.token.span.stop := by
  have hfeed : '\n' ∉ o.token.text.toList := fun hmem => by
    have hinner := h.inner _ hmem
    revert hinner
    decide
  obtain ⟨pos, hoffset, hstart, hstop⟩ := LineTable.ofPlace?_between h.text_eq hfeed hlo hhi
  have htext : (ofText version text).text = text := rfl
  rw [offset, lines_ofText, htext, hoffset, h.span_eq]
  exact ⟨pos, rfl, hstart, hstop⟩

lemma range_before (h : Named text.toList o.token front back)
    (h' : Named text.toList o'.token front' back')
    (hwidth : o.token.span.start < o.token.span.stop)
    (hle : o.token.span.stop ≤ o'.token.span.start) :
    (Place.after front).Before (.after front') := by
  have hlt := Nat.lt_of_lt_of_le hwidth hle
  rw [h.span_eq, h'.span_eq] at hlt
  have hsource : front ++ (o.token.text.toList ++ back)
      = front' ++ (o'.token.text.toList ++ back') := by
    rw [← List.append_assoc, ← h.text_eq, h'.text_eq, List.append_assoc]
  obtain ⟨_ | ⟨c, mid⟩, rfl, -⟩ := exists_mid hsource (Nat.le_of_lt hlt)
  · simp at hlt
  · exact Place.after_before front c mid

end Range

/-! ### Occurrences of one variable -/

/-- The occurrences that belong to one variable with `o`. -/
def occurrencesOf (d : Document) (o : Identifier) : List Identifier :=
  d.occurrences.filter fun other =>
    other.name = o.name && (d.resolve? other).map (·.id) = (d.resolve? o).map (·.id)

/-- Their ranges. -/
def rangesOf (d : Document) (o : Identifier) : List Range :=
  (d.occurrencesOf o).filterMap fun other => d.range? other.token.span

/-- The range at which the variable of `o` is declared. -/
def declarationOf? (d : Document) (o : Identifier) : Option Range :=
  (d.resolve? o).bind fun b => d.range? b.id.token.span

lemma highlights_eq {d : Document} (h : d.nameAt at_ = .ok (some o)) :
    d.highlights at_ = .ok (d.rangesOf o) := by
  rw [highlights, h]
  rfl

lemma definition_eq {d : Document} (h : d.nameAt at_ = .ok (some o)) :
    d.definition at_ = .ok (d.declarationOf? o) := by
  rw [definition, h]
  rfl

lemma mem_occurrencesOf_iff {d : Document} {o' : Identifier} : o' ∈ d.occurrencesOf o ↔
    o' ∈ d.occurrences ∧ o'.name = o.name
      ∧ (d.resolve? o').map (·.id) = (d.resolve? o).map (·.id) := by
  simp [occurrencesOf]

/-- The occurrences of one variable have all in common. -/
lemma rangesOf_eq {d : Document} {o' : Identifier} (h : o' ∈ d.occurrencesOf o) :
    d.rangesOf o' = d.rangesOf o ∧ d.declarationOf? o' = d.declarationOf? o := by
  obtain ⟨-, hname, hid⟩ := mem_occurrencesOf_iff.1 h
  have hdeclaration : ∀ o, d.declarationOf? o
      = ((d.resolve? o).map (·.id)).bind fun id => d.range? id.token.span := by
    intro o
    rw [declarationOf?, Option.bind_map]
    rfl
  refine ⟨?_, by rw [hdeclaration, hdeclaration, hid]⟩
  rw [rangesOf, rangesOf, occurrencesOf, occurrencesOf, hname, hid]

lemma rangesOf_ordered :
    ((ofText version text).rangesOf o).Pairwise fun r r' => r.start.Before r'.start := by
  have hordered := (@occurrences_ordered version text).filter
    fun other => other.name = o.name && ((ofText version text).resolve? other).map (·.id)
      = ((ofText version text).resolve? o).map (·.id)
  rw [rangesOf, List.pairwise_filterMap]
  refine List.Pairwise.imp_of_mem ?_ hordered
  intro a a' ha ha' hle r hr r' hr'
  have ha := (mem_occurrencesOf_iff.1 ha).1
  have ha' := (mem_occurrencesOf_iff.1 ha').1
  obtain ⟨front, back, h⟩ := exists_named ha
  obtain ⟨front', back', h'⟩ := exists_named ha'
  obtain ⟨hid, hname, -⟩ := mem_occurrences_iff.1 ha
  have hwidth := (Parsed.name_mem_tokens hid (.inl hname)).2.2.2
  rw [range?_eq h] at hr
  rw [range?_eq h'] at hr'
  cases hr
  cases hr'
  exact range_before h h' hwidth hle

/-- At the start of each of the ranges all of them are found again. -/
lemma answers_of_mem_rangesOf {r : Range} (hr : r ∈ (ofText version text).rangesOf o) :
    (ofText version text).highlights r.start = .ok ((ofText version text).rangesOf o)
      ∧ (ofText version text).definition r.start
        = .ok ((ofText version text).declarationOf? o) := by
  obtain ⟨o', ho', hrange⟩ := List.mem_filterMap.1 hr
  have ho := (mem_occurrencesOf_iff.1 ho').1
  obtain ⟨front, back, h⟩ := exists_named ho
  rw [range?_eq h] at hrange
  cases hrange
  have hname := nameAt_eq ho (offset_start h) (Nat.le_refl _) (by simp [h.span_eq])
  obtain ⟨hranges, hdeclaration⟩ := rangesOf_eq ho'
  rw [highlights_eq hname, definition_eq hname, hranges, hdeclaration]
  exact ⟨rfl, rfl⟩

lemma declaredBy?_eq : (ofText version text).parsed.block.declaredBy? o
    = ((ofText version text).root.preorder.flatMap Node.declared).find? (·.id = o) :=
  Block.declaredBy?_eq (Parsed.root_inOrder text)

/-- A name that is declared resolves to where it stands. -/
lemma resolve?_declared {b : Binding}
    (hb : b ∈ (ofText version text).root.preorder.flatMap Node.declared) :
    ((ofText version text).resolve? b.id).map (·.id) = some b.id := by
  rw [resolve?, Block.resolve?, declaredBy?_eq]
  cases hfind : ((ofText version text).root.preorder.flatMap Node.declared).find? (·.id = b.id) with
  | none =>
    have hnone := List.find?_eq_none.1 hfind b hb
    simp at hnone
  | some b' =>
    have hid : b'.id = b.id := by simpa using List.find?_some hfind
    rw [Option.some_or, Option.map_some, hid]

/-- What an occurrence resolves to is declared at it, or declares its name elsewhere. -/
lemma resolve?_cases {b : Binding} (hb : (ofText version text).resolve? o = some b) :
    (b ∈ (ofText version text).root.preorder.flatMap Node.declared ∧ b.id = o)
      ∨ b ∈ (ofText version text).root.enclosing o.token.span.start ∧ b.name = o.name := by
  rw [resolve?, Block.resolve?, Option.or_eq_some_iff, declaredBy?_eq] at hb
  rcases hb with hb | ⟨-, hb⟩
  · exact .inl ⟨List.mem_of_find?_eq_some hb, by simpa using List.find?_some hb⟩
  · rw [Block.lookup?_eq] at hb
    have hmem := List.mem_reverse.1 (List.mem_of_find?_eq_some hb)
    exact .inr ⟨hmem, by simpa using List.find?_some hb⟩

/-- **A variable is declared at one of its occurrences**, unless it is the `self` of a method. -/
lemma declaration_mem {b : Binding} (ho : o ∈ (ofText version text).occurrences)
    (hb : (ofText version text).resolve? o = some b)
    (hself : b ∉ (ofText version text).root.preorder.flatMap Node.selves) :
    b.id ∈ (ofText version text).occurrencesOf o := by
  obtain ⟨-, hname, -⟩ := mem_occurrences_iff.1 ho
  obtain ⟨hdeclared, hsame⟩ : b ∈ (ofText version text).root.preorder.flatMap Node.declared
      ∧ b.id.name = o.name := by
    rcases resolve?_cases hb with ⟨hdeclared, rfl⟩ | ⟨henclosing, hsame⟩
    · exact ⟨hdeclared, rfl⟩
    · rcases (Node.mem_enclosing_cases henclosing).2 with hdeclared | hself'
      · obtain ⟨n, -, hn⟩ := List.mem_flatMap.1 hdeclared
        exact ⟨hdeclared, by rw [← Node.name_of_declared hn, hsame]⟩
      · exact absurd hself' hself
  have huse : (b.id, some b) ∈ (ofText version text).root.uses [] :=
    Node.declared_mem_uses hdeclared
  have hid := Node.mem_preorder_of_mem_uses huse
  have hname' : b.id.name ≠ "" := hsame ▸ hname
  have hwidth := (Parsed.name_mem_tokens hid (.inl hname')).2.2.2
  have hlabel := (Parsed.root_inOrder text).not_label hdeclared hwidth
  refine mem_occurrencesOf_iff.2 ⟨mem_occurrences_iff.2 ⟨hid, hname', hlabel⟩, hsame, ?_⟩
  rw [resolve?_declared hdeclared, hb, Option.map_some]

/-- **The occurrences of a variable form a class**: each place from the start of an occurrence to
its end stands for an offset in it, and at each of these the answers are the same: ranges in the
order of the text, one of them that of the occurrence, and the same again at the start of each of
them. The declaration is one of the ranges, unless it is the `self` of a method. -/
theorem occurrences_agree (version : Int) (text : String) (o : Identifier)
    (ho : o ∈ (ofText version text).occurrences) :
    let d := ofText version text
    ∃ r rs target, d.range? o.token.span = some r
      ∧ (∀ at_ : Place, ¬ at_.Before r.start → ¬ r.stop.Before at_ →
        ∃ pos, d.offset at_ = .ok pos ∧ o.token.span.start ≤ pos ∧ pos ≤ o.token.span.stop)
      ∧ (∀ at_ pos, d.offset at_ = .ok pos → o.token.span.start ≤ pos → pos ≤ o.token.span.stop →
        d.highlights at_ = .ok rs ∧ d.definition at_ = .ok target)
      ∧ r ∈ rs
      ∧ (rs.Pairwise fun r r' => r.start.Before r'.start)
      ∧ (∀ r' ∈ rs, d.highlights r'.start = .ok rs ∧ d.definition r'.start = .ok target)
      ∧ ∀ b range, d.resolve? o = some b → b ∉ d.root.preorder.flatMap Node.selves →
        target = some range → range ∈ rs ∧ d.definition range.start = .ok (some range) := by
  intro d
  obtain ⟨front, back, h⟩ := exists_named ho
  have hself : o ∈ d.occurrencesOf o := mem_occurrencesOf_iff.2 ⟨ho, rfl, rfl⟩
  have hranges : ∀ o' ∈ d.occurrencesOf o, ∀ r, d.range? o'.token.span = some r →
      r ∈ d.rangesOf o := fun o' ho' r hr => List.mem_filterMap.2 ⟨o', ho', hr⟩
  refine ⟨_, d.rangesOf o, d.declarationOf? o, range?_eq h, fun at_ hlo hhi => ?_,
    fun at_ pos hpos hlo hhi => ?_, hranges o hself _ (range?_eq h), rangesOf_ordered,
    fun r' hr' => answers_of_mem_rangesOf hr', fun b range hb hnoself htarget => ?_⟩
  · exact offset_between h hlo hhi
  · have hname := nameAt_eq ho hpos hlo hhi
    exact ⟨highlights_eq hname, definition_eq hname⟩
  · have hrange : d.range? b.id.token.span = some range := by
      rw [declarationOf?, hb] at htarget
      exact htarget
    have hmem := hranges b.id (declaration_mem ho hb hnoself) range hrange
    exact ⟨hmem, htarget ▸ (answers_of_mem_rangesOf hmem).2⟩

/-- The use of a local variable and its declaration. -/
theorem occurrences_agree_local :
    let d := ofText 1 "local a = 1 return a"
    let o : Identifier := ⟨.ident, "a", ⟨19, 20⟩, [⟨.whitespace, " ", ⟨18, 19⟩⟩]⟩
    let use : Range := ⟨⟨0, 19⟩, ⟨0, 20⟩⟩
    let declaration : Range := ⟨⟨0, 6⟩, ⟨0, 7⟩⟩
    o ∈ d.occurrences ∧ d.offset use.stop = .ok 20
      ∧ d.definition use.stop = .ok (some declaration)
      ∧ ∃ rs, d.highlights use.stop = .ok rs ∧ use ∈ rs ∧ declaration ∈ rs
        ∧ d.highlights declaration.start = .ok rs
        ∧ d.definition declaration.start = .ok (some declaration) := by
  intro d o use declaration
  have ho : o ∈ d.occurrences := by decide +kernel
  have hoffset : d.offset use.stop = .ok 20 := by decide +kernel
  have hrange : d.range? o.token.span = some use := by decide +kernel
  have hdefinition : d.definition use.stop = .ok (some declaration) := by decide +kernel
  obtain ⟨b, hb, hself⟩ : ∃ b, d.resolve? o = some b
      ∧ b ∉ d.root.preorder.flatMap Node.selves := by
    have hany : (d.resolve? o).any (fun b => decide (b ∉ d.root.preorder.flatMap Node.selves))
        = true := by decide +kernel
    simpa [Option.any_eq_true] using hany
  obtain ⟨r, rs, target, hr, -, hanswers, hmem, -, hsame, hdeclared⟩ :=
    occurrences_agree 1 "local a = 1 return a" o ho
  obtain ⟨hhighlights, htarget⟩ := hanswers use.stop 20 hoffset (by decide) (by decide)
  obtain rfl : r = use := Option.some.inj (hr.symm.trans hrange)
  obtain rfl : target = some declaration := Except.ok.inj (htarget.symm.trans hdefinition)
  obtain ⟨hmem', hagain⟩ := hdeclared b declaration hb hself rfl
  exact ⟨ho, hoffset, hdefinition, rs, hhighlights, hmem, hmem', (hsame _ hmem').1, hagain⟩

end Document

end LuaFront
