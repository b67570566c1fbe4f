import LuaFront.Proofs.Lexeme.Shifted
import LuaFront.Token.DocComment

/-!
Documentation. Lines of comment with three dashes, each on a line of its own, are what the token
below them has as its documentation: nothing of what is written on them is lost but the blanks in
front, and nothing from above an empty line is taken along.
-/

namespace LuaFront

open Text

/-! ### Documentation as it is written -/

/-- Spaces and tabs in front of a line. -/
structure Indent where
  chars : List Char
  blank : ∀ c ∈ chars, c = ' ' ∨ c = '\t'

/-- A line of documentation: the blanks in front of its dashes, and what it says. -/
structure DocLine where
  indent : Indent
  text : String
  unbroken : '\n' ∉ text.toList
  trimmed : ∀ c ∈ text.toList.getLast?, isBlank c = false

namespace DocLine

/-- The comment by itself. -/
def comment (line : DocLine) : List Char := '-' :: '-' :: '-' :: ' ' :: line.text.toList

/-- Lines of documentation, each with a line feed behind it. -/
def written (lines : List DocLine) : List Char :=
  lines.flatMap fun line => line.indent.chars ++ line.comment ++ ['\n']

lemma written_cons (line : DocLine) (lines : List DocLine) (tail : List Char) :
    written (line :: lines) ++ tail
      = line.indent.chars ++ (line.comment ++ '\n' :: (written lines ++ tail)) := by
  simp [written]

end DocLine

lemma Indent.isSpace (indent : Indent) : ∀ c ∈ indent.chars, Text.isSpace c = true := by
  intro c hc
  rcases indent.blank c hc with rfl | rfl <;> rfl

lemma Indent.count (indent : Indent) : indent.chars.count '\n' = 0 := by
  rw [List.count_eq_zero]
  intro hmem
  rcases indent.blank _ hmem with h | h <;> cases h

lemma Text.trimEnd_of_trimmed {cs : List Char} (h : ∀ c ∈ cs.getLast?, isBlank c = false) :
    trimEnd cs = cs := by
  rw [trimEnd]
  cases hcs : cs.reverse with
  | nil => rw [List.reverse_eq_nil_iff.1 hcs]; rfl
  | cons c more =>
    have hc : isBlank c = false := h c (by rw [← List.head?_reverse, hcs]; rfl)
    rw [List.dropWhile_cons_of_neg (by simp [hc]), ← hcs, List.reverse_reverse]

namespace Trivia

variable {pieces more front : List Trivia} {lines others : List String} {offset : Offset}
  {cs : List Char}

/-! ### Runs of documentation -/

/-- The pieces are lines of documentation, one below the other. -/
structure Documents (lines : List String) (pieces : List Trivia) : Prop where
  run : ∀ t ∈ pieces, (t.isLineStep || t.isDoc) = true
  lines : (pieces.filter (·.isDoc)).map docLine = lines

namespace Documents

lemma nil : Documents [] [] := ⟨by simp, rfl⟩

lemma append (h : Documents lines pieces) (h' : Documents others more) :
    Documents (lines ++ others) (pieces ++ more) where
  run := by
    intro t ht
    exact (List.mem_append.1 ht).elim (h.run t) (h'.run t)
  lines := by rw [List.filter_append, List.map_append, h.lines, h'.lines]

/-- What stands above them is left alone if it does not end in documentation. -/
lemma docRun (h : Documents lines pieces) (hfront : docRun front.reverse = []) :
    Trivia.docRun (front ++ pieces).reverse = lines.reverse := by
  rw [Trivia.docRun] at hfront ⊢
  have hrun : ∀ t ∈ pieces.reverse, (t.isLineStep || t.isDoc) = true := fun t ht =>
    h.run t (List.mem_reverse.1 ht)
  rw [List.reverse_append, List.takeWhile_append_of_pos hrun, List.filter_append, List.map_append,
    hfront, List.append_nil, List.filter_reverse, List.map_reverse, h.lines]

lemma docComment? (h : Documents lines pieces) (hfront : Trivia.docRun front.reverse = [])
    (hne : lines ≠ []) :
    Trivia.docComment? (front ++ pieces) = some (String.intercalate "\n" lines) := by
  obtain ⟨line, above, hlines⟩ := List.exists_cons_of_ne_nil (List.reverse_ne_nil_iff.2 hne)
  rw [Trivia.docComment?, h.docRun hfront, hlines]
  dsimp only
  rw [← hlines, List.reverse_reverse]

end Documents

/-! ### The pieces of a gap -/

/-- The blanks of a gap, which may be none. -/
def blank (offset : Offset) (cs : List Char) : List Trivia :=
  if cs = [] then [] else [⟨.whitespace, String.ofList cs, ⟨offset, offset + byteSize cs⟩⟩]

lemma not_isDoc_of_blank : ∀ t ∈ blank offset cs, t.isDoc = false := by
  unfold blank
  split <;> simp [isDoc]

/-- A single step from one line to the next. -/
lemma documents_blank (h : cs.count '\n' ≤ 1) : Documents [] (blank offset cs) := by
  unfold blank
  split
  · exact .nil
  · exact ⟨by simpa [isLineStep] using .inl h, by simp [isDoc]⟩

/-- Documentation does not reach above an empty line. -/
lemma docRun_of_empty_line (h : 2 ≤ cs.count '\n') :
    docRun (front ++ blank offset cs).reverse = [] := by
  have hne : cs ≠ [] := by
    rintro rfl
    cases h
  have hstop : isLineStep ⟨.whitespace, String.ofList cs, ⟨offset, offset + byteSize cs⟩⟩
      = false := by
    simpa [isLineStep] using Nat.lt_of_succ_le h
  rw [blank, if_neg hne, List.reverse_append, List.reverse_singleton, List.singleton_append, docRun,
    List.takeWhile_cons_of_neg (by simp [hstop, isDoc])]
  rfl

lemma docRun_blank : docRun (blank offset cs).reverse = [] := by
  rw [docRun, List.filter_eq_nil_iff.2, List.map_nil]
  intro t ht
  have hmem := List.mem_reverse.1 ((List.takeWhile_prefix _).subset ht)
  simp [not_isDoc_of_blank t hmem]

/-- A line of documentation says what was written on it. -/
lemma documents_line (line : DocLine) (span : Span) :
    Documents [line.text] [⟨.lineComment, String.ofList line.comment, span⟩] := by
  have hdoc : isDoc ⟨.lineComment, String.ofList line.comment, span⟩ = true := by
    simp [isDoc, DocLine.comment]
  refine ⟨by simp [hdoc], ?_⟩
  rw [List.filter_cons_of_pos hdoc, List.filter_nil, List.map_singleton, docLine]
  simp [DocLine.comment, trimEnd_of_trimmed line.trimmed]

end Trivia

namespace Gap

variable {blanks cs : List Char} {offset : Offset}

/-- The blanks in front of a text become one piece. -/
lemma ofChars_after_blanks (offset : Offset) (hblanks : ∀ c ∈ blanks, isSpace c = true)
    (hcs : ∀ c ∈ cs.head?, isSpace c = false) :
    ofChars offset (blanks ++ cs) = { ofChars (offset + byteSize blanks) cs with
      trivia := Trivia.blank offset blanks ++ (ofChars (offset + byteSize blanks) cs).trivia } := by
  have hstop : cs.takeWhile isSpace = [] ∧ cs.dropWhile isSpace = cs := by
    cases cs with
    | nil => exact ⟨rfl, rfl⟩
    | cons c cs => simp [hcs c rfl]
  cases blanks with
  | nil => rfl
  | cons b blanks =>
    obtain ⟨hb, hblanks⟩ := List.forall_mem_cons.1 hblanks
    rw [List.cons_append, ofChars_of_some (piece?_blank hb),
      List.takeWhile_append_of_pos hblanks, List.dropWhile_append_of_pos hblanks, hstop.1, hstop.2,
      List.append_nil, Trivia.blank, if_neg (List.cons_ne_nil b blanks)]
    rfl

/-- A line of documentation is a comment of its own. -/
lemma piece?_docLine (line : DocLine) (tail : List Char) :
    piece? (line.comment ++ '\n' :: tail)
      = some ⟨.lineComment, line.comment, '\n' :: tail, []⟩ := by
  have hline : ∀ c ∈ '-' :: ' ' :: line.text.toList, decide (c ≠ '\n') = true := by
    intro c hc
    rw [decide_eq_true_eq]
    rintro rfl
    simp [line.unbroken] at hc
  have hcomment : comment ('-' :: ' ' :: line.text.toList ++ '\n' :: tail)
      = ⟨.lineComment, line.comment, '\n' :: tail, []⟩ := by
    have hlevel : LongBracket.level? ('-' :: ' ' :: line.text.toList ++ '\n' :: tail) = none := rfl
    simp only [comment, hlevel, List.takeWhile_append_of_pos hline,
      List.dropWhile_append_of_pos hline]
    simp [DocLine.comment]
  rw [← hcomment]
  rfl

/-- Documentation in front of a letter: the blanks before its first line, and the lines. -/
lemma ofChars_documented {c : Char} (cs : List Char) (hc : c.isAlpha = true) (offset : Offset)
    (lines : List DocLine) (indent : Indent) (hblanks : ∀ c ∈ blanks, isSpace c = true) :
    ∃ (first : Indent) (pieces : List Trivia) (stop : Nat),
      ofChars offset (blanks ++ (DocLine.written lines ++ (indent.chars ++ c :: cs)))
        = ⟨Trivia.blank offset (blanks ++ first.chars) ++ pieces, stop, c :: cs, []⟩
      ∧ Trivia.Documents (lines.map (·.text)) pieces := by
  induction lines generalizing blanks offset with
  | nil =>
    have hpiece : piece? (c :: cs) = none := piece?_of_letter hc
    refine ⟨indent, [], offset + byteSize (blanks ++ indent.chars), ?_, .nil⟩
    rw [DocLine.written, List.flatMap_nil, List.nil_append, ← List.append_assoc,
      ofChars_after_blanks offset (List.forall_mem_append.2 ⟨hblanks, indent.isSpace⟩)
        (by simpa using (piece?_eq_none_iff.1 hpiece).1), ofChars_of_none hpiece]
  | cons line lines ih =>
    let start := offset + byteSize (blanks ++ line.indent.chars)
    let below := start + byteSize line.comment
    have hfeed : ∀ c ∈ ['\n'], isSpace c = true := by simp [isSpace]
    obtain ⟨next, pieces, stop, heq, hdocuments⟩ := ih below hfeed
    refine ⟨line.indent, ⟨.lineComment, String.ofList line.comment, ⟨start, below⟩⟩
      :: (Trivia.blank below ('\n' :: next.chars) ++ pieces), stop, ?_, ?_⟩
    · have hspace := List.forall_mem_append.2 ⟨hblanks, line.indent.isSpace⟩
      rw [List.singleton_append] at heq
      rw [DocLine.written_cons, ← List.append_assoc, ofChars_after_blanks offset hspace
        (by simp [DocLine.comment, isSpace]), ofChars_of_some (piece?_docLine line _), heq]
      rfl
    · have hstep : Trivia.Documents [] (Trivia.blank below ('\n' :: next.chars)) :=
        Trivia.documents_blank (by simp [next.count])
      exact (Trivia.documents_line line _).append (hstep.append hdocuments)

end Gap

/-! ### The token below -/

/-- A declaration with documentation above it. -/
def DocLine.declaration (lines : List DocLine) (indent : Indent) (back : List Char) : List Char :=
  written lines ++ (indent.chars ++ 'l' :: 'o' :: 'c' :: 'a' :: 'l' :: ' ' :: 'x' :: back)

lemma Lexeme.ofChars_local (cs : List Char) :
    ofChars 'l' ('o' :: 'c' :: 'a' :: 'l' :: ' ' :: cs)
      = .plain (.keyword .local_) ['l', 'o', 'c', 'a', 'l'] (' ' :: cs) := by
  have hkind : Word.kindOf ['l', 'o', 'c', 'a', 'l'] = .keyword .local_ := by decide +kernel
  rw [ofChars_of_letter rfl, ← hkind]
  rfl

lemma Scanned.ofChars_documented {blanks : List Char} (offset : Nat) (lines : List DocLine)
    (indent : Indent) (back : List Char) (hblanks : ∀ c ∈ blanks, isSpace c = true) :
    ∃ (first : Indent) (pieces : List Trivia) (x : Scanned) (others : List Scanned),
      ofChars offset (blanks ++ DocLine.declaration lines indent back) = x :: others
      ∧ x.token.kind = .keyword .local_
      ∧ x.token.span.start
        = offset + byteSize (blanks ++ (DocLine.written lines ++ indent.chars))
      ∧ x.token.trivia
        = (Gap.ofChars offset (blanks ++ DocLine.declaration lines indent back)).trivia
      ∧ x.token.trivia = Trivia.blank offset (blanks ++ first.chars) ++ pieces
      ∧ Trivia.Documents (lines.map (·.text)) pieces := by
  have hletter : Char.isAlpha 'l' = true := rfl
  obtain ⟨first, pieces, stop, hgap, hdocuments⟩ := Gap.ofChars_documented
    ('o' :: 'c' :: 'a' :: 'l' :: ' ' :: 'x' :: back) hletter offset lines indent hblanks
  rw [← DocLine.declaration] at hgap
  have hcons := ofChars_of_cons (congrArg Gap.rest hgap)
  rw [Lexeme.ofChars_local] at hcons
  have hstop : stop + byteSize ('l' :: 'o' :: 'c' :: 'a' :: 'l' :: ' ' :: 'x' :: back)
      = offset + byteSize (blanks ++ DocLine.declaration lines indent back) := by
    rw [← Gap.ofChars_stop offset, hgap]
  have hstart : stop = offset + byteSize (blanks ++ (DocLine.written lines ++ indent.chars)) := by
    simp only [DocLine.declaration, byteSize_append] at hstop ⊢
    omega
  refine ⟨first, pieces, _, _, hcons, rfl, ?_, rfl, congrArg Gap.trivia hgap, hdocuments⟩
  exact (congrArg Gap.stop hgap).trans hstart

namespace Lexed

/-- **Documentation is read as it was written**: the lines of comment above a declaration are the
documentation of its first token, whatever they say and however far they are indented. Of a text
that an empty line separates from them nothing is taken along. -/
theorem docComment_written {front : String} {lines : List DocLine} (indent : Indent)
    (back : String) (hfront : front = ""
      ∨ ∃ chunk, Diagnostic.Harmless (ofSource chunk).diagnostics ∧ front = chunk ++ "\n\n")
    (hlines : lines ≠ []) :
    ∃ before t after, (ofSource (front ++ String.ofList (DocLine.written lines)
        ++ String.ofList indent.chars ++ "local x" ++ back)).tokens = before ++ t :: after
      ∧ t.kind = .keyword .local_
      ∧ t.span.start = byteSize (front ++ String.ofList (DocLine.written lines)
        ++ String.ofList indent.chars).toList
      ∧ Trivia.docComment? t.trivia = some (String.intercalate "\n" (lines.map (·.text))) := by
  have htext : (front ++ String.ofList (DocLine.written lines)
      ++ String.ofList indent.chars ++ "local x" ++ back).toList
        = front.toList ++ DocLine.declaration lines indent back.toList := by
    simp [DocLine.declaration]
  have hne : lines.map (·.text) ≠ [] := by simpa using hlines
  simp only [ofSource, htext]
  rcases hfront with rfl | ⟨chunk, hchunk, rfl⟩
  · obtain ⟨first, pieces, x, others, hscan, hkind, hstart, -, htrivia, hdocuments⟩ :=
      Scanned.ofChars_documented 0 lines indent back.toList (List.forall_mem_nil _)
    refine ⟨[], x.token, others.map (·.token), ?_, hkind, ?_, ?_⟩
    · exact congrArg (List.map (·.token)) hscan
    · simpa using hstart
    · rw [htrivia, hdocuments.docComment? Trivia.docRun_blank hne]
  · obtain ⟨above, blanks, start, hblanks, heq, -, hsize⟩ := Scanned.ofChars_across
      ('\n' :: DocLine.declaration lines indent back.toList) (harmless_scanned hchunk)
    have hspace : ∀ c ∈ blanks ++ ['\n', '\n'], isSpace c = true :=
      List.forall_mem_append.2 ⟨hblanks, by simp [isSpace]⟩
    obtain ⟨first, pieces, x, others, hscan, hkind, hstart, hgap, htrivia, hdocuments⟩ :=
      Scanned.ofChars_documented start lines indent back.toList hspace
    rw [List.append_assoc, List.cons_append, List.cons_append, List.nil_append] at hscan hgap
    rw [hscan, ← hgap] at heq
    refine ⟨(Scanned.ofChars 0 chunk.toList).dropLast.map (·.token),
      (x.behind (above ++ x.token.trivia)).token, others.map (·.token), ?_, hkind, ?_, ?_⟩
    · have hfeeds : (chunk ++ "\n\n").toList ++ DocLine.declaration lines indent back.toList
          = chunk.toList ++ '\n' :: '\n' :: DocLine.declaration lines indent back.toList := by
        simp
      rw [hfeeds, heq]
      simp
    · have hstop : (x.behind (above ++ x.token.trivia)).token.span.start = x.token.span.start := rfl
      rw [hstop, hstart]
      simp only [String.toList_append, String.toList_ofList, byteSize_append] at hsize ⊢
      have hfeeds : byteSize "\n\n".toList = byteSize ['\n', '\n'] := by decide
      omega
    · have hempty : 2 ≤ (blanks ++ ['\n', '\n'] ++ first.chars).count '\n' := by
        simp only [List.count_append]
        exact Nat.le_trans (by decide) (Nat.le_trans (Nat.le_add_left _ _) (Nat.le_add_right _ _))
      have hwhole : (x.behind (above ++ x.token.trivia)).token.trivia
          = above ++ Trivia.blank start (blanks ++ ['\n', '\n'] ++ first.chars) ++ pieces := by
        rw [List.append_assoc, ← htrivia]
        rfl
      rw [hwhole, hdocuments.docComment? (Trivia.docRun_of_empty_line hempty) hne]

/-- Brackets behind the dashes open no long comment, and what is documented above is left out. -/
theorem docComment_written_below :
    ∃ before t after,
      (ofSource "--- Old.\n\n  --- [[One.\n\t--- - two\nlocal x").tokens = before ++ t :: after
      ∧ t.kind = .keyword .local_ ∧ t.span.start = 34
      ∧ Trivia.docComment? t.trivia = some "[[One.\n- two" := by
  have hgap : Gap.ofChars 0 "--- Old.".toList
      = ⟨[⟨.lineComment, "--- Old.", ⟨0, 8⟩⟩], 8, [], []⟩ := by
    have hpiece : Gap.piece? "--- Old.".toList
        = some ⟨.lineComment, "--- Old.".toList, [], []⟩ := rfl
    rw [Gap.ofChars_of_some hpiece, Gap.ofChars_of_none rfl, String.ofList_toList]
    rfl
  have hquiet : (ofSource "--- Old.").diagnostics = [] := by
    rw [ofSource, Scanned.ofChars_of_nil (by rw [hgap]), hgap]
    rfl
  let first : DocLine := ⟨⟨[' ', ' '], by simp⟩, "[[One.", by simp, by simp [isBlank]⟩
  let second : DocLine := ⟨⟨['\t'], by simp⟩, "- two", by simp, by simp [isBlank]⟩
  have hfront : "--- Old.\n\n" = "" ∨ ∃ chunk,
      Diagnostic.Harmless (ofSource chunk).diagnostics ∧ "--- Old.\n\n" = chunk ++ "\n\n" :=
    .inr ⟨"--- Old.", hquiet ▸ Diagnostic.harmless_nil, by decide +kernel⟩
  obtain ⟨before, t, after, htokens, hkind, hstart, hdoc⟩ := docComment_written
    ⟨[], by simp⟩ "" hfront (List.cons_ne_nil first [second])
  refine ⟨before, t, after, ?_, hkind, ?_, ?_⟩
  · rw [← htokens]
    exact congrArg (fun text => (ofSource text).tokens) (by decide +kernel)
  · rw [hstart]
    decide +kernel
  · rw [hdoc]
    decide +kernel

end Lexed

end LuaFront
