import LuaFront.Proofs.Lexeme.Alone
import LuaFront.Proofs.Lexeme.Tiling
import LuaFront.Syntax.StringValue

/-!
Where a long bracket ends. The scan goes over its text once and takes whole runs of equals signs
along with the brackets in front of them; still it ends at the first closing bracket of its level,
however that overlaps with what looked like one before it, and with the text if there is none.
-/

namespace LuaFront

open Text

namespace LongBracket

/-- The first place where a pattern stands in a text. -/
structure First (pattern text front back : List Char) : Prop where
  text_eq : text = front ++ pattern ++ back
  least : ∀ front' back', text = front' ++ pattern ++ back' → front.length ≤ front'.length

/-- What a long bracket takes of the text behind its opening: all up to the first closing bracket of
its level, which it takes too, or all of the text. -/
inductive Takes (level : Nat) (text : List Char) : Body → Prop
  | closed (front back : List Char) : First (closing level) text front back →
    Takes level text ⟨front ++ closing level, back, true⟩
  | unfinished : ¬ closing level <:+: text → Takes level text ⟨text, [], false⟩

variable {level : Nat} {passed text front back : List Char} {b : Body}

lemma First.unique {pattern front' back' : List Char} (h : First pattern text front back)
    (h' : First pattern text front' back') : front = front' ∧ back = back' := by
  have hlength : front.length = front'.length :=
    Nat.le_antisymm (h.least _ _ h'.text_eq) (h'.least _ _ h.text_eq)
  have hboth := h.text_eq.symm.trans h'.text_eq
  rw [List.append_assoc, List.append_assoc] at hboth
  obtain ⟨hfront, hrest⟩ := List.append_inj hboth hlength
  exact ⟨hfront, List.append_cancel_left hrest⟩

/-- What no closing bracket begins in can be left out of the search. -/
lemma Takes.skip (h : Takes level text b)
    (hskip : ∀ front back, passed ++ text = front ++ closing level ++ back →
      passed.length ≤ front.length) :
    Takes level (passed ++ text) { b with text := passed ++ b.text } := by
  have hinner : ∀ front back, passed ++ text = front ++ closing level ++ back →
      ∃ inner, front = passed ++ inner ∧ text = inner ++ closing level ++ back := by
    intro front back htext
    have hprefix : passed <+: front := by
      refine List.prefix_of_prefix_length_le (List.prefix_append passed text) ?_ (hskip _ _ htext)
      rw [htext, List.append_assoc]
      exact List.prefix_append ..
    obtain ⟨inner, rfl⟩ := hprefix
    have hrest : passed ++ text = passed ++ (inner ++ closing level ++ back) := by
      rw [htext, List.append_assoc, List.append_assoc, List.append_assoc]
    exact ⟨inner, rfl, List.append_cancel_left hrest⟩
  cases h with
  | closed front back hfirst =>
    have htext : passed ++ text = passed ++ front ++ closing level ++ back := by
      rw [hfirst.text_eq, List.append_assoc, List.append_assoc, List.append_assoc]
    have hleast : ∀ front' back', passed ++ text = front' ++ closing level ++ back' →
        (passed ++ front).length ≤ front'.length := by
      intro front' back' htext'
      obtain ⟨inner, rfl, hinner⟩ := hinner _ _ htext'
      rw [List.length_append, List.length_append]
      exact Nat.add_le_add_left (hfirst.least _ _ hinner) _
    have hclosed := Takes.closed (passed ++ front) back ⟨htext, hleast⟩
    rwa [List.append_assoc] at hclosed
  | unfinished hnot =>
    refine Takes.unfinished ?_
    rintro ⟨front, back, htext⟩
    obtain ⟨inner, -, hinner⟩ := hinner front back htext.symm
    exact hnot ⟨inner, back, hinner.symm⟩

/-- No closing bracket begins in a square bracket and equals signs that do not make one up. -/
lemma not_in_signs {cs : List Char}
    (h : ¬ ((cs.takeWhile (· = '=')).length = level
      && (cs.dropWhile (· = '=')).head? = some ']') = true)
    (htext : ']' :: cs = front ++ closing level ++ back) :
    (']' :: cs.takeWhile (· = '=')).length ≤ front.length := by
  cases front with
  | nil =>
    -- Here the signs would make one up.
    have hcs : cs = List.replicate level '=' ++ ']' :: back := by
      simpa [closing] using (List.cons.inj htext).2
    obtain ⟨htake, hdrop⟩ := takeWhile_signs (by decide : ']' ≠ '=') level back
    rw [hcs, htake, hdrop] at h
    simp at h
  | cons d front =>
    -- Further on there are signs only.
    have hcs : cs.takeWhile (· = '=') ++ cs.dropWhile (· = '=')
        = front ++ (closing level ++ back) := by
      rw [List.takeWhile_append_dropWhile, ← List.append_assoc]
      exact (List.cons.inj htext).2
    rcases List.append_eq_append_iff.1 hcs with ⟨more, rfl, -⟩ | ⟨more, hsigns, hmore⟩
    · simp
    · cases more with
      | nil => rw [hsigns, List.append_nil, List.length_cons, List.length_cons]
      | cons e more =>
        have he : e = ']' := (List.cons.inj hmore).1.symm
        have hmem : e ∈ cs.takeWhile (· = '=') := by rw [hsigns]; simp
        have heq : e = '=' := by simpa using List.mem_takeWhile_imp hmem
        rw [he] at heq
        cases heq

/-- **A long bracket ends at the first closing bracket of its level.** -/
theorem body_takes (level : Nat) (text : List Char) : Takes level text (body level text) := by
  fun_induction body level text with
  | case1 =>
    refine .unfinished fun hinfix => ?_
    simp [closing] at hinfix
  | case2 cs signs after hclose =>
    have hcs : signs ++ after = cs := List.takeWhile_append_dropWhile
    obtain ⟨hlength, hhead⟩ : signs.length = level ∧ after.head? = some ']' := by
      simpa only [Bool.and_eq_true, decide_eq_true_eq] using hclose
    obtain ⟨rest, hrest⟩ := List.head?_eq_some_iff.1 hhead
    have hclosing : closing level = ']' :: signs ++ [']'] := by
      have hsigns : signs = List.replicate signs.length '=' := List.eq_replicate_of_mem
        fun c hc => by simpa using List.mem_takeWhile_imp hc
      rw [closing, ← hlength, ← hsigns]
    have htext : ']' :: cs = [] ++ closing level ++ rest := by
      rw [← hcs, hrest, hclosing]
      simp
    rw [hrest, ← hclosing]
    exact .closed [] rest ⟨htext, fun _ _ _ => Nat.zero_le _⟩
  | case3 cs signs after hclose inner ih =>
    have hcs : ']' :: signs ++ after = ']' :: cs :=
      congrArg (List.cons ']') List.takeWhile_append_dropWhile
    rw [← hcs]
    exact ih.skip fun _ _ htext => not_in_signs hclose (hcs.symm.trans htext)
  | case4 c cs hc inner ih =>
    change Takes level ([c] ++ cs) { inner with text := [c] ++ inner.text }
    refine ih.skip fun front back htext => ?_
    cases front with
    | nil => exact absurd (List.cons.inj htext).1 hc
    | cons d front => simp

lemma body_of_first (h : First (closing level) text front back) :
    body level text = ⟨front ++ closing level, back, true⟩ := by
  have htakes := body_takes level text
  generalize body level text = b at htakes ⊢
  cases htakes with
  | closed front' back' h' =>
    obtain ⟨rfl, rfl⟩ := h.unique h'
    rfl
  | unfinished hnot => exact absurd ⟨front, back, h.text_eq.symm⟩ hnot

/-- A stretch of text that begins with a mark, behind what is in front of it, and takes of the text
after the mark what a long bracket takes. -/
structure Holds (level : Nat) (front mark text : List Char) (s : Stretch) (b : Body) : Prop where
  takes : Takes level text b
  text : s.text.toList = mark ++ b.text
  span : s.span = ⟨byteSize front, byteSize (front ++ mark ++ b.text)⟩

end LongBracket

open LongBracket

/-! ### Long strings and block comments -/

lemma opening_eq_cons (level : Nat) : ∃ tail, opening level = '[' :: tail
    ∧ ∀ text, (tail ++ text).head? = some '[' ∨ (tail ++ text).head? = some '=' := by
  cases level with
  | zero => exact ⟨['['], rfl, fun _ => .inl rfl⟩
  | succ level => exact ⟨'=' :: List.replicate level '=' ++ ['['], rfl, fun _ => .inr rfl⟩

lemma Lexeme.ofChars_opening {level : Nat} {c : Char} {cs text : List Char}
    (h : c :: cs = opening level ++ text) :
    ofChars c cs = LongBracket.scan (opening level ++ text) := by
  obtain ⟨tail, hopening, hsecond⟩ := opening_eq_cons level
  rw [hopening, List.cons_append] at h ⊢
  obtain ⟨rfl, rfl⟩ := List.cons.inj h
  exact ofChars_bracket (hsecond text)

lemma Gap.comment_opening (level : Nat) (text : List Char) :
    comment (opening level ++ text) = ⟨.blockComment,
      '-' :: '-' :: (opening level ++ (body level text).text), (body level text).rest,
      if (body level text).closed then []
      else [.error (Lexeme.spanOf ('-' :: '-' :: (opening level ++ (body level text).text)))
        "unfinished long comment" []]⟩ := by
  simp only [comment, level?_opening, bracket_opening]

lemma Gap.piece?_dashes (cs : List Char) : piece? ('-' :: '-' :: cs) = some (comment cs) := rfl

/-- What stands for the end of a text is empty and stands there. -/
lemma Lexed.span_eof {source : String} {t : Token} (ht : t ∈ (ofSource source).tokens)
    (hkind : t.kind = .eof) : t.span = .empty (byteSize source.toList) := by
  obtain ⟨read, last, -, heq, hread, -, -, -, -, hspan⟩ := Scanned.ofChars_laid 0 source.toList
  obtain ⟨x, hx, rfl⟩ := List.mem_map.1 ht
  rw [heq, List.mem_append, List.mem_singleton] at hx
  rcases hx with hx | rfl
  · exact absurd hkind (hread x hx).kind
  · rw [hspan, Nat.zero_add]

/-- A long string of a text, what it takes after its opening, and all that is reported about it. -/
structure Lexed.LongString (source : String) (level : Nat) (front text : List Char) (t : Token)
    (b : Body) : Prop where
  holds : Holds level front (opening level) text ⟨t.span, t.text⟩ b
  kind : t.kind = if b.closed then .string else .invalid
  reports : (ofSource source).diagnostics.filter (t.span.encloses ·.span)
    = if b.closed then [] else [.error t.span "unfinished long string" []]

/-- The same of a block comment. -/
structure Lexed.BlockComment (source : String) (level : Nat) (front text : List Char) (p : Trivia)
    (b : Body) : Prop where
  holds : Holds level front ('-' :: '-' :: opening level) text p.stretch b
  kind : p.kind = .blockComment
  reports : (ofSource source).diagnostics.filter (p.span.encloses ·.span)
    = if b.closed then [] else [.error p.span "unfinished long comment" []]

section Places

variable {level : Nat} {source : String} {front text : List Char} {t : Token} {p : Trivia}

lemma Lexed.longString (ht : t ∈ (ofSource source).tokens)
    (hsource : source.toList = front ++ opening level ++ text)
    (hstart : t.span.start = byteSize front) : ∃ b, LongString source level front text t b := by
  have hkind : t.kind ≠ .eof := by
    intro heof
    have hsize : byteSize front = byteSize source.toList :=
      hstart.symm.trans (congrArg Span.start (span_eof ht heof))
    have hpos : 0 < byteSize (opening level) := byteSize_pos (List.cons_ne_nil _ _)
    rw [hsource, byteSize_append, byteSize_append] at hsize
    omega
  obtain ⟨x, hx, rfl⟩ := List.mem_map.1 ht
  obtain ⟨front', c, cs, h⟩ := Scanned.exists_reading 0 source.toList x hx hkind
  have hboth := hsource.symm.trans h.text_eq
  rw [List.append_assoc] at hboth
  obtain rfl := front_eq hboth (hstart.symm.trans (h.start.trans (Nat.zero_add _)))
  have hlexeme := Lexeme.ofChars_opening (List.append_cancel_left hboth).symm
  rw [scan_opening] at hlexeme
  have htext : (Lexeme.ofChars c cs).text = opening level ++ (body level text).text := by
    rw [hlexeme]
    split <;> rfl
  have hspan : x.token.span = ⟨byteSize front,
      byteSize (front ++ opening level ++ (body level text).text)⟩ := by
    have hstop := h.stop
    rw [hstart, htext, ← byteSize_append, ← List.append_assoc] at hstop
    rw [← hstart, ← hstop]
  refine ⟨body level text, ⟨body_takes level text, ?_, hspan⟩, ?_, ?_⟩
  · rw [h.text, String.toList_ofList, htext]
  · rw [h.kind, hlexeme]
    split <;> rfl
  · refine h.reports.trans ?_
    rw [hlexeme]
    split
    · rfl
    · simp [Lexeme.malformed, Lexeme.spanOf, Diagnostic.shift, Diagnostic.error, Span.shift, hspan,
        Nat.add_comm]

lemma Lexed.blockComment (ht : t ∈ (ofSource source).tokens) (hp : p ∈ t.trivia)
    (hsource : source.toList = front ++ ('-' :: '-' :: opening level) ++ text)
    (hstart : p.span.start = byteSize front) : ∃ b, BlockComment source level front text p b := by
  obtain ⟨x, hx, rfl⟩ := List.mem_map.1 ht
  obtain ⟨front', rest, piece, h⟩ := Scanned.exists_piece 0 source.toList x hx p hp
  have hboth := hsource.symm.trans h.text_eq
  rw [List.append_assoc] at hboth
  have hstart' : p.span.start = byteSize front' := by rw [h.trivia_eq, Nat.zero_add]
  obtain rfl := front_eq hboth (hstart.symm.trans hstart')
  have htaken := h.taken
  rw [← List.append_cancel_left hboth, List.cons_append, List.cons_append, Gap.piece?_dashes,
    Gap.comment_opening, Option.some_inj] at htaken
  have hspan : p.span = ⟨byteSize front,
      byteSize (front ++ ('-' :: '-' :: opening level) ++ (body level text).text)⟩ := by
    rw [h.trivia_eq, ← htaken, Nat.zero_add, List.append_assoc, byteSize_append]
    rfl
  refine ⟨body level text, ⟨body_takes level text, ?_, hspan⟩, ?_, ?_⟩
  · rw [Trivia.stretch, h.trivia_eq, ← htaken, String.toList_ofList]
    rfl
  · rw [h.trivia_eq, ← htaken]
  · refine h.reports.trans ?_
    rw [← htaken]
    split
    · rfl
    · simp [Lexeme.spanOf, Diagnostic.shift, Diagnostic.error, Span.shift, hspan, Nat.add_comm]

/-- At the start of a text there is one. -/
lemma Lexed.exists_longString (hsource : source.toList = opening level ++ text) :
    ∃ t ∈ (ofSource source).tokens, t.span.start = 0 := by
  obtain ⟨tail, hopening, -⟩ := opening_eq_cons level
  rw [hopening, List.cons_append] at hsource
  have hgap : Gap.ofChars 0 source.toList = ⟨[], 0, source.toList, []⟩ := by
    rw [hsource]
    exact Gap.ofChars_of_none (Gap.piece?_eq_none_iff.2 ⟨rfl, by simp⟩)
  have hscanned := Scanned.ofChars_of_cons (by rw [hgap, hsource])
  refine ⟨_, List.mem_map_of_mem (hscanned ▸ List.mem_cons_self), ?_⟩
  simp [Scanned.first, hgap]

lemma Lexed.exists_blockComment
    (hsource : source.toList = '-' :: '-' :: (opening level ++ text)) :
    ∃ t ∈ (ofSource source).tokens, ∃ p ∈ t.trivia, p.span.start = 0 := by
  have hgap : Gap.ofChars 0 source.toList = _ :=
    Gap.ofChars_of_some (hsource ▸ Gap.piece?_dashes _)
  obtain ⟨p, more, hp, hstart⟩ : ∃ p more, (Gap.ofChars 0 source.toList).trivia = p :: more
      ∧ p.span.start = 0 := ⟨_, _, congrArg Gap.trivia hgap, rfl⟩
  obtain ⟨x, hx, htrivia⟩ := Scanned.exists_gap 0 source.toList
  refine ⟨x.token, List.mem_map_of_mem hx, p, ?_, hstart⟩
  rw [htrivia, hp]
  exact List.mem_cons_self

end Places

/-! ### The value of a long string -/

/-- A text, and what is left of it without one line break at its front. -/
inductive Unbroken : List Char → List Char → Prop
  | crlf (cs : List Char) : Unbroken ('\r' :: '\n' :: cs) cs
  | lfcr (cs : List Char) : Unbroken ('\n' :: '\r' :: cs) cs
  | lf (cs : List Char) : cs.head? ≠ some '\r' → Unbroken ('\n' :: cs) cs
  | cr (cs : List Char) : cs.head? ≠ some '\n' → Unbroken ('\r' :: cs) cs
  | none (cs : List Char) : cs.head? ≠ some '\n' → cs.head? ≠ some '\r' → Unbroken cs cs

lemma StringValue.dropLineBreak_unbroken (cs : List Char) : Unbroken cs (dropLineBreak cs) := by
  unfold dropLineBreak
  split
  · exact .crlf _
  · exact .lfcr _
  · next hlfcr =>
    refine .lf _ fun hhead => ?_
    obtain ⟨tail, rfl⟩ := List.head?_eq_some_iff.1 hhead
    exact hlfcr tail rfl
  · next hcrlf =>
    refine .cr _ fun hhead => ?_
    obtain ⟨tail, rfl⟩ := List.head?_eq_some_iff.1 hhead
    exact hcrlf tail rfl
  · next hlf hcr =>
    refine .none _ (fun hhead => ?_) fun hhead => ?_
    · obtain ⟨tail, rfl⟩ := List.head?_eq_some_iff.1 hhead
      exact hlf tail rfl
    · obtain ⟨tail, rfl⟩ := List.head?_eq_some_iff.1 hhead
      exact hcr tail rfl

lemma byteSize_brackets (level : Nat) :
    byteSize (opening level) = level + 2 ∧ byteSize (closing level) = level + 2 := by
  have hsigns : byteSize (List.replicate level '=') = level := by
    induction level with
    | zero => rfl
    | succ level ih => rw [List.replicate_succ, byteSize, ih, Nat.add_comm]; rfl
  have hopen : '['.utf8Size = 1 := rfl
  have hclose : ']'.utf8Size = 1 := rfl
  simp only [opening, closing, List.cons_append, byteSize, byteSize_append, hsigns, hopen, hclose]
  omega

/-- The value of a long string stands between brackets of the width of the first. -/
lemma StringValue.ofText_bracket (level : Nat) (inside : List Char) :
    ofText (opening level ++ inside ++ closing level) = dropLineBreak inside := by
  obtain ⟨hopening, hclosing⟩ := byteSize_brackets level
  have htext : opening level ++ inside ++ closing level
      = '[' :: (List.replicate level '=' ++ '[' :: (inside ++ closing level)) := by
    simp [opening]
  have hwidth : (((opening level ++ inside ++ closing level).drop 1).takeWhile (· = '=')).length + 2
      = byteSize (opening level) := by
    rw [htext, List.drop_one, List.tail_cons,
      (takeWhile_signs (by decide : '[' ≠ '=') level _).1, List.length_replicate, hopening]
  have hsize : byteSize (opening level ++ inside ++ closing level) - byteSize (opening level)
      = byteSize (opening level ++ inside) := by
    rw [byteSize_append _ (closing level), hopening, hclosing, Nat.add_sub_cancel]
  have hhead : (opening level ++ inside ++ closing level).head? = some '[' := by rw [htext]; rfl
  rw [ofText, if_pos hhead, long]
  simp only [hwidth]
  rw [hsize, slice?_eq, if_neg]
  · rfl
  · rw [byteSize_append, byteSize_append, hopening, hclosing]
    omega

/-- A long string by itself. -/
lemma Lexed.ofSource_bracket {level : Nat} {s : List Char} {source : String}
    (hsource : source.toList = opening level ++ s ++ closing level)
    (h : First (closing level) (s ++ closing level) s []) :
    (ofSource source).tokens = [⟨.string, source, ⟨0, byteSize source.toList⟩, []⟩,
        ⟨.eof, "", .empty (byteSize source.toList), []⟩]
      ∧ (ofSource source).diagnostics = [] := by
  rw [List.append_assoc] at hsource
  obtain ⟨tail, hopening, -⟩ := opening_eq_cons level
  have hcons : source.toList = '[' :: (tail ++ (s ++ closing level)) := by
    rw [hsource, hopening, List.cons_append]
  have hgap : Gap.piece? ('[' :: (tail ++ (s ++ closing level))) = none :=
    Gap.piece?_eq_none_iff.2 ⟨rfl, by simp⟩
  have hlexeme : Lexeme.ofChars '[' (tail ++ (s ++ closing level))
      = .plain .string source.toList [] := by
    rw [Lexeme.ofChars_opening (hcons.symm.trans hsource), scan_opening, body_of_first h,
      if_pos rfl, hsource]
  have hscanned := Scanned.ofChars_single 0 hgap (by rw [hlexeme]; rfl)
  rw [hlexeme, ← hcons] at hscanned
  simp [ofSource, hscanned, Scanned.first, Lexeme.plain]

/-- **Long brackets close where they first can**, as strings and as comments, and otherwise are
reported as a whole. So a long string can hold any text in which its closing bracket stands nowhere,
not even together with its end. -/
theorem Lexed.brackets_close (level : Nat) :
    (∀ source front text, source.toList = front ++ opening level ++ text →
      (∀ t ∈ (ofSource source).tokens, t.span.start = byteSize front →
        ∃ b, LongString source level front text t b)
      ∧ (front = [] → ∃ t ∈ (ofSource source).tokens, t.span.start = 0))
    ∧ (∀ source front text, source.toList = front ++ ('-' :: '-' :: opening level) ++ text →
      (∀ t ∈ (ofSource source).tokens, ∀ p ∈ t.trivia, p.span.start = byteSize front →
        ∃ b, BlockComment source level front text p b)
      ∧ (front = [] → ∃ t ∈ (ofSource source).tokens, ∃ p ∈ t.trivia, p.span.start = 0))
    ∧ ∀ source s, source.toList = opening level ++ s ++ closing level →
      First (closing level) (s ++ closing level) s [] →
      ∃ t value, (ofSource source).tokens = [t, ⟨.eof, "", .empty (byteSize source.toList), []⟩]
        ∧ t = ⟨.string, source, ⟨0, byteSize source.toList⟩, []⟩
        ∧ (ofSource source).diagnostics = []
        ∧ Unbroken s value
        ∧ Literal.stringValue? ⟨.string, t⟩ = some (String.ofList value) := by
  refine ⟨fun source front text hsource => ⟨fun t ht => longString ht hsource, ?_⟩,
    fun source front text hsource => ⟨fun t ht p hp => blockComment ht hp hsource, ?_⟩,
    fun source s hsource h => ?_⟩
  · rintro rfl
    exact exists_longString hsource
  · rintro rfl
    exact exists_blockComment hsource
  · obtain ⟨htokens, hquiet⟩ := ofSource_bracket hsource h
    refine ⟨_, StringValue.dropLineBreak s, htokens, rfl, hquiet,
      StringValue.dropLineBreak_unbroken s, ?_⟩
    rw [Literal.stringValue?, if_pos rfl, hsource, StringValue.ofText_bracket]

/-- A bracket that closes nothing leaves a string unfinished; together with the next one it ends a
comment, and one that stands before the end belongs to the string. -/
theorem Lexed.brackets_close_overlap :
    (∃ b, LongString "x=[[]=]" 0 ['x', '='] [']', '=', ']'] ⟨.invalid, "[[]=]", ⟨2, 7⟩, []⟩ b)
      ∧ (∃ b, BlockComment "--[[]=]]" 0 [] [']', '=', ']', ']']
        ⟨.blockComment, "--[[]=]]", ⟨0, 8⟩⟩ b)
      ∧ ∃ t value, (ofSource "[=[\n]]=]").tokens = [t, ⟨.eof, "", .empty 8, []⟩]
        ∧ t = ⟨.string, "[=[\n]]=]", ⟨0, 8⟩, []⟩
        ∧ (ofSource "[=[\n]]=]").diagnostics = []
        ∧ Unbroken ['\n', ']'] value
        ∧ Literal.stringValue? ⟨.string, t⟩ = some (String.ofList value) := by
  have hstring : ⟨.invalid, "[[]=]", ⟨2, 7⟩, []⟩ ∈ (ofSource "x=[[]=]").tokens := by
    decide +kernel
  have hcomment : ⟨.eof, "", ⟨8, 8⟩, [⟨.blockComment, "--[[]=]]", ⟨0, 8⟩⟩]⟩
      ∈ (ofSource "--[[]=]]").tokens := by decide +kernel
  have hfirst : First (closing 1) (['\n', ']'] ++ closing 1) ['\n', ']'] [] := by
    refine ⟨by decide, fun front back htext => ?_⟩
    rcases front with _ | ⟨c, _ | ⟨d, front⟩⟩
    · simp [closing] at htext
    · simp [closing] at htext
    · simp
  refine ⟨((brackets_close 0).1 _ _ _ (by decide)).1 _ hstring (by decide),
    ((brackets_close 0).2.1 _ [] _ (by decide)).1 _ hcomment _ (by simp) (by decide), ?_⟩
  exact (brackets_close 1).2.2 _ _ (by decide) hfirst

end LuaFront
