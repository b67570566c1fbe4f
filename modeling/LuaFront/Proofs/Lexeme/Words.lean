import LuaFront.Proofs.Lexeme.Tiling
import Mathlib.Data.List.TakeWhile

/-!
Names stand apart. What is taken off a text before a name, be it a token, a blank or a comment,
ends in a character that belongs to no word; otherwise the name would have been taken along.
-/

namespace LuaFront

open Text

namespace Word

/-- No word runs from the one text on into the other. -/
def Apart (text rest : List Char) : Prop :=
  ∀ c ∈ text.getLast?, ∀ d ∈ rest.head?, isInner c = true → isInner d = false

variable {text rest : List Char}

lemma apart_of_last (h : ∀ c ∈ text.getLast?, isInner c = false) : Apart text rest := by
  intro c hc d _ hinner
  rw [h c hc] at hinner
  cases hinner

lemma apart_of_head (h : ∀ d ∈ rest.head?, isInner d = false) : Apart text rest :=
  fun _ _ d hd _ => h d hd

lemma Apart.append (pre : List Char) (h : Apart text rest) (hne : text ≠ []) :
    Apart (pre ++ text) rest := by
  intro c hc
  rw [List.getLast?_append, List.getLast?_eq_some_getLast hne, Option.some_or,
    ← List.getLast?_eq_some_getLast hne] at hc
  exact h c hc

lemma isInner_of_isStart {c : Char} (h : isStart c = true) : isInner c = true := by
  simp only [isStart, isInner, Char.isAlphanum] at h ⊢
  grind

lemma isInner_of_isSpace {c : Char} (h : isSpace c = true) : isInner c = false := by
  simp only [isSpace, Bool.or_eq_true, decide_eq_true_eq] at h
  rcases h with ((((rfl | rfl) | rfl) | rfl) | rfl) | rfl <;> decide

lemma head_dropWhile {p : Char → Bool} (cs : List Char) :
    ∀ d ∈ (cs.dropWhile p).head?, p d = false := by
  intro d hd
  have hne : cs.dropWhile p ≠ [] := by
    rintro hnil
    simp [hnil] at hd
  rw [List.head?_eq_some_head hne, Option.mem_some_iff] at hd
  rw [← hd]
  simpa using List.head_dropWhile_not p hne

end Word

open Word

/-! ### Lexemes -/

/-- A string ends in its quote, or before a line end. -/
lemma Quoted.body_end (quote : Char) (offset : Offset) (cs : List Char) :
    (body quote offset cs).text.getLast? = some quote
      ∨ ∀ d ∈ (body quote offset cs).rest.head?, d = '\n' ∨ d = '\r' := by
  fun_induction body quote offset cs with
  | case1 => exact .inr (by simp)
  | case2 offset c cs h => exact .inr (by simpa using h)
  | case3 => exact .inl rfl
  | case4 offset cs e stop inner _ _ ih =>
    refine ih.imp_left fun h => ?_
    simp only [inner] at h ⊢
    rw [List.getLast?_append, h]
    rfl
  | case5 offset c cs _ _ _ inner ih =>
    refine ih.imp_left fun h => ?_
    simp only [inner] at h ⊢
    rw [List.getLast?_cons, h]
    rfl

lemma Quoted.scan_apart {quote : Char} (cs : List Char) (h : isInner quote = false) :
    Apart (scan quote cs).text (scan quote cs).rest := by
  have htext : (scan quote cs).text = quote :: (body quote 1 (cs.drop 1)).text := rfl
  have hrest : (scan quote cs).rest = (body quote 1 (cs.drop 1)).rest := rfl
  rw [htext, hrest]
  rcases body_end quote 1 (cs.drop 1) with hlast | hhead
  · refine apart_of_last fun c hc => ?_
    rw [List.getLast?_cons, hlast, Option.mem_some_iff] at hc
    rwa [← hc]
  · refine apart_of_head fun d hd => ?_
    rcases hhead d hd with rfl | rfl <;> decide

/-- A long bracket ends in a bracket, or with the text. -/
lemma LongBracket.bracket_apart (level : Nat) (cs : List Char) :
    Apart (bracket level cs).text (bracket level cs).rest := by
  have hbody : ∀ ds, (body level ds).text.getLast? = some ']' ∨ (body level ds).rest = [] := by
    intro ds
    fun_induction body level ds with
    | case1 => exact .inr rfl
    | case2 => exact .inl List.getLast?_concat
    | case3 ds signs after _ inner ih =>
      refine ih.imp_left fun h => ?_
      rw [List.getLast?_append, h]
      rfl
    | case4 d ds _ inner ih =>
      refine ih.imp_left fun h => ?_
      rw [List.getLast?_cons, h]
      rfl
  have htext : (bracket level cs).text
      = cs.take (level + 2) ++ (body level (cs.drop (level + 2))).text := rfl
  have hrest : (bracket level cs).rest = (body level (cs.drop (level + 2))).rest := rfl
  rw [htext, hrest]
  rcases hbody (cs.drop (level + 2)) with hlast | hnil
  · refine apart_of_last fun c hc => ?_
    rw [List.getLast?_append, hlast] at hc
    cases hc
    decide
  · refine apart_of_head ?_
    rw [hnil]
    simp

lemma LongBracket.scan_apart (cs : List Char) :
    Apart (scan ('[' :: cs)).text (scan ('[' :: cs)).rest := by
  unfold scan
  split
  · dsimp only
    split <;> exact bracket_apart _ _
  · refine apart_of_last fun c hc => ?_
    have hmem : c ∈ '[' :: cs.takeWhile (· = '=') := List.mem_of_getLast? hc
    rcases List.mem_cons.1 hmem with rfl | hmem
    · decide
    · have hc : c = '=' := by simpa using List.mem_takeWhile_imp hmem
      rw [hc]
      decide

namespace Lexeme

lemma symbol_apart {c : Char} (cs : List Char) (hc : isInner c = false) :
    Apart (symbol c cs).text (symbol c cs).rest := by
  unfold symbol
  split
  · next sign _ =>
    refine apart_of_last fun d hd => ?_
    have hsign : sign.chars.all (! isInner ·) = true := by cases sign <;> decide
    simpa using List.all_eq_true.1 hsign d (List.mem_of_getLast? hd)
  · refine apart_of_last fun d hd => ?_
    cases hd
    exact hc

/-- A word ends where a lexeme does. -/
lemma ofChars_apart (c : Char) (cs : List Char) :
    Apart (ofChars c cs).text (ofChars c cs).rest := by
  unfold ofChars
  split
  · next h =>
    refine Quoted.scan_apart _ ?_
    simp only [Bool.or_eq_true, decide_eq_true_eq] at h
    rcases h with rfl | rfl <;> decide
  split
  · next h =>
    simp only [Bool.and_eq_true, decide_eq_true_eq] at h
    rw [h.1]
    exact LongBracket.scan_apart cs
  split
  · refine apart_of_head fun d hd => ?_
    obtain ⟨rest, hrest⟩ := List.head?_eq_some_iff.1 hd
    have htail := Numeral.not_isTail_of_rest hrest
    simp only [Numeral.isTail, Bool.or_eq_false_iff] at htail
    exact htail.2
  split
  · exact apart_of_head (head_dropWhile _)
  · next hdigit hstart =>
    refine symbol_apart cs ?_
    simp only [isStart, isInner, Char.isAlphanum] at hstart hdigit ⊢
    grind

/-- A name is a word. -/
lemma ofChars_of_ident {c : Char} {cs : List Char} (h : (ofChars c cs).kind = .ident) :
    isStart c = true ∧ ∀ d ∈ (ofChars c cs).text, isInner d = true := by
  unfold ofChars at h ⊢
  split at h
  · unfold Quoted.scan at h
    dsimp only at h
    split at h <;> cases h
  split at h
  · unfold LongBracket.scan at h
    split at h
    · dsimp only at h
      split at h <;> cases h
    · cases h
  split at h
  · unfold Numeral.scan at h
    dsimp only at h
    split at h <;> cases h
  split at h
  · next h₁ h₂ h₃ hstart =>
    rw [if_neg h₁, if_neg h₂, if_neg h₃, if_pos hstart]
    exact ⟨hstart, fun d hd => List.mem_takeWhile_imp hd⟩
  · unfold symbol at h
    split at h <;> cases h

end Lexeme

/-! ### Gaps -/

namespace Gap

lemma comment_apart (cs : List Char) : Apart (comment cs).text (comment cs).rest := by
  unfold comment
  split
  · next level _ =>
    have hbracket := LongBracket.bracket_apart level cs
    by_cases hne : (LongBracket.bracket level cs).text = []
    · refine apart_of_last fun c hc => ?_
      simp only [hne, List.getLast?_cons_cons, List.getLast?_singleton, Option.mem_some_iff] at hc
      rw [← hc]
      decide
    · exact hbracket.append ['-', '-'] hne
  · refine apart_of_head fun d hd => ?_
    have hd := head_dropWhile cs d hd
    simp only [ne_eq, decide_not, Bool.not_eq_false', decide_eq_true_eq] at hd
    rw [hd]
    decide

lemma piece?_apart {cs : List Char} {p : Piece} (h : piece? cs = some p) :
    Apart p.text p.rest := by
  unfold piece? at h
  split at h
  · cases h
  split at h
  · next c cs hspace =>
    cases h
    refine apart_of_last fun d hd => isInner_of_isSpace ?_
    rcases List.mem_cons.1 (List.mem_of_getLast? hd) with rfl | hmem
    · exact hspace
    · exact List.mem_takeWhile_imp hmem
  split at h
  · cases h
    exact comment_apart _
  · cases h

/-- Words that stand apart before a gap stand apart after it. -/
lemma ofChars_apart {pre cs : List Char} (offset : Offset) (h : Apart pre cs) :
    ∃ taken, cs = taken ++ (ofChars offset cs).rest
      ∧ (ofChars offset cs).stop = offset + byteSize taken
      ∧ Apart (pre ++ taken) (ofChars offset cs).rest := by
  fun_induction ofChars offset cs generalizing pre
  case case1 offset cs => exact ⟨[], rfl, rfl, by rwa [List.append_nil]⟩
  case case2 offset cs piece hpiece stop inner ih =>
    have happart := (piece?_apart hpiece).append pre (piece?_text_ne_nil hpiece)
    obtain ⟨taken, hrest, hstop, htaken⟩ := ih happart
    refine ⟨piece.text ++ taken, ?_, ?_, ?_⟩
    · rw [List.append_assoc, ← hrest, piece?_append hpiece]
    · rw [byteSize_append, ← Nat.add_assoc]
      exact hstop
    · rw [← List.append_assoc]
      exact htaken

end Gap

/-! ### A text -/

/-- A name, and that no more of the text before it belongs to it. -/
structure Named (source : List Char) (t : Token) (front back : List Char) : Prop where
  text_eq : source = front ++ t.text.toList ++ back
  span_eq : t.span = ⟨byteSize front, byteSize (front ++ t.text.toList)⟩
  inner : ∀ c ∈ t.text.toList, isInner c = true
  apart : ∀ c ∈ front.getLast?, isInner c = false

lemma Scanned.named {pre cs : List Char} {offset : Offset} {s : Scanned}
    (hoffset : offset = byteSize pre) (happart : Apart pre cs) (hs : s ∈ ofChars offset cs)
    (hkind : s.token.kind = .ident) : ∃ front back, Named (pre ++ cs) s.token front back := by
  fun_induction ofChars offset cs generalizing pre
  case case1 =>
    cases List.mem_singleton.1 hs
    cases hkind
  case case2 offset cs gap c rest hrest _ _ lexeme stop token ih =>
    obtain ⟨taken, hcs, hstop, hgap⟩ := Gap.ofChars_apart offset happart
    have happend : lexeme.text ++ lexeme.rest = c :: rest := Lexeme.ofChars_append c rest
    have hfront : gap.stop = byteSize (pre ++ taken) := by
      rw [byteSize_append, ← hoffset]
      exact hstop
    have hsource : pre ++ cs = pre ++ taken ++ lexeme.text ++ lexeme.rest := by
      rw [List.append_assoc _ lexeme.text, happend, ← hrest, List.append_assoc]
      exact congrArg (pre ++ ·) hcs
    rcases List.mem_cons.1 hs with rfl | hs
    · obtain ⟨hstart, hinner⟩ := Lexeme.ofChars_of_ident hkind
      refine ⟨pre ++ taken, lexeme.rest, ?_, ?_, ?_, fun d hd => ?_⟩
      · simpa [token] using hsource
      · simp [token, stop, hfront, Nat.add_assoc]
      · simpa [token] using hinner
      · have hhead : c ∈ gap.rest.head? := by simp [hrest]
        have hapart := hgap d hd c hhead
        have hc : isInner c = true := isInner_of_isStart hstart
        grind
    · rw [hsource]
      refine ih ?_ ((Lexeme.ofChars_apart c rest).append _ (Lexeme.ofChars_text_ne_nil c rest)) hs
      rw [byteSize_append, ← hfront]

/-- **Names stand apart.** -/
lemma Lexed.named {source : String} {t : Token} (ht : t ∈ (ofSource source).tokens)
    (hkind : t.kind = .ident) : ∃ front back, Named source.toList t front back := by
  obtain ⟨s, hs, rfl⟩ := List.mem_map.1 ht
  have happart : Apart [] source.toList := apart_of_last (by simp)
  exact Scanned.named rfl happart hs hkind

/-- No name begins where another one ends. -/
lemma Lexed.names_apart {source : String} {t u : Token} (ht : t ∈ (ofSource source).tokens)
    (hu : u ∈ (ofSource source).tokens) (htkind : t.kind = .ident) (hukind : u.kind = .ident)
    (htext : t.text ≠ "") : t.span.stop ≠ u.span.start := by
  obtain ⟨front, back, hnamed⟩ := named ht htkind
  obtain ⟨front', back', hnamed'⟩ := named hu hukind
  rw [hnamed.span_eq, hnamed'.span_eq]
  intro hsize
  have hsource : front ++ t.text.toList ++ back = front' ++ (u.text.toList ++ back') := by
    rw [← hnamed.text_eq, hnamed'.text_eq, List.append_assoc]
  have hne : t.text.toList ≠ [] := by simpa using htext
  have hlast := List.getLast?_eq_some_getLast hne
  have hfront : front'.getLast? = some (t.text.toList.getLast hne) := by
    rw [← front_eq hsource hsize, List.getLast?_append, hlast, Option.some_or]
  have hinner := hnamed.inner _ (List.getLast_mem hne)
  rw [hnamed'.apart _ hfront] at hinner
  cases hinner

end LuaFront
