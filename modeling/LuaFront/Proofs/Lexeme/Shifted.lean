import LuaFront.Proofs.Lexeme.Joined
import LuaFront.Proofs.Tree.Displaced

/-!
A text in another place. Behind another text, from which a line feed separates it, a text has the
tokens that it has by itself, further on by the size of what is in front of it.
-/

namespace LuaFront

open Text

def Trivia.shift (t : Trivia) (distance : Nat) : Trivia := { t with span := t.span.shift distance }

/-- The same token of a text that begins further on. -/
def Token.shift (t : Token) (distance : Nat) : Token :=
  { t with span := t.span.shift distance, trivia := t.trivia.map (·.shift distance) }

def Scanned.shift (x : Scanned) (distance : Nat) : Scanned :=
  ⟨x.token.shift distance, x.diagnostics.map (·.shift distance)⟩

variable {cs : List Char} {offset distance : Nat}

lemma Diagnostic.shift_shift (d : Diagnostic) (first second : Nat) :
    (d.shift first).shift second = d.shift (first + second) := by
  simp [shift, Span.shift, Nat.add_assoc]

lemma Gap.ofChars_shift : ofChars (offset + distance) cs = { ofChars offset cs with
    trivia := (ofChars offset cs).trivia.map (·.shift distance)
    stop := (ofChars offset cs).stop + distance
    diagnostics := (ofChars offset cs).diagnostics.map (·.shift distance) } := by
  fun_induction ofChars offset cs with
  | case1 offset cs hpiece => rw [ofChars_of_none hpiece]; rfl
  | case2 offset cs piece hpiece stop inner ih =>
    have hstop : offset + distance + byteSize piece.text = stop + distance :=
      Nat.add_right_comm ..
    rw [ofChars_of_some hpiece, hstop, ih]
    simp [inner, Trivia.shift, Span.shift, Diagnostic.shift_shift]

lemma Scanned.ofChars_shift :
    ofChars (offset + distance) cs = (ofChars offset cs).map (·.shift distance) := by
  fun_induction ofChars offset cs with
  | case1 offset cs gap hrest =>
    rw [ofChars_of_nil (by rw [Gap.ofChars_shift]; exact hrest), Gap.ofChars_shift]
    rfl
  | case2 offset cs gap c rest hrest _ _ lexeme stop token ih =>
    have hstop : gap.stop + distance + byteSize lexeme.text = stop + distance :=
      Nat.add_right_comm ..
    rw [ofChars_of_cons (by rw [Gap.ofChars_shift]; exact hrest), Gap.ofChars_shift]
    simp only [gap, lexeme] at hstop
    rw [hstop, ih]
    simp [first, shift, Token.shift, Span.shift, Diagnostic.shift_shift, gap, stop, token, lexeme,
      hstop]

lemma Trivia.comments_shift (pieces : List Trivia) (distance : Nat) :
    comments (pieces.map (·.shift distance)) = (comments pieces).map (·.shift distance) :=
  List.filter_map ..

/-! ### Back to the place of the text by itself -/

namespace Displacement

/-- Nothing is moved. -/
def still : Displacement where
  offset := id
  trivia := id
  monotone := monotone_id
  zero := rfl
  none := rfl

/-- Moves a text that begins at a distance to the start. Of what is in front of a token, the
comments are kept. -/
def back (distance : Nat) : Displacement where
  offset := (· - distance)
  trivia pieces := (Trivia.comments pieces).map fun t =>
    { t with span := ⟨t.span.start - distance, t.span.stop - distance⟩ }
  monotone _ _ h := Nat.sub_le_sub_right h distance
  zero := Nat.zero_sub distance
  none := rfl

lemma token_still (t : Token) : still.token t = t := rfl

lemma back_shift (t : Token) : (back distance).token (t.shift distance) = (back 0).token t := by
  simp only [token, back, span, Token.shift, Trivia.comments_shift, List.map_map]
  simp [Span.shift, Trivia.shift, Function.comp_def]

/-- Only the comments in front of a token are kept. -/
lemma back_behind {t : Token} {trivia : List Trivia} (h : Trivia.comments trivia = t.comments) :
    (back distance).token (t.behind trivia) = (back distance).token t := by
  simp only [token, back, Token.behind, h]
  rfl

lemma still_strictMono : StrictMono still.offset := strictMono_id

lemma back_strictMono : StrictMono (back 0).offset := strictMono_id

end Displacement

/-- The tokens of a text that begins further on, but for the blanks in front of them. -/
structure Token.Shifted (distance : Nat) (tokens shifted : List Token) : Prop where
  span : shifted.map (·.span) = tokens.map (·.span.shift distance)
  back : shifted.map (Displacement.back distance).token
    = tokens.map (Displacement.back 0).token

/-- Of what is in front of the first token, only the comments matter. -/
lemma Token.shifted_behind {tokens : List Token} {trivia : List Trivia}
    (h : Trivia.comments trivia = (tokens.head?.elim [] (·.comments)).map (·.shift distance)) :
    Shifted distance tokens ((tokens.map (·.shift distance)).modifyHead (·.behind trivia)) := by
  cases tokens with
  | nil => exact ⟨rfl, rfl⟩
  | cons t tokens =>
    have hcomments : Trivia.comments trivia = (t.shift distance).comments :=
      h.trans (Trivia.comments_shift ..).symm
    refine ⟨by simp [shift, behind, Function.comp_def], ?_⟩
    simp [Displacement.back_behind hcomments, Displacement.back_shift, Function.comp_def]

lemma Token.Shifted.split {read shifted : List Token} {eof : Token}
    (h : Shifted distance (read ++ [eof]) shifted) (heof : eof.kind = .eof) :
    ∃ front last, shifted = front ++ [last] ∧ last.kind = .eof
      ∧ front.map (Displacement.back distance).token
        = read.map (Displacement.back 0).token := by
  have hback := h.back
  rw [List.map_append] at hback
  obtain ⟨front, last, hshifted, hfront, hlast⟩ := List.map_eq_append_iff.1 hback
  obtain ⟨t, rfl, ht⟩ := List.map_eq_singleton_iff.1 hlast
  exact ⟨front, t, hshifted, (congrArg Token.kind ht).trans heof, hfront⟩

/-! ### Keywords -/

lemma ne_of_letter {c : Char} (h : c.isAlpha = true) (d : Char) (hd : d.isAlpha = false) :
    c ≠ d := by
  rintro rfl
  rw [h] at hd
  cases hd

lemma Gap.piece?_of_letter {c : Char} (h : c.isAlpha = true) : piece? (c :: cs) = none := by
  have hne := ne_of_letter h
  have hspace : isSpace c = false := by
    simp [isSpace, hne ' ' rfl, hne '\t' rfl, hne '\n' rfl, hne '\x0b' rfl, hne '\x0c' rfl,
      hne '\r' rfl]
  exact piece?_eq_none_iff.2 ⟨hspace, fun hdash => hne '-' rfl hdash.1⟩

lemma Lexeme.ofChars_of_letter {c : Char} (h : c.isAlpha = true) :
    ofChars c cs = Word.scan (c :: cs) := by
  have hne := ne_of_letter h
  have hdigit : c.isDigit = false := by
    unfold Char.isAlpha Char.isUpper Char.isLower at h
    unfold Char.isDigit
    grind
  have hstart : Word.isStart c = true := by simp [Word.isStart, h]
  simp [ofChars, hne '"' rfl, hne '\'' rfl, hne '[' rfl, hne '.' rfl, hdigit, hstart]

/-- A keyword by itself is read as that keyword. -/
lemma Scanned.ofChars_keyword (offset : Offset) (k : Keyword) :
    ofChars offset k.spelling.toList
      = [⟨⟨.keyword k, k.spelling, ⟨offset, offset + byteSize k.spelling.toList⟩, []⟩, []⟩,
        ⟨⟨.eof, "", .empty (offset + byteSize k.spelling.toList), []⟩, []⟩] := by
  have hletters : k.spelling.toList.all Char.isAlpha = true := by cases k <;> decide +kernel
  rw [List.all_eq_true] at hletters
  have hkind : Word.kindOf k.spelling.toList = .keyword k := by cases k <;> decide +kernel
  have hne : k.spelling.toList ≠ [] := by cases k <;> decide +kernel
  have hspelling := String.ofList_toList (s := k.spelling)
  generalize k.spelling = word at hletters hkind hne hspelling ⊢
  obtain ⟨c, rest, hcs⟩ := List.exists_cons_of_ne_nil hne
  rw [hcs] at hletters hkind hspelling ⊢
  have hinner : ∀ d ∈ c :: rest, Word.isInner d = true := fun d hd => by
    simp [Word.isInner, Char.isAlphanum, hletters d hd]
  have hscan : Word.scan (c :: rest) = .plain (.keyword k) (c :: rest) [] := by
    rw [Word.scan, List.takeWhile_eq_self_iff.2 hinner, List.dropWhile_eq_nil_iff.2 hinner, hkind]
  have hc := hletters c List.mem_cons_self
  have hlexeme : Lexeme.ofChars c rest = .plain (.keyword k) (c :: rest) [] :=
    (Lexeme.ofChars_of_letter hc).trans hscan
  rw [ofChars_single offset (Gap.piece?_of_letter hc) (by rw [hlexeme, Lexeme.plain]), hlexeme]
  simp [first, Lexeme.plain, hspelling]

/-! ### Texts with a line feed between them -/

namespace Lexed

lemma harmless_scanned {source : String} (h : Diagnostic.Harmless (ofSource source).diagnostics) :
    ∀ x ∈ Scanned.ofChars 0 source.toList, Diagnostic.Harmless x.diagnostics :=
  fun _ hx _ hd => h _ (List.mem_flatMap_of_mem hx hd)

lemma diagnostics_eq_nil {source : String} (h : (ofSource source).diagnostics = []) :
    ∀ x ∈ Scanned.ofChars 0 source.toList, x.diagnostics = [] :=
  List.flatMap_eq_nil_iff.1 h

/-- **The tokens of a text behind another one** are those that it has by itself, further on. Only
the first one has something else in front of it: there the comments behind the other text join its
own. -/
theorem tokens_joined {source : String} (other : String) (h : (ofSource source).diagnostics = []) :
    ∃ trivia, (ofSource (source ++ "\n" ++ other)).tokens = (ofSource source).tokens.dropLast
        ++ ((ofSource other).tokens.map (·.shift (byteSize (source ++ "\n").toList))).modifyHead
          (·.behind trivia)
      ∧ Trivia.comments trivia = (ofSource source).tokens.getLast?.elim [] (·.comments)
        ++ ((ofSource other).tokens.head?.elim [] (·.comments)).map
          (·.shift (byteSize (source ++ "\n").toList))
      ∧ (ofSource (source ++ "\n" ++ other)).diagnostics = (ofSource other).diagnostics.map
        (·.shift (byteSize (source ++ "\n").toList)) := by
  obtain ⟨trivia, heq, hcomments⟩ :=
    Scanned.ofChars_joined other.toList (harmless_scanned (h ▸ Diagnostic.harmless_nil))
  have hsize : 0 + byteSize source.toList + 1 = 0 + byteSize (source ++ "\n").toList := by
    rw [String.toList_append, byteSize_append, Nat.add_assoc]
    rfl
  have htext : (source ++ "\n" ++ other).toList = source.toList ++ '\n' :: other.toList := by
    simp [String.toList_append]
  rw [hsize, Scanned.ofChars_shift] at heq hcomments
  generalize byteSize (source ++ "\n").toList = distance at heq hcomments ⊢
  obtain ⟨x, others, hx⟩ := List.exists_cons_of_ne_nil (Scanned.ofChars_ne_nil 0 other.toList)
  rw [hx] at heq hcomments
  have hquiet : (Scanned.ofChars 0 source.toList).dropLast.flatMap (·.diagnostics) = [] :=
    List.flatMap_eq_nil_iff.2 fun y hy => diagnostics_eq_nil h y ((List.dropLast_subset _ hy))
  refine ⟨trivia, ?_, hcomments.trans ?_, ?_⟩
  · simp [ofSource, htext, heq, hx, Scanned.behind, Scanned.shift, Function.comp_def]
  · simp only [ofSource, hx, List.getLast?_map]
    congr 1
    · cases (Scanned.ofChars 0 source.toList).getLast? <;> rfl
    · exact Trivia.comments_shift ..
  · simp [ofSource, htext, heq, hx, hquiet, Scanned.behind, Scanned.shift, List.map_flatMap,
      List.flatMap_map]

/-- A keyword on a line between two texts. -/
lemma tokens_around {front : String} (k : Keyword) (back : String)
    (h : (ofSource front).diagnostics = []) :
    ∃ t shifted, (ofSource (front ++ "\n" ++ k.spelling ++ "\n" ++ back)).tokens
        = (ofSource front).tokens.dropLast ++ t :: shifted
      ∧ t.kind = .keyword k ∧ t.text = k.spelling
      ∧ t.span = ⟨byteSize (front ++ "\n").toList,
        byteSize (front ++ "\n" ++ k.spelling).toList⟩
      ∧ Token.Shifted (byteSize (front ++ "\n" ++ k.spelling ++ "\n").toList)
        (ofSource back).tokens shifted
      ∧ (ofSource (front ++ "\n" ++ k.spelling ++ "\n" ++ back)).diagnostics
        = (ofSource back).diagnostics.map
          (·.shift (byteSize (front ++ "\n" ++ k.spelling ++ "\n").toList)) := by
  obtain ⟨trivia, hfront, -, hquiet⟩ := tokens_joined k.spelling h
  obtain ⟨word, stop, hlexed, hkind, htext, hspan, hstop⟩ : ∃ word stop : Token,
      Scanned.ofChars 0 k.spelling.toList = [⟨word, []⟩, ⟨stop, []⟩] ∧ word.kind = .keyword k
        ∧ word.text = k.spelling ∧ word.span = ⟨0, byteSize k.spelling.toList⟩
        ∧ stop.trivia = [] :=
    ⟨_, _, Scanned.ofChars_keyword 0 k, rfl, rfl, by simp, rfl⟩
  have htokens : (ofSource k.spelling).tokens = [word, stop] := by simp [ofSource, hlexed]
  have hnone : (ofSource k.spelling).diagnostics = [] := by simp [ofSource, hlexed]
  rw [hnone] at hquiet
  rw [htokens] at hfront
  obtain ⟨trivia', hback, hcomments, hreports⟩ := tokens_joined back hquiet
  rw [hfront] at hback hcomments
  refine ⟨(word.shift (byteSize (front ++ "\n").toList)).behind trivia, _, ?_, hkind, htext, ?_,
    Token.shifted_behind (hcomments.trans ?_), hreports⟩
  · rw [hback]
    simp
  · have hshift : ((word.shift (byteSize (front ++ "\n").toList)).behind trivia).span
        = word.span.shift (byteSize (front ++ "\n").toList) := rfl
    have hsize : byteSize (front ++ "\n" ++ k.spelling).toList
        = byteSize (front ++ "\n").toList + byteSize k.spelling.toList := by
      rw [String.toList_append, byteSize_append]
    rw [hshift, hspan, hsize, Span.shift, Nat.zero_add, Nat.add_comm]
  · simp [Token.comments, Token.shift, hstop, Trivia.comments]

end Lexed

end LuaFront
