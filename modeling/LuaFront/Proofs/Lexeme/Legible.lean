import LuaFront.Proofs.Lexeme.Alone
import LuaFront.Proofs.Lexeme.Errors
import LuaFront.Proofs.Lexeme.Numerals
import LuaFront.Proofs.Lexeme.Words

/-!
Tokens written out again. The text of a token is read as that token wherever no character comes
after it that the scan would take along; so texts are put together of tokens and blanks, and what
is lexed of them is known from the tokens.
-/

namespace LuaFront

open Text
open Numeral (Stops)
open Diagnostic (errorSpans)

variable {cs rest : List Char} {t : Token} {w : List Token}

/-! ### What a token would take along -/

/-- The character after the symbol would make another token of it, or a comment. -/
def Symbol.runsOn : Symbol → Char → Bool
  | dot => fun c => c = '.' || c.isDigit
  | dotDot => fun c => c = '.'
  | minus => fun c => c = '-'
  | openBracket => fun c => c = '[' || c = '='
  | colon => fun c => c = ':'
  | slash => fun c => c = '/'
  | tilde | eq => fun c => c = '='
  | lt => fun c => c = '<' || c = '='
  | gt => fun c => c = '>' || c = '='
  | _ => fun _ => false

def TokenKind.runsOn : TokenKind → Char → Bool
  | keyword _ | ident => Word.isInner
  | number => Numeral.isTail
  | symbol sign => sign.runsOn
  | string | invalid | eof => fun _ => false

/-- In front of some characters a token is read with its text, and nothing of it goes to a gap. -/
structure Token.Read (t : Token) (rest : List Char) (c : Char) (cs : List Char) : Prop where
  text : t.text.toList = c :: cs
  gap : Gap.piece? (c :: (cs ++ rest)) = none
  lexeme : ∃ reports, errorSpans reports = []
    ∧ Lexeme.ofChars c (cs ++ rest) = ⟨t.kind, c :: cs, rest, reports⟩

/-- The text of a token is what the lexer makes such a token of. Strings stand in quotes. -/
inductive Token.Legible (t : Token) : Prop
  | word {c : Char} {cs : List Char} : t.text.toList = c :: cs → Word.isStart c = true →
      (∀ d ∈ cs, Word.isInner d = true) → Word.kindOf (c :: cs) = t.kind → Legible t
  | number : t.kind = .number → Numeral.Spelled t.text.toList → Legible t
  | quoted {quote : Char} {cs : List Char} : t.kind = .string → (quote = '"' ∨ quote = '\'') →
      t.text.toList = quote :: cs → Quoted.body quote 1 cs = ⟨cs, [], true,
        (Quoted.body quote 1 cs).diagnostics⟩ → Legible t
  | symbol {sign : Symbol} : t.kind = .symbol sign → t.text.toList = sign.chars → Legible t

/-! ### Words and strings in front of something else -/

lemma Word.ne_of_isStart {c : Char} (h : isStart c = true) (d : Char) (hd : isStart d = false) :
    c ≠ d := by
  rintro rfl
  rw [h] at hd
  cases hd

lemma Word.not_isDigit_of_isStart {c : Char} (h : isStart c = true) : c.isDigit = false := by
  rw [isStart, Bool.or_eq_true, decide_eq_true_eq] at h
  rcases h with rfl | hletter
  · rfl
  · unfold Char.isAlpha Char.isUpper Char.isLower at hletter
    unfold Char.isDigit
    grind

lemma Word.piece?_of_isStart {c : Char} (h : isStart c = true) : Gap.piece? (c :: cs) = none := by
  have hne := ne_of_isStart h
  have hspace : isSpace c = false := by
    simp [isSpace, hne ' ' rfl, hne '\t' rfl, hne '\n' rfl, hne '\x0b' rfl, hne '\x0c' rfl,
      hne '\r' rfl]
  exact Gap.piece?_eq_none_iff.2 ⟨hspace, fun hdash => hne '-' rfl hdash.1⟩

lemma Lexeme.ofChars_word {c : Char} (h : Word.isStart c = true)
    (hcs : ∀ d ∈ cs, Word.isInner d = true) (hrest : Stops Word.isInner rest) :
    ofChars c (cs ++ rest) = .plain (Word.kindOf (c :: cs)) (c :: cs) rest := by
  have hne := Word.ne_of_isStart h
  have hinner : ∀ d ∈ c :: cs, Word.isInner d = true :=
    List.forall_mem_cons.2 ⟨Word.isInner_of_isStart h, hcs⟩
  obtain ⟨htake, hdrop⟩ := Numeral.takeWhile_stops hinner hrest
  rw [List.cons_append] at htake hdrop
  have hscan : ofChars c (cs ++ rest) = Word.scan (c :: (cs ++ rest)) := by
    simp [ofChars, hne '"' rfl, hne '\'' rfl, hne '[' rfl, hne '.' rfl,
      Word.not_isDigit_of_isStart h, h]
  rw [hscan, Word.scan, htake, hdrop]

/-- What comes after the closing quote does not matter. -/
lemma Lexeme.ofChars_quoted {quote : Char} (hquote : quote = '"' ∨ quote = '\'')
    (h : Quoted.body quote 1 cs = ⟨cs, [], true, (Quoted.body quote 1 cs).diagnostics⟩) :
    ofChars quote (cs ++ rest)
      = ⟨.string, quote :: cs, rest, (Quoted.body quote 1 cs).diagnostics⟩ := by
  have hbody : Quoted.body quote 1 (cs ++ rest)
      = ⟨cs, rest, true, (Quoted.body quote 1 cs).diagnostics⟩ := by
    rw [Quoted.body_before (by rw [h]), h]
    simp
  have hscan : ofChars quote (cs ++ rest) = Quoted.scan quote (quote :: (cs ++ rest)) := by
    rw [ofChars, if_pos (by simpa using hquote)]
  rw [hscan, Quoted.scan]
  simp [hbody]

/-! ### Symbols in front of something else -/

lemma Symbol.atFront?_before {sign : Symbol} (h : Stops sign.runsOn rest) :
    atFront? (sign.chars ++ rest) = some sign := by
  cases rest with
  | nil => cases sign <;> rfl
  | cons c rest =>
    -- Where a longer symbol begins in the same way, its next character is refused.
    have hnext : ∀ d, sign.runsOn d = true → (d == c) = false := by
      refine fun d hd => beq_false_of_ne ?_
      rintro rfl
      rw [h.head rfl] at hd
      cases hd
    cases sign with
    | dot | dotDot | colon | slash | tilde | eq | lt | gt =>
      simp only [atFront?, all, List.find?, chars, List.isPrefixOf, List.cons_append,
        List.nil_append, hnext, runsOn, decide_true, Bool.true_or, Bool.or_true]
      rfl
    | _ => rfl

lemma Symbol.read {sign : Symbol} (h : Stops sign.runsOn rest) :
    ∃ c cs, sign.chars = c :: cs ∧ Gap.piece? (c :: (cs ++ rest)) = none
      ∧ Lexeme.ofChars c (cs ++ rest) = .plain (.symbol sign) sign.chars rest := by
  obtain ⟨c, cs, hchars⟩ : ∃ c cs, sign.chars = c :: cs := by cases sign <;> exact ⟨_, _, rfl⟩
  have hfront := atFront?_before h
  rw [hchars, List.cons_append] at hfront
  refine ⟨c, cs, hchars, ?_, ?_⟩
  · refine Gap.piece?_eq_none_iff.2 ⟨by cases sign <;> cases hchars <;> rfl, ?_⟩
    rintro ⟨rfl, hdash⟩
    obtain rfl : sign = .minus := by cases sign <;> first | rfl | cases hchars
    cases hchars
    cases h.head hdash
  · have hscan : Lexeme.ofChars c (cs ++ rest) = Lexeme.symbol c (cs ++ rest) := by
      cases rest with
      | nil => cases sign <;> cases hchars <;> rfl
      | cons d rest =>
        have hd := h.head rfl
        cases sign <;> cases hchars <;> simp_all [Lexeme.ofChars, runsOn, Word.isStart]
    rw [hscan, Lexeme.symbol, hfront]
    simp [Lexeme.plain, hchars]

/-! ### Tokens in front of something else -/

/-- **A legible token is read again** in front of what it does not run on into. -/
theorem Token.Legible.read (h : t.Legible) (hrest : Stops t.kind.runsOn rest) :
    ∃ c cs, t.Read rest c cs := by
  cases h with
  | @word c cs htext hstart hcs hkind =>
    have hstop : Stops Word.isInner rest := by
      rw [← hkind] at hrest
      unfold Word.kindOf at hrest
      split at hrest <;> exact hrest
    have hword := Lexeme.ofChars_word hstart hcs hstop
    rw [hkind] at hword
    exact ⟨c, cs, htext, Word.piece?_of_isStart hstart, [], rfl, hword⟩
  | number hkind hspelled =>
    rw [hkind] at hrest
    obtain ⟨c, cs, htext, -⟩ := hspelled.head
    rw [htext] at hspelled
    obtain ⟨hscan, hgap⟩ := Lexeme.ofChars_spelled hspelled hrest
    rw [← hkind] at hscan
    exact ⟨c, cs, htext, hgap, [], rfl, hscan⟩
  | @quoted quote cs hkind hquote htext hbody =>
    refine ⟨quote, cs, htext, ?_, _, ?_, hkind ▸ Lexeme.ofChars_quoted hquote hbody⟩
    · rcases hquote with rfl | rfl <;> exact Gap.piece?_eq_none_iff.2 ⟨rfl, by simp⟩
    · have hwarnings := Quoted.body_warnings quote 1 cs
      rw [errorSpans, List.map_eq_nil_iff, List.filter_eq_nil_iff]
      intro d hd
      simp [hwarnings d hd]
  | @symbol sign hkind htext =>
    rw [hkind] at hrest
    obtain ⟨c, cs, hchars, hgap, hscan⟩ := Symbol.read hrest
    rw [hchars, ← hkind] at hscan
    exact ⟨c, cs, htext.trans hchars, hgap, [], rfl, hscan⟩

/-- Where the kind of a token has one spelling, that is its text. -/
lemma Token.Legible.spelled (h : t.Legible) {spelling : String}
    (hspelling : t.kind.spelling? = some spelling) : t.text = spelling := by
  cases h with
  | @word c cs htext _ _ hkind =>
    have hword : t.text = String.ofList (c :: cs) := by rw [← htext, String.ofList_toList]
    rw [← hkind, Word.kindOf] at hspelling
    split at hspelling
    · next k hk =>
      have hfound := List.find?_some hk
      rw [hword, ← of_decide_eq_true hfound]
      exact Option.some.inj hspelling
    · cases hspelling
  | number hkind | quoted hkind =>
    rw [hkind] at hspelling
    cases hspelling
  | @symbol sign hkind htext =>
    rw [hkind] at hspelling
    rw [← Option.some.inj hspelling, Symbol.spelling, ← htext, String.ofList_toList]

/-! ### The tokens of a text -/

lemma LongBracket.scan_kind (cs : List Char) :
    (scan cs).kind = .string ∨ (scan cs).kind = .invalid := by
  unfold scan
  split
  · dsimp only
    split
    · exact .inl rfl
    · exact .inr rfl
  · exact .inr rfl

lemma Numeral.scan_kind (cs : List Char) :
    (scan cs).kind = .number ∨ (scan cs).kind = .invalid := by
  unfold scan
  dsimp only
  split
  · exact .inl rfl
  · exact .inr rfl

/-- What a scan took off a text is legible, but for strings in long brackets. -/
lemma Lexeme.legible {c : Char} (hkind : t.kind = (ofChars c cs).kind)
    (htext : t.text.toList = (ofChars c cs).text) (hvalid : t.kind ≠ .invalid)
    (hlong : t.kind = .string → t.text.toList.head? ≠ some '[') : t.Legible := by
  have hhead := head_ofChars c cs
  rw [← htext] at hhead
  unfold ofChars at hkind htext
  split_ifs at hkind htext with hquote hbracket hdigit hstart
  · have hquote : c = '"' ∨ c = '\'' := by simpa using hquote
    cases hclosed : (Quoted.body c 1 cs).closed with
    | false =>
      have hkind : t.kind = .invalid := by simpa [Quoted.scan, hclosed] using hkind
      exact absurd hkind hvalid
    | true =>
      have htext : t.text.toList = c :: (Quoted.body c 1 cs).text := htext
      have hbody := Quoted.body_again (List.nil_append (Quoted.body c 1 cs).rest).symm
      rw [List.append_nil] at hbody
      refine .quoted (by simpa [Quoted.scan, hclosed] using hkind) hquote htext ?_
      rw [hbody]
      simp only [hclosed]
  · have hc : c = '[' := by simpa using (Bool.and_eq_true_iff.1 hbracket).1
    rcases LongBracket.scan_kind (c :: cs) with hstring | hinvalid
    · exact absurd (hc ▸ hhead) (hlong (hkind.trans hstring))
    · exact absurd (hkind.trans hinvalid) hvalid
  · rcases Numeral.scan_kind (c :: cs) with hnumber | hinvalid
    · exact .number (hkind.trans hnumber) (htext ▸ Numeral.spelled_of_scan hnumber)
    · exact absurd (hkind.trans hinvalid) hvalid
  · have htake : (c :: cs).takeWhile Word.isInner = c :: cs.takeWhile Word.isInner :=
      List.takeWhile_cons_of_pos (Word.isInner_of_isStart hstart)
    rw [Word.scan, Lexeme.plain] at hkind htext
    rw [htake] at hkind htext
    exact .word htext hstart (fun d hd => List.mem_takeWhile_imp hd) hkind.symm
  · rw [symbol] at hkind htext
    cases hsign : Symbol.atFront? (c :: cs) with
    | none =>
      rw [hsign] at hkind
      exact absurd hkind hvalid
    | some sign =>
      rw [hsign] at hkind htext
      exact .symbol hkind htext

lemma Lexed.legible {source : String} (ht : t ∈ (ofSource source).tokens) (heof : t.kind ≠ .eof)
    (hvalid : t.kind ≠ .invalid) (hlong : t.kind = .string → t.text.toList.head? ≠ some '[') :
    t.Legible := by
  obtain ⟨x, hx, rfl⟩ := List.mem_map.1 ht
  obtain ⟨front, c, cs, h⟩ := Scanned.exists_reading 0 source.toList x hx heof
  exact Lexeme.legible h.kind (by rw [h.text, String.toList_ofList]) hvalid hlong

end LuaFront
