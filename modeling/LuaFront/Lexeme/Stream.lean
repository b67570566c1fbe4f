import LuaFront.Lexeme.Reader

/-!
A text as a stream of tokens. Each token carries the gap in front of it; the last one stands for
the end of the text and carries what is left there. Nothing of the text is lost, and what cannot
be read becomes an invalid token.
-/

namespace LuaFront

namespace Lexeme

/-- The symbol at the front of a text, or its first character as an invalid token. -/
def symbol (c : Char) (cs : List Char) : Lexeme :=
  match Symbol.atFront? (c :: cs) with
  | some sign => .plain (.symbol sign) sign.chars ((c :: cs).drop sign.chars.length)
  | none => .malformed ("unexpected character '" ++ Text.shown c ++ "'") [c] cs

/-- The lexeme at the front of a text, given its first character and the others. -/
def ofChars (c : Char) (cs : List Char) : Lexeme :=
  if c = '"' || c = '\'' then Quoted.scan c (c :: cs)
  else if c = '[' && (cs.head? = some '[' || cs.head? = some '=') then LongBracket.scan (c :: cs)
  else if c.isDigit || c = '.' && cs.head?.any Char.isDigit then Numeral.scan (c :: cs)
  else if Word.isStart c then Word.scan (c :: cs)
  else symbol c cs

/-! ### A lexeme loses nothing and takes something -/

theorem symbol_append (c : Char) (cs : List Char) :
    (symbol c cs).text ++ (symbol c cs).rest = c :: cs := by
  unfold symbol
  split
  · next sign h =>
    have hfront : sign.chars.isPrefixOf (c :: cs) = true := by
      simpa using List.find?_some (p := fun s : Symbol => s.chars.isPrefixOf (c :: cs)) h
    obtain ⟨rest, hrest⟩ := List.isPrefixOf_iff_prefix.1 hfront
    simp [plain, ← hrest]
  · rfl

theorem ofChars_append (c : Char) (cs : List Char) :
    (ofChars c cs).text ++ (ofChars c cs).rest = c :: cs := by
  unfold ofChars
  repeat' split
  · exact Quoted.scan_append c cs
  · exact LongBracket.scan_append _
  · exact Numeral.scan_append _
  · simp [Word.scan, plain]
  · exact symbol_append c cs

theorem ofChars_text_ne_nil (c : Char) (cs : List Char) : (ofChars c cs).text ≠ [] := by
  unfold ofChars
  split
  · simp [Quoted.scan]
  split
  · exact LongBracket.scan_text_ne_nil c cs
  split
  · next h =>
    intro hnil
    have hrest := Numeral.scan_append (c :: cs)
    rw [hnil, List.nil_append] at hrest
    have hc := Numeral.not_isTail_of_rest hrest
    simp only [Numeral.isTail, Word.isInner, Char.isAlphanum] at hc
    grind
  split
  · next h =>
    have : Word.isInner c = true := by
      simp only [Word.isStart, Word.isInner, Char.isAlphanum] at h ⊢
      grind
    simp [Word.scan, plain, this]
  · unfold symbol
    split
    · next sign _ => cases sign <;> simp [plain, Symbol.chars]
    · simp [malformed]

theorem ofChars_rest_length_lt (c : Char) (cs : List Char) :
    (ofChars c cs).rest.length < (c :: cs).length := by
  have hne := List.length_pos_iff.2 (ofChars_text_ne_nil c cs)
  have := congrArg List.length (ofChars_append c cs)
  simp only [List.length_append] at this
  omega

end Lexeme

/-- A token with the diagnostics about it and its trivia, in text order. -/
structure Scanned where
  token : Token
  diagnostics : List Diagnostic

theorem Gap.ofChars_rest_length_le (offset : Offset) (cs : List Char) :
    (Gap.ofChars offset cs).rest.length ≤ cs.length := by
  fun_induction Gap.ofChars offset cs with
  | case1 => simp
  | case2 offset cs piece h stop inner ih =>
    have := Gap.piece?_rest_length_lt h
    simp only [inner]
    omega

/-- The tokens of a text that begins at an offset, the one for its end included. -/
def Scanned.ofChars (offset : Offset) (cs : List Char) : List Scanned :=
  let gap := Gap.ofChars offset cs
  match h : gap.rest with
  | [] =>
    [{ token := ⟨.eof, "", .empty gap.stop, gap.trivia⟩, diagnostics := gap.diagnostics }]
  | c :: rest =>
    have := Gap.ofChars_rest_length_le offset cs
    have := h ▸ Lexeme.ofChars_rest_length_lt c rest
    let lexeme := Lexeme.ofChars c rest
    let stop := gap.stop + Text.byteSize lexeme.text
    let token := ⟨lexeme.kind, String.ofList lexeme.text, ⟨gap.stop, stop⟩, gap.trivia⟩
    { token, diagnostics := gap.diagnostics ++ lexeme.diagnostics.map (·.shift gap.stop) }
      :: Scanned.ofChars stop lexeme.rest
termination_by cs.length
decreasing_by exact Nat.lt_of_lt_of_le ‹_› ‹_›

/-! ### The line breaks of a text -/

namespace Reader

/-- A symbol is jumped over; a character that begins nothing is taken by itself. -/
def symbol (s : Reader) : Reader :=
  match Symbol.atFront? s.ahead with
  | some sign => s.jump sign.chars.length
  | none => s.bump

def lexeme (s : Reader) : Reader :=
  match s.ahead with
  | [] => s
  | c :: cs =>
    if c = '"' || c = '\'' then s.bump.stringBody c
    else if c = '[' && (cs.head? = some '[' || cs.head? = some '=') then s.longString
    else if c.isDigit || c = '.' && cs.head?.any Char.isDigit then s.numeral
    else if Word.isStart c then s.bumpWhile Word.isInner
    else s.symbol

theorem symbol_eq {s : Reader} {c : Char} {cs : List Char} (h : s.ahead = c :: cs) :
    s.symbol = s.past (Lexeme.symbol c cs).text (Lexeme.symbol c cs).rest := by
  rw [symbol, Lexeme.symbol, h]
  cases hsign : Symbol.atFront? (c :: cs) with
  | none => exact bump_eq h
  | some sign =>
    have happend := Lexeme.symbol_append c cs
    rw [Lexeme.symbol, hsign] at happend
    refine jump_eq _ (h.trans happend.symm) ?_
    cases sign <;> decide

/-- The reader goes as far as the lexeme at the front of the text. -/
theorem lexeme_eq {s : Reader} {c : Char} {cs : List Char} (h : s.ahead = c :: cs) :
    s.lexeme = s.past (Lexeme.ofChars c cs).text (Lexeme.ofChars c cs).rest := by
  unfold lexeme Lexeme.ofChars
  rw [h]
  dsimp only
  split
  · rw [stringBody_eq c 1, bump_eq h, past_past, past_ahead]
    rfl
  split
  · next hbracket =>
    obtain ⟨rfl, -⟩ : c = '[' ∧ _ := by simpa using hbracket
    rw [longString_eq h, h]
  split
  · rw [numeral_eq, h]
  split
  · rw [bumpWhile_eq, h]
    rfl
  · exact symbol_eq h

theorem gap_ahead_length_le (s : Reader) : s.gap.ahead.length ≤ s.ahead.length := by
  obtain ⟨front, happend, hgap, -⟩ := gap_eq s
  rw [hgap, past_ahead]
  exact Gap.ofChars_rest_length_le s.offset s.ahead

theorem lexeme_ahead_length_lt {s : Reader} (h : s.ahead ≠ []) :
    s.lexeme.ahead.length < s.ahead.length := by
  obtain ⟨c, cs, hcons⟩ := List.exists_cons_of_ne_nil h
  rw [lexeme_eq hcons, past_ahead, hcons]
  exact Lexeme.ofChars_rest_length_lt c cs

/-- Reads to the end of the text, a gap and a lexeme at a time. -/
def run (s : Reader) : Reader :=
  if _h : s.gap.ahead = [] then s.gap else run s.gap.lexeme
termination_by s.ahead.length
decreasing_by exact Nat.lt_of_lt_of_le (lexeme_ahead_length_lt _h) (gap_ahead_length_le s)

/-- Every line feed of the text is written down. -/
theorem run_eq (s : Reader) : s.run = s.past s.ahead [] := by
  fun_induction run s with
  | case1 s h =>
    obtain ⟨front, happend, hgap, -⟩ := gap_eq s
    rw [hgap, past_ahead] at h
    rw [h, List.append_nil] at happend
    rw [hgap, h, happend]
  | case2 s h ih =>
    obtain ⟨front, happend, hgap, -⟩ := gap_eq s
    obtain ⟨c, cs, hcons⟩ := List.exists_cons_of_ne_nil h
    rw [ih, lexeme_eq hcons, past_past, past_ahead, Lexeme.ofChars_append, ← hcons, hgap, past_past,
      past_ahead, happend]

end Reader

/-- What lexing a source text gives. -/
structure Lexed where
  tokens : List Token
  lines : LineTable
  diagnostics : List Diagnostic

/-- Lexes a source text. -/
def Lexed.ofSource (source : String) : Lexed :=
  let scanned := Scanned.ofChars 0 source.toList
  { tokens := scanned.map (·.token)
    lines :=
      { breaks := (Reader.run ⟨source.toList, 0, []⟩).breaks.reverse
        size := Text.byteSize source.toList }
    diagnostics := scanned.flatMap (·.diagnostics) }

end LuaFront
