import LuaFront.Lexeme.Numeral
import LuaFront.Text.Blank
import LuaFront.Text.Shown

/-!
Quoted strings. A backslash takes the characters after it along, so that a quote or a line break
can stand in the string. A wrong escape is only warned about; a line end that is not escaped, and
the end of the text, leave the string unfinished.
-/

namespace LuaFront.Quoted

/-- What follows a backslash: the characters that belong to it, those after them, and what is
wrong with it. -/
structure Escape where
  text : List Char
  rest : List Char
  warning : Option String

/-- The characters that stand for one character each after a backslash. -/
def isSimple (c : Char) : Bool :=
  c = 'n' || c = 't' || c = 'a' || c = 'b' || c = 'f' || c = 'r' || c = 'v'
    || c = '\\' || c = '"' || c = '\''

/-- Takes a line break of one or two characters, where the first is `c`. -/
def lineBreak (c second : Char) : List Char → Escape
  | d :: cs => if d = second then ⟨[c, d], cs, none⟩ else ⟨[c], d :: cs, none⟩
  | [] => ⟨[c], [], none⟩

/-- Up to two hexadecimal digits after `x`; fewer are wrong. -/
def byteEscape (cs : List Char) : Escape :=
  let digits := (cs.take 2).takeWhile Numeral.isHexDigit
  { text := 'x' :: digits
    rest := cs.drop digits.length
    warning := if digits.length < 2 then some "hexadecimal digit expected" else none }

/-- Hexadecimal digits in braces after `u`. What is wrong ends before the first character that
does not fit. -/
def scalarEscape : List Char → Escape
  | '\x7b' :: cs =>
    let digits := cs.takeWhile Numeral.isHexDigit
    match digits, cs.dropWhile Numeral.isHexDigit with
    | _ :: _, '\x7d' :: rest => ⟨'u' :: '\x7b' :: digits ++ ['\x7d'], rest, none⟩
    | _, rest => ⟨'u' :: '\x7b' :: digits, rest, some "malformed unicode escape"⟩
  | cs => ⟨['u'], cs, some "malformed unicode escape"⟩

/-- The value of decimal digits. -/
def decimalValue (digits : List Char) : Nat :=
  digits.foldl (fun value c => value * 10 + (c.toNat - '0'.toNat)) 0

/-- Up to three decimal digits, for a value up to 255. -/
def decimalEscape (cs : List Char) : Escape :=
  let digits := (cs.take 3).takeWhile Char.isDigit
  { text := digits
    rest := cs.drop digits.length
    warning := if 255 < decimalValue digits then some "decimal escape too large" else none }

/-- Takes an escape off the text after a backslash. -/
def escape : List Char → Escape
  | [] => ⟨[], [], none⟩
  | c :: cs =>
    if isSimple c then ⟨[c], cs, none⟩
    else if c = '\n' then lineBreak c '\r' cs
    else if c = '\r' then lineBreak c '\n' cs
    else if c = 'z' then ⟨c :: cs.takeWhile Text.isSpace, cs.dropWhile Text.isSpace, none⟩
    else if c = 'x' then byteEscape cs
    else if c = 'u' then scalarEscape cs
    else if c.isDigit then decimalEscape (c :: cs)
    else ⟨[c], cs, some ("invalid escape sequence '\\" ++ Text.shown c ++ "'")⟩

/-! ### An escape loses nothing -/

theorem take_takeWhile_append (p : Char → Bool) (n : Nat) (cs : List Char) :
    (cs.take n).takeWhile p ++ cs.drop ((cs.take n).takeWhile p).length = cs := by
  obtain ⟨t, ht⟩ := (List.takeWhile_prefix (l := cs.take n) p).trans (List.take_prefix n cs)
  generalize (cs.take n).takeWhile p = front at ht
  subst ht
  simp

theorem lineBreak_append (c second : Char) (cs : List Char) :
    (lineBreak c second cs).text ++ (lineBreak c second cs).rest = c :: cs := by
  rcases cs with _ | ⟨d, cs⟩
  · rfl
  · unfold lineBreak
    dsimp only
    split <;> simp

theorem scalarEscape_append (cs : List Char) :
    (scalarEscape cs).text ++ (scalarEscape cs).rest = 'u' :: cs := by
  unfold scalarEscape
  split
  · next cs =>
    have h := List.takeWhile_append_dropWhile (p := Numeral.isHexDigit) (l := cs)
    dsimp only
    split
    · next hrest => rw [hrest] at h; simp [h]
    · simp
  · simp

/-- Without an opening brace. -/
theorem scalarEscape_bare {cs : List Char} (h : cs.head? ≠ some '\x7b') :
    scalarEscape cs = ⟨['u'], cs, some "malformed unicode escape"⟩ := by
  unfold scalarEscape
  split
  · exact absurd rfl h
  · rfl

theorem escape_append (cs : List Char) : (escape cs).text ++ (escape cs).rest = cs := by
  rcases cs with _ | ⟨c, cs⟩
  · rfl
  · unfold escape
    have hb := take_takeWhile_append Numeral.isHexDigit 2 cs
    have hd := take_takeWhile_append Char.isDigit 3 (c :: cs)
    repeat' split
    all_goals simp_all [lineBreak_append, scalarEscape_append, byteEscape, decimalEscape]

theorem escape_rest_length_le (cs : List Char) : (escape cs).rest.length ≤ cs.length := by
  have := congrArg List.length (escape_append cs)
  simp only [List.length_append] at this
  omega

/-- What a string holds after its opening quote, the closing quote included. -/
structure Body where
  text : List Char
  rest : List Char
  closed : Bool
  diagnostics : List Diagnostic

/-- Takes the rest of a string off a text that begins `offset` bytes into the string. -/
def body (quote : Char) (offset : Offset) : List Char → Body
  | [] => ⟨[], [], false, []⟩
  | c :: cs =>
    if c = '\n' || c = '\r' then ⟨[], c :: cs, false, []⟩
    else if c = quote then ⟨[c], cs, true, []⟩
    else if c = '\\' then
      let e := escape cs
      let stop := offset + 1 + Text.byteSize e.text
      let inner := body quote stop e.rest
      { inner with
        text := c :: e.text ++ inner.text
        diagnostics :=
          (e.warning.map (.warning ⟨offset, stop⟩)).toList ++ inner.diagnostics }
    else
      let inner := body quote (offset + c.utf8Size) cs
      { inner with text := c :: inner.text }
termination_by cs => cs.length
decreasing_by
  · have := escape_rest_length_le cs
    simp only [List.length_cons]
    omega
  · simp

/-- Takes a string off a text that begins with its quote. -/
def scan (quote : Char) (cs : List Char) : Lexeme :=
  let inner := body quote 1 (cs.drop 1)
  let text := quote :: inner.text
  let (kind, unfinished) :=
    if inner.closed then (.string, [])
    else (.invalid, [.error (Lexeme.spanOf text) "unfinished string" []])
  { kind, text, rest := inner.rest, diagnostics := inner.diagnostics ++ unfinished }

theorem body_append (quote : Char) (offset : Offset) (cs : List Char) :
    (body quote offset cs).text ++ (body quote offset cs).rest = cs := by
  fun_induction body quote offset cs with
  | case1 => rfl
  | case2 => rfl
  | case3 => rfl
  | case4 offset cs e stop inner _ _ ih =>
    have := escape_append cs
    simp_all [e, stop, inner]
  | case5 offset c cs _ _ _ inner ih => simpa [inner] using ih

theorem scan_append (quote : Char) (cs : List Char) :
    (scan quote (quote :: cs)).text ++ (scan quote (quote :: cs)).rest = quote :: cs := by
  simp [scan, body_append]

end LuaFront.Quoted
