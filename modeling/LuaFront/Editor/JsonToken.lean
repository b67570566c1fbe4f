import LuaFront.Lexeme.Quoted
import LuaFront.Syntax.StringValue

/-!
The tokens of a settings text in JSON. Numbers are whole and fit into 64 bits. Null, signs,
fractions and exponents are no tokens here, since no setting takes them.
-/

namespace LuaFront

inductive JsonToken where
  | openBrace | closeBrace | openBracket | closeBracket | colon | comma
  | text (chars : List Char)
  | number (value : Nat)
  | flag (value : Bool)
  deriving DecidableEq

namespace JsonToken

def isBlank (c : Char) : Bool := c = ' ' || c = '\t' || c = '\n' || c = '\r'

def punctuation? : Char → Option JsonToken
  | '\x7b' => some openBrace
  | '\x7d' => some closeBrace
  | '[' => some openBracket
  | ']' => some closeBracket
  | ':' => some colon
  | ',' => some comma
  | _ => none

/-! ### Texts -/

/-- The character that a letter or sign stands for after a backslash. -/
def escaped? : Char → Option Char
  | '"' => some '"'
  | '\\' => some '\\'
  | '/' => some '/'
  | 'b' => some '\x08'
  | 'f' => some '\x0c'
  | 'n' => some '\n'
  | 'r' => some '\r'
  | 't' => some '\t'
  | _ => none

/-- The character of a number in base sixteen. Halves of surrogate pairs are refused: they occur in
the name of no setting. -/
def scalar? (digits : List Char) : Option Char :=
  if digits.all Numeral.isHexDigit then StringValue.scalar? (StringValue.hexValue digits) else none

/-- A text up to its closing quote, and the characters after it. -/
def text? : List Char → Option (List Char × List Char)
  | [] => none
  | '"' :: rest => some ([], rest)
  | '\\' :: 'u' :: a :: b :: c :: d :: cs => do
    let first ← scalar? [a, b, c, d]
    let (more, rest) ← text? cs
    return (first :: more, rest)
  | '\\' :: c :: cs => do
    let first ← escaped? c
    let (more, rest) ← text? cs
    return (first :: more, rest)
  | c :: cs =>
    if c < ' ' || c = '\\' then none
    else do
      let (more, rest) ← text? cs
      return (c :: more, rest)

/-! ### Tokens -/

/-- The largest number of 64 bits. -/
def largest : Nat := 0xffffffffffffffff

/-- A number, which has no leading zeros. -/
def number? (digits : List Char) : Option JsonToken :=
  let value := Quoted.decimalValue digits
  if (digits.head? = some '0' && 1 < digits.length) || largest < value then none
  else some (number value)

/-- The token at the front of a text, and the characters after it. -/
def atFront? (c : Char) (cs : List Char) : Option (JsonToken × List Char) :=
  match punctuation? c with
  | some t => some (t, cs)
  | none =>
    if c = '"' then (text? cs).map fun (chars, rest) => (text chars, rest)
    else if c.isDigit then
      (number? (c :: cs.takeWhile Char.isDigit)).map fun t => (t, cs.dropWhile Char.isDigit)
    else
      match c, cs with
      | 't', 'r' :: 'u' :: 'e' :: rest => some (flag true, rest)
      | 'f', 'a' :: 'l' :: 's' :: 'e' :: rest => some (flag false, rest)
      | _, _ => none

theorem length_le_of_text? {cs : List Char} {r : List Char × List Char} (h : text? cs = some r) :
    r.2.length ≤ cs.length := by
  fun_induction text? cs generalizing r with
  | case1 => cases h
  | case2 rest => cases h; simp
  | case3 a b c d cs ih =>
    simp only [bind, pure, Option.bind_eq_some_iff, Option.some.injEq] at h
    obtain ⟨first, -, ⟨more, rest⟩, hr, rfl⟩ := h
    have := ih hr
    simp only [List.length_cons] at this ⊢
    omega
  | case4 c cs _ ih =>
    simp only [bind, pure, Option.bind_eq_some_iff, Option.some.injEq] at h
    obtain ⟨first, -, ⟨more, rest⟩, hr, rfl⟩ := h
    have := ih hr
    simp only [List.length_cons] at this ⊢
    omega
  | case5 => cases h
  | case6 c cs _ _ _ _ ih =>
    simp only [bind, pure, Option.bind_eq_some_iff, Option.some.injEq] at h
    obtain ⟨⟨more, rest⟩, hr, rfl⟩ := h
    have := ih hr
    simp only [List.length_cons] at this ⊢
    omega

theorem length_le_of_atFront? {c : Char} {cs : List Char} {r : JsonToken × List Char}
    (h : atFront? c cs = some r) : r.2.length ≤ cs.length := by
  unfold atFront? at h
  split at h
  · cases h
    exact Nat.le_refl _
  · split at h
    · obtain ⟨t, ht, rfl⟩ := Option.map_eq_some_iff.1 h
      exact length_le_of_text? ht
    · split at h
      · obtain ⟨t, -, rfl⟩ := Option.map_eq_some_iff.1 h
        exact (List.dropWhile_suffix Char.isDigit).length_le
      · split at h
        · cases h
          simp only [List.length_cons]
          omega
        · cases h
          simp only [List.length_cons]
          omega
        · cases h

theorem length_lt_of_atFront? {c : Char} {cs more : List Char} {r : JsonToken × List Char}
    (h : cs.dropWhile isBlank = c :: more) (hr : atFront? c more = some r) :
    r.2.length < cs.length := by
  have hle := length_le_of_atFront? hr
  have hs := (List.dropWhile_suffix (l := cs) isBlank).length_le
  rw [h] at hs
  simp only [List.length_cons] at hs
  omega

/-- All tokens of a text. Blanks may stand between them. -/
def ofChars? (cs : List Char) : Option (List JsonToken) :=
  match _h : cs.dropWhile isBlank with
  | [] => some []
  | c :: more =>
    match _hr : atFront? c more with
    | none => none
    | some (t, rest) => (ofChars? rest).map (t :: ·)
termination_by cs.length
decreasing_by exact length_lt_of_atFront? ‹_› ‹_›

end JsonToken

end LuaFront
