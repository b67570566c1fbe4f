import LuaFront.Lexeme.Quoted
import LuaFront.Syntax.Tree
import LuaFront.Text.Utf8

/-!
The value of a string literal, read off its token. An escape stands for bytes, which need not make
up characters together with the bytes around them; escapes without a meaning stand for themselves.
-/

namespace LuaFront.StringValue

/-- The byte that a character stands for after a backslash. -/
def controlByte? : Char → Option UInt8
  | 'n' => some 10
  | 't' => some 9
  | 'a' => some 7
  | 'b' => some 8
  | 'f' => some 12
  | 'r' => some 13
  | 'v' => some 11
  | '\\' => some 92
  | '"' => some 34
  | '\'' => some 39
  | _ => none

/-! ### Numbers in base sixteen -/

def hexDigit (c : Char) : Nat :=
  if c.isDigit then c.toNat - '0'.toNat else c.toLower.toNat - 'a'.toNat + 10

def hexValue (digits : List Char) : Nat :=
  digits.foldl (fun value c => value * 16 + hexDigit c) 0

/-- The value of one or more hexadecimal digits, which may follow a plus sign. -/
def readHex? (cs : List Char) : Option Nat :=
  let digits := match cs with
    | '+' :: digits => digits
    | digits => digits
  if digits ≠ [] && digits.all Numeral.isHexDigit then some (hexValue digits) else none

/-! ### Escapes -/

/-- What an escape stands for, and the characters after it. -/
structure Meaning where
  bytes : List UInt8
  rest : List Char

/-- After `x`: two characters that are a number. -/
def byteMeaning : List Char → Meaning
  | c :: d :: rest =>
    match readHex? [c, d] with
    | some value => ⟨[UInt8.ofNat value], rest⟩
    | none => ⟨Text.encode ['\\', 'x'], c :: d :: rest⟩
  | rest => ⟨Text.encode ['\\', 'x'], rest⟩

/-- The character of a number, if it has one. -/
def scalar? (value : Nat) : Option Char :=
  if value.isValidChar then some (Char.ofNat value) else none

/-- After `u`: an opening brace and, up to the next closing one, the number of a character. -/
def scalarMeaning (cs : List Char) : Meaning :=
  let kept : Meaning := ⟨Text.encode ['\\', 'u'], cs⟩
  match cs with
  | '\x7b' :: inner =>
    match inner.dropWhile (· ≠ '\x7d') with
    | _ :: rest =>
      match (readHex? (inner.takeWhile (· ≠ '\x7d'))).bind scalar? with
      | some c => ⟨Text.encode [c], rest⟩
      | none => kept
    | [] => kept
  | _ => kept

/-- Up to three decimal digits, for a byte. -/
def decimalMeaning (cs : List Char) : Meaning :=
  let digits := (cs.take 3).takeWhile Char.isDigit
  let rest := cs.drop digits.length
  let value := Quoted.decimalValue digits
  if value ≤ 255 then ⟨[UInt8.ofNat value], rest⟩ else ⟨Text.encode ('\\' :: digits), rest⟩

/-- A line break of one or two characters stands for a line feed. -/
def lineMeaning (second : Char) : List Char → Meaning
  | c :: rest => if c = second then ⟨[10], rest⟩ else ⟨[10], c :: rest⟩
  | [] => ⟨[10], []⟩

/-- The meaning of the text after a backslash. -/
def meaning : List Char → Meaning
  | [] => ⟨Text.encode ['\\'], []⟩
  | c :: cs =>
    match controlByte? c with
    | some byte => ⟨[byte], cs⟩
    | none =>
      if c = '\n' then lineMeaning '\r' cs
      else if c = '\r' then lineMeaning '\n' cs
      else if c = 'z' then ⟨[], cs.dropWhile Text.isSpace⟩
      else if c = 'x' then byteMeaning cs
      else if c = 'u' then scalarMeaning cs
      else if c.isDigit then decimalMeaning (c :: cs)
      else ⟨Text.encode ['\\', c], cs⟩

theorem byteMeaning_rest_length_le (cs : List Char) : (byteMeaning cs).rest.length ≤ cs.length := by
  unfold byteMeaning
  split
  · split <;> simp only [List.length_cons] <;> omega
  · simp

theorem scalarMeaning_rest_length_le (cs : List Char) :
    (scalarMeaning cs).rest.length ≤ cs.length := by
  unfold scalarMeaning
  dsimp only
  split
  · next inner =>
    split
    · next rest h =>
      have := (List.dropWhile_suffix (l := inner) (· ≠ '\x7d')).length_le
      rw [h] at this
      split
      · simp only [List.length_cons] at this ⊢
        omega
      · simp
    · simp
  · simp

theorem meaning_rest_length_le (cs : List Char) : (meaning cs).rest.length ≤ cs.length := by
  rcases cs with _ | ⟨c, cs⟩
  · simp [meaning]
  · have hz := (List.dropWhile_suffix (l := cs) Text.isSpace).length_le
    have hx := byteMeaning_rest_length_le cs
    have hu := scalarMeaning_rest_length_le cs
    have hl : ∀ second, (lineMeaning second cs).rest.length ≤ cs.length := by
      intro second
      unfold lineMeaning
      repeat' split
      all_goals simp
    have hd : (decimalMeaning (c :: cs)).rest.length ≤ cs.length + 1 := by
      unfold decimalMeaning
      dsimp only
      split <;> simp only [List.length_drop, List.length_cons] <;> omega
    have hr := hl '\r'
    have hn := hl '\n'
    unfold meaning
    dsimp only
    repeat' split
    all_goals simp only [List.length_cons]
    all_goals omega

/-- The bytes that the inside of a quoted string stands for. -/
def bytes : List Char → List UInt8
  | [] => []
  | c :: cs =>
    if c = '\\' then (meaning cs).bytes ++ bytes (meaning cs).rest
    else Text.encode [c] ++ bytes cs
termination_by cs => cs.length
decreasing_by
  · have := meaning_rest_length_le cs
    simp only [List.length_cons]
    omega
  · simp

/-- The value of a token text that begins with a quote. -/
def quoted (text : List Char) : List Char := Text.decode (bytes (text.drop 1).dropLast)

/-! ### Long brackets -/

/-- A line break at the front of a long string does not belong to it. -/
def dropLineBreak : List Char → List Char
  | '\r' :: '\n' :: cs => cs
  | '\n' :: '\r' :: cs => cs
  | '\n' :: cs => cs
  | '\r' :: cs => cs
  | cs => cs

/-- The value of a token text that begins with a square bracket: what stands between two brackets
of the width of the first. -/
def long (text : List Char) : List Char :=
  let width := ((text.drop 1).takeWhile (· = '=')).length + 2
  let size := Text.byteSize text
  if size < 2 * width then []
  else dropLineBreak ((Text.slice? text width (size - width)).getD [])

def ofText (text : List Char) : List Char :=
  if text.head? = some '[' then long text else quoted text

end LuaFront.StringValue

namespace LuaFront

/-- The value of a string literal; other literals have none. -/
def Literal.stringValue? (lit : Literal) : Option String :=
  if lit.kind = .string then some (String.ofList (StringValue.ofText lit.token.text.toList))
  else none

end LuaFront
