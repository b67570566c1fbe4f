import LuaFront.Text.Shapeless

/-!
A character as a message shows it: quotes, the backslash and the common controls by an escape,
what has no shape of its own by its number, and every other character as it is.
-/

namespace LuaFront.Text

/-- The number of a character in lower case hexadecimal, without padding. -/
def numbered (c : Char) : String :=
  "\\u\x7b" ++ String.ofList (Nat.toDigits 16 c.toNat) ++ "\x7d"

def shown (c : Char) : String :=
  match c with
  | '\x00' => "\\0"
  | '\t' => "\\t"
  | '\r' => "\\r"
  | '\n' => "\\n"
  | '\'' => "\\'"
  | '"' => "\\\""
  | '\\' => "\\\\"
  | c => if isShapeless c then numbered c else String.singleton c

end LuaFront.Text
