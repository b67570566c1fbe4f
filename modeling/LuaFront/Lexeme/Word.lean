import LuaFront.Lexeme.Basic

/-!
Words: names and keywords. They are made of ASCII letters, digits and underscores, and do not
begin with a digit.
-/

namespace LuaFront.Word

def isStart (c : Char) : Bool := c = '_' || c.isAlpha

def isInner (c : Char) : Bool := c = '_' || c.isAlphanum

/-- A word is a name unless it spells a keyword. -/
def kindOf (word : List Char) : TokenKind :=
  match Keyword.ofWord? (String.ofList word) with
  | some keyword => .keyword keyword
  | none => .ident

def scan (cs : List Char) : Lexeme :=
  .plain (kindOf (cs.takeWhile isInner)) (cs.takeWhile isInner) (cs.dropWhile isInner)

end LuaFront.Word
