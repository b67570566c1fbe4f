import LuaFront.Position.Span
import LuaFront.Token.Kind

/-!
Tokens with the blanks and comments in front of them. Written out one after the other, the tokens
of a text give the text back.
-/

namespace LuaFront

inductive TriviaKind where
  | whitespace
  /-- From two dashes to the end of the line. -/
  | lineComment
  /-- From two dashes and an opening long bracket to the closing one. -/
  | blockComment
  deriving DecidableEq

/-- Blanks or a comment in front of a token. -/
structure Trivia where
  kind : TriviaKind
  text : String
  span : Span
  deriving DecidableEq

/-- The span of a token covers its text and not its trivia. -/
structure Token where
  kind : TokenKind
  text : String
  span : Span
  trivia : List Trivia
  deriving DecidableEq

namespace Trivia

def isComment (t : Trivia) : Bool := t.kind ≠ .whitespace

/-- A line comment that begins with three dashes. -/
def isDoc (t : Trivia) : Bool :=
  t.kind = .lineComment && ['-', '-', '-'].isPrefixOf t.text.toList

end Trivia

namespace Token

/-- Stands at an offset for a token that was expected there. -/
def missing (kind : TokenKind) (offset : Offset) : Token :=
  { kind, text := "", span := .empty offset, trivia := [] }

def isMissing (t : Token) : Bool := t.text = "" && t.kind ≠ .eof

/-- The trivia of a token and its text. -/
def source (t : Token) : String := String.join (t.trivia.map (·.text)) ++ t.text

/-- The text that tokens were cut from. -/
def sourceOf (tokens : List Token) : String := String.join (tokens.map source)

end Token

end LuaFront
