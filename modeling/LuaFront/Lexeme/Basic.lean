import LuaFront.Diagnostic.Basic
import LuaFront.Token.Kind

/-!
A lexeme is what one scan takes from the front of a text. A scan looks at nothing but the
characters in front of it, and takes at least one.
-/

namespace LuaFront

/-- The kind and the characters of a token, the characters after it, and the diagnostics about
it. Their spans count from the token's first byte. -/
structure Lexeme where
  kind : TokenKind
  text : List Char
  rest : List Char
  diagnostics : List Diagnostic

namespace Lexeme

/-- A lexeme with nothing to report. -/
def plain (kind : TokenKind) (text rest : List Char) : Lexeme :=
  { kind, text, rest, diagnostics := [] }

/-- The span of a text that begins at offset zero. -/
def spanOf (text : List Char) : Span := ⟨0, Text.byteSize text⟩

/-- An invalid token, with the error that it is as a whole. -/
def malformed (message : String) (text rest : List Char) : Lexeme :=
  { kind := .invalid, text, rest, diagnostics := [.error (spanOf text) message []] }

end Lexeme

end LuaFront
