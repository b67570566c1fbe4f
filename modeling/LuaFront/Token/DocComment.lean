import LuaFront.Text.Blank
import LuaFront.Token.Basic

/-!
The documentation in front of a token: its lines of comment with three dashes, as far as they
stand on consecutive lines right above it.
-/

namespace LuaFront

namespace Trivia

/-- Blanks that do not leave a line empty. -/
def isLineStep (t : Trivia) : Bool :=
  t.kind = .whitespace && t.text.toList.count '\n' ≤ 1

/-- A comment line without its dashes, one space after them, and the blanks at its end. -/
def docLine (t : Trivia) : String :=
  let body := t.text.toList.dropWhile (· = '-')
  String.ofList <| Text.trimEnd <| match body with
    | ' ' :: rest => rest
    | rest => rest

/-- The documentation lines that end a run of trivia, the last line first. -/
def docRun (above : List Trivia) : List String :=
  ((above.takeWhile fun t => t.isLineStep || t.isDoc).filter (·.isDoc)).map docLine

/-- The documentation that trivia hold for the token after them. -/
def docComment? (trivia : List Trivia) : Option String :=
  match docRun trivia.reverse with
  | [] => none
  | lines => some (String.intercalate "\n" lines.reverse)

end Trivia

end LuaFront
