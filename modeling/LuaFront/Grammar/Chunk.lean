import LuaFront.Grammar.Statement
import LuaFront.Lexeme.Stream

/-!
Whole chunks. Any text has a tree and a list of errors; the nesting levels are built from the
deepest one outwards.
-/

namespace LuaFront.Grammar

open Parse

/-- The parsers of the level around another one. -/
def Level.around (inner : Level) : Level where
  expr := exprAround inner
  operators := operatorsAround inner
  suffixes := suffixesAround inner
  block := blockAround inner

/-- The parsers of a level with `depth` levels in it. -/
def level : (depth : Nat) → Level
  | 0 => .bottom
  | depth + 1 => (level depth).around

/-- The outermost level. The deepest one that can be entered is the one where entering a further
one is refused. -/
def outermost : Level := level (maxDepth + 1)

/-- An expression. -/
def expression : Parse Expr := outermost.expression

/-- What follows the first statements of a chunk: tokens that end a block where none is open, each
reported and skipped, and more statements after each. -/
def strays : (bound : Nat) → Parse (List Stat)
  | 0 => return []
  | bound + 1 => do
    if ← atKind .eof then return []
    else
      let stray ← advance
      error stray.span ("unexpected " ++ stray.kind.describe) []
      let rest ← outermost.blockHere
      return .invalid none [stray] stray.span.start :: rest.stats ++ (← strays bound)

/-- All of the input, as one block. -/
def chunk : Parse Block := do
  let first ← outermost.block (← current).span.start
  return { first with stats := first.stats ++ (← strays (← remaining)) }

end LuaFront.Grammar

namespace LuaFront

/-- What parsing a source text gives. The tokens include the end of input. -/
structure Parsed where
  block : Block
  tokens : List Token
  lines : LineTable
  diagnostics : List Diagnostic

/-- Lexes and parses a source text. The diagnostics of both are put in the order of their
places. -/
def Parsed.ofSource (source : String) : Parsed :=
  let lexed := Lexed.ofSource source
  let (block, state) := Grammar.chunk.run (.ofTokens lexed.tokens)
  { block
    tokens := state.cursor.tokens
    lines := lexed.lines
    diagnostics := Diagnostic.sorted (lexed.diagnostics ++ state.log.entries) }

end LuaFront
