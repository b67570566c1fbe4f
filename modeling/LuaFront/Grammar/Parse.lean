import LuaFront.Diagnostic.Log
import LuaFront.Grammar.Cursor

/-!
Parsing with recovery. A parser always gives a result: what it misses it reports and replaces by a
missing token. It keeps the place in the tokens, the errors so far, and how many levels deep it
is; past the deepest level it gives up the rest of the input, and reports nothing more.
-/

namespace LuaFront

/-- How many blocks, expressions, operators and suffixes can be nested. Each operator of a chain
like `a + b + c`, and each suffix of one like `a.b.c`, counts as a level. -/
def maxDepth : Nat := 200

structure ParseState where
  cursor : Cursor
  log : Log
  depth : Nat
  /-- The limit was exceeded, and the rest of the input given up. -/
  tooDeep : Bool

abbrev Parse := StateM ParseState

namespace ParseState

def ofTokens (tokens : List Token) : ParseState :=
  { cursor := .ofTokens tokens, log := .empty, depth := 0, tooDeep := false }

end ParseState

namespace Parse

/-! ### Tokens -/

def current : Parse Token := do return (← get).cursor.current

def currentKind : Parse TokenKind := do return (← current).kind

def nextKind : Parse TokenKind := do return (← get).cursor.next.kind

def atKind (kind : TokenKind) : Parse Bool := do return (← currentKind) = kind

/-- The end of the last token consumed, where missing tokens and empty lists stand. -/
def lastStop : Parse Offset := do return (← get).cursor.lastStop

/-- How many tokens are left. -/
def remaining : Parse Nat := do return (← get).cursor.ahead.length

/-- Consumes the current token. -/
def advance : Parse Token := do
  let t ← current
  modify fun s => { s with cursor := s.cursor.advance }
  return t

/-- Consumes the current token if it is of a kind. -/
def take? (kind : TokenKind) : Parse (Option Token) := do
  if ← atKind kind then return some (← advance) else return none

/-! ### Errors -/

/-- Reports an error, unless the last one began at the same offset: one mistake makes one
error. -/
def error (span : Span) (message : String) (labels : List Label) : Parse Unit :=
  modify fun s =>
    if s.tooDeep || s.log.entries.getLast?.any (·.span.start = span.start) then s
    else { s with log := s.log.error span message labels }

/-- Reports an error about a span where something is wrong. -/
def errorIf (wrong : Bool) (span : Span) (message : String) : Parse Unit :=
  if wrong then error span message [] else return ()

/-- Reports that the current token is not what was expected. -/
def errorExpected (what : String) (labels : List Label) : Parse Unit := do
  let found ← current
  error found.span ("expected " ++ what ++ ", found " ++ found.kind.describe) labels

/-- Consumes a token of a kind, or reports that it is missing and puts a missing token. -/
def expect (kind : TokenKind) : Parse Token := do
  match ← take? kind with
  | some t => return t
  | none =>
    errorExpected kind.describe []
    return .missing kind (← lastStop)

/-- Points back to a token that was not closed, if it is there. -/
def unclosed (opener : Token) : List Label :=
  if opener.isMissing then []
  else [⟨opener.span, some ("this '" ++ opener.text ++ "' is not closed")⟩]

/-- The same for a token that closes another one. -/
def expectClosing (kind : TokenKind) (opener : Token) : Parse Token := do
  match ← take? kind with
  | some t => return t
  | none =>
    errorExpected kind.describe (unclosed opener)
    return .missing kind (← lastStop)

/-! ### Trying -/

/-- What it takes to return to an earlier state. -/
structure Checkpoint where
  pos : Nat
  errors : Nat

def checkpoint : Parse Checkpoint := do
  let s ← get
  return ⟨s.cursor.pos, s.log.size⟩

/-- Goes back to a place passed earlier, and takes back the errors since then. -/
def restore (c : Checkpoint) : Parse Unit :=
  modify fun s => { s with cursor := s.cursor.goTo c.pos, log := s.log.truncate c.errors }

/-! ### Levels -/

/-- Gives up the rest of the input. -/
def giveUp : Parse (List Token) := do
  let rest := (← get).cursor.remaining
  modify fun s => { s with cursor := s.cursor.finish, tooDeep := true }
  return rest

/-- Enters a level. Past the deepest one it reports that, gives up the rest of the input and
returns it. -/
def enter : Parse (Option (List Token)) := do
  let s ← get
  if s.tooDeep then return some []
  else if maxDepth ≤ s.depth then
    error s.cursor.current.span "chunk has too many syntax levels" []
    return some (← giveUp)
  else
    set { s with depth := s.depth + 1 }
    return none

def leave : Parse Unit := modify fun s => { s with depth := s.depth - 1 }

/-- Runs a parser one level further in. Where there is no further level, `refused` makes a result
of the tokens given up. -/
def nested {α : Type} (refused : List Token → Parse α) (inner : Parse α) : Parse α := do
  match ← enter with
  | some tokens => refused tokens
  | none =>
    let a ← inner
    leave
    return a

end Parse

end LuaFront
