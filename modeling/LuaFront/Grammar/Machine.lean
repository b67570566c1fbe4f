import LuaFront.Grammar.Parse
import LuaFront.Syntax.Separated

/-!
Parsing on a machine. The tokens stand in a list, the place is an index into it, and the levels are
counted. The machine stops where an operation is not possible: at an index that has no token, where
more levels are left than were entered, where an item comes after one that lacks its delimiter, and
where a delimiter comes after none that lacks it. It writes down each state that it passes.
-/

namespace LuaFront

structure Machine where
  tokens : List Token
  pos : Nat
  log : Log
  depth : Nat
  /-- The limit was exceeded, and the rest of the input given up. -/
  tooDeep : Bool

namespace Machine

/-- At the first of some tokens. An end of input is added where they lack one. -/
def ofTokens (tokens : List Token) : Machine where
  tokens :=
    if tokens.getLast?.any (·.kind = .eof) then tokens
    else tokens ++ [.missing .eof ((tokens.getLast?.map (·.span.stop)).getD 0)]
  pos := 0
  log := .empty
  depth := 0
  tooDeep := false

/-- The end of the last token consumed, or the start of input. -/
def lastStop (m : Machine) : Offset :=
  if m.pos = 0 then 0 else (m.tokens[m.pos - 1]?.map (·.span.stop)).getD 0

end Machine

/-- The present state of a machine, and those that it has passed, the last one first. -/
structure Recorded where
  now : Machine
  passed : List Machine

abbrev Checked := StateT Recorded Option

namespace Checked

variable {α : Type}

/-! ### Steps -/

def now : Checked Machine := do return (← get).now

/-- Writes down the present state, and changes it. -/
def become (f : Machine → Machine) : Checked Unit := modify fun r => ⟨f r.now, r.now :: r.passed⟩

/-! ### Tokens -/

def current : Checked Token := do
  let m ← now
  StateT.lift m.tokens[m.pos]?

/-- The token after the current one, or the end of input. -/
def next : Checked Token := do
  let m ← now
  StateT.lift m.tokens[min (m.pos + 1) (m.tokens.length - 1)]?

def currentKind : Checked TokenKind := do return (← current).kind

def nextKind : Checked TokenKind := do return (← next).kind

def atKind (kind : TokenKind) : Checked Bool := do return (← currentKind) = kind

def lastStop : Checked Offset := do return (← now).lastStop

/-- How many tokens are left. -/
def remaining : Checked Nat := do
  let m ← now
  return m.tokens.length - 1 - m.pos

/-- Consumes the current token, unless it is an end of input. -/
def advance : Checked Token := do
  let t ← current
  if t.kind = .eof then return t
  else
    become fun m => { m with pos := m.pos + 1 }
    return t

/-- Consumes the current token if it is of a kind. -/
def take? (kind : TokenKind) : Checked (Option Token) := do
  if ← atKind kind then return some (← advance) else return none

/-! ### Errors -/

/-- Reports an error, unless the last one began at the same offset. -/
def error (span : Span) (message : String) (labels : List Label) : Checked Unit := do
  let m ← now
  if m.tooDeep || m.log.entries.getLast?.any (·.span.start = span.start) then return ()
  else become fun m => { m with log := m.log.error span message labels }

def errorIf (wrong : Bool) (span : Span) (message : String) : Checked Unit :=
  if wrong then error span message [] else return ()

def errorExpected (what : String) (labels : List Label) : Checked Unit := do
  let found ← current
  error found.span ("expected " ++ what ++ ", found " ++ found.kind.describe) labels

def expect (kind : TokenKind) : Checked Token := do
  match ← take? kind with
  | some t => return t
  | none =>
    errorExpected kind.describe []
    return .missing kind (← lastStop)

def expectClosing (kind : TokenKind) (opener : Token) : Checked Token := do
  match ← take? kind with
  | some t => return t
  | none =>
    errorExpected kind.describe (Parse.unclosed opener)
    return .missing kind (← lastStop)

/-! ### Trying -/

def checkpoint : Checked Parse.Checkpoint := do
  let m ← now
  return ⟨m.pos, m.log.size⟩

def restore (c : Parse.Checkpoint) : Checked Unit :=
  become fun m =>
    { m with pos := min c.pos (m.tokens.length - 1), log := m.log.truncate c.errors }

/-! ### Levels -/

/-- Consumes what is left, token by token. -/
def swallow : (bound : Nat) → Checked (List Token)
  | 0 => return []
  | bound + 1 => do
    if ← atKind .eof then return [] else return (← advance) :: (← swallow bound)

/-- Reports that the limit is exceeded, and consumes the rest of the input. -/
def refuse : Checked (List Token) := do
  error (← current).span "chunk has too many syntax levels" []
  swallow (← remaining)

/-- Enters a level. Past the deepest one the rest of the input is given up and returned. -/
def enter : Checked (Option (List Token)) := do
  let m ← now
  if m.tooDeep then return some []
  else if maxDepth ≤ m.depth then
    -- Nothing in between looks at the flag. Set last, it only ever stands at an end of input.
    let tokens ← refuse
    become fun m => { m with tooDeep := true }
    return some tokens
  else
    become fun m => { m with depth := m.depth + 1 }
    return none

/-- Leaves a number of levels at once, if as many were entered. -/
def leaveLevels (levels : Nat) : Checked Unit := do
  guard (levels ≤ (← now).depth)
  become fun m => { m with depth := m.depth - levels }

/-! ### Lists -/

/-- Puts an item on a list, if the last one has its delimiter. -/
def push (l : Separated α) (item : α) : Checked (Separated α) := do
  guard (l.lacksDelimiter = false)
  return l.push item

/-- Puts a delimiter after the last item, if it lacks one. -/
def delimit (l : Separated α) (delimiter : Token) : Checked (Separated α) := do
  guard (l.lacksDelimiter = true)
  return l.delimit delimiter

end Checked

end LuaFront
