import LuaFront.Grammar.Expression
import LuaFront.Syntax.Extent

/-!
Statements and blocks. A statement takes at least one token, whatever it is.
-/

namespace LuaFront.Grammar

open Parse

/-! ### Compound statements -/

/-- Each clause from its keyword to the end of its block. -/
def elseIfs (inner : Level) : (bound : Nat) → Parse (List ElseIf)
  | 0 => return []
  | bound + 1 => do
    match ← take? (.keyword .elseif_) with
    | none => return []
    | some keyword =>
      let cond ← inner.expression
      let opener ← expect (.keyword .then_)
      let block ← inner.blockHere
      return ⟨keyword, cond, opener, block⟩ :: (← elseIfs inner bound)

def else_ (inner : Level) : Parse (Option Else) := do
  match ← take? (.keyword .else_) with
  | none => return none
  | some keyword => return some ⟨keyword, ← inner.blockHere⟩

def ifStat (inner : Level) : Parse Stat := do
  let keyword ← advance
  let cond ← inner.expression
  let opener ← expect (.keyword .then_)
  let block ← inner.blockHere
  let clauses ← elseIfs inner (← remaining)
  let last ← else_ inner
  return .if_ ⟨keyword, cond, opener, block, clauses, last,
    ← expectClosing (.keyword .end_) keyword⟩

def whileStat (inner : Level) : Parse Stat := do
  let keyword ← advance
  let cond ← inner.expression
  let opener ← expect (.keyword .do_)
  let block ← inner.blockHere
  return .while_ keyword cond opener block (← expectClosing (.keyword .end_) keyword)

def doStat (inner : Level) : Parse Stat := do
  let keyword ← advance
  let block ← inner.blockHere
  return .do_ keyword block (← expectClosing (.keyword .end_) keyword)

def repeatStat (inner : Level) : Parse Stat := do
  let keyword ← advance
  let block ← inner.blockHere
  let close ← expectClosing (.keyword .until_) keyword
  return .repeat_ keyword block close (← inner.expression)

def step (inner : Level) : Parse (Option Step) := do
  match ← take? (.symbol .comma) with
  | none => return none
  | some comma => return some ⟨comma, ← inner.expression⟩

/-- A loop whose name comes before an equals sign, after its keyword. -/
def numericFor (inner : Level) (keyword : Token) : Parse Stat := do
  let var ← identifier
  let eq ← advance
  let start ← inner.expression
  let comma ← expect (.symbol .comma)
  let limit ← inner.expression
  let step ← step inner
  let opener ← expect (.keyword .do_)
  let block ← inner.blockHere
  return .numericFor ⟨keyword, var, eq, start, comma, limit, step, opener, block,
    ← expectClosing (.keyword .end_) keyword⟩

def genericFor (inner : Level) (keyword : Token) : Parse Stat := do
  let names ← nameList
  let in_ ← expect (.keyword .in_)
  let exprs ← inner.exprList
  let opener ← expect (.keyword .do_)
  let block ← inner.blockHere
  return .genericFor ⟨keyword, names, in_, exprs, opener, block,
    ← expectClosing (.keyword .end_) keyword⟩

def forStat (inner : Level) : Parse Stat := do
  let keyword ← advance
  if (← currentKind) = .ident && (← nextKind) = .symbol .eq then numericFor inner keyword
  else genericFor inner keyword

/-! ### Functions -/

/-- The first part of a function's name that is not a name, if there is one. -/
def firstNonName? : Expr → Option Expr
  | .name _ => none
  | .field base _ _ => firstNonName? base
  | e => some e

def methodName : Parse (Option MethodName) := do
  match ← take? (.symbol .colon) with
  | none => return none
  | some colon => return some ⟨colon, ← identifier⟩

/-- The name of a function without its method part. -/
def functionName (inner : Level) : Parse Expr := do
  if ← atKind .ident then suffixed inner false else return .name (← identifier)

def checkName (name : Expr) : Parse Unit :=
  match firstNonName? name with
  | some bad => error (Node.ofExpr bad).span "function name must be a dotted name" []
  | none => return ()

def functionStat (inner : Level) : Parse Stat := do
  let keyword ← advance
  let name ← functionName inner
  checkName name
  let method ← methodName
  return .function keyword name method (← funcBody inner keyword)

def localFunction (inner : Level) : Parse Stat := do
  let keyword ← advance
  let second ← advance
  let name ← identifier
  return .localFunction keyword second name (← funcBody inner second)

/-! ### Assignments -/

/-- The values after an equals sign. If another equals sign comes after them, they are taken to
begin the next statement: the parser goes back and reports that there are no values here. -/
def assignedValues (inner : Level) (eq : Token) : Parse (Separated Expr) := do
  let start ← checkpoint
  let values ← inner.exprList
  if !(← atKind (.symbol .eq)) || eq.isMissing then return values
  else
    restore start
    let anchor := eq.span.stop
    error (.empty anchor) "expected expression after '='" []
    return (Separated.empty anchor).push (.invalid none [] anchor)

def localStat (inner : Level) : Parse Stat := do
  let keyword ← advance
  let names ← nameList
  match ← take? (.symbol .eq) with
  | some eq => return .local_ keyword names (some eq) (← assignedValues inner eq)
  | none => return .local_ keyword names none (.empty (← lastStop))

/-- Reports each target that cannot be assigned to; an invalid one has been reported. -/
def checkTargets : List Expr → Parse Unit
  | [] => return ()
  | e :: targets => do
    errorIf (!e.isAssignable && !e.isInvalid) (Node.ofExpr e).span
      "cannot assign to this expression"
    checkTargets targets

def assignment (inner : Level) (first : Expr) : Parse Stat := do
  let targets ← itemsAfter (suffixed inner true) (Node.ofExpr first).span.start first
  checkTargets targets.items
  let eq ← expect (.symbol .eq)
  return .assign targets eq (← assignedValues inner eq)

/-! ### Expressions as statements -/

def notAStatement (e : Expr) : Parse Stat := do
  error (Node.ofExpr e).span "syntax error: expected '=' or a function call" []
  return .invalid (some e) [] (Node.ofExpr e).span.start

/-- A statement that begins with a name or a parenthesis: an assignment or a call. -/
def exprStat (inner : Level) : Parse Stat := do
  let e ← suffixed inner true
  match ← currentKind with
  | .symbol .eq | .symbol .comma => assignment inner e
  | _ => if e.isCall then return .call e else notAStatement e

/-! ### Statements -/

def returnValues (inner : Level) : Parse (Separated Expr) := do
  let kind ← currentKind
  if kind.endsBlock || kind = .symbol .semi then return .empty (← lastStop) else inner.exprList

def returnStat (inner : Level) : Parse Stat := do
  let keyword ← advance
  let values ← returnValues inner
  return .return_ keyword values (← take? (.symbol .semi))

def labelStat : Parse Stat := do
  let opening ← advance
  let name ← identifier
  return .label opening name (← expect (.symbol .colonColon))

/-- The current token as a statement of its own. -/
def skipToken : Parse Stat := do
  let t ← advance
  return .invalid none [t] t.span.start

def statement (inner : Level) : Parse Stat := do
  let kind ← currentKind
  match kind with
  | .symbol .semi => return .empty (← advance)
  | .keyword .if_ => ifStat inner
  | .keyword .while_ => whileStat inner
  | .keyword .do_ => doStat inner
  | .keyword .for_ => forStat inner
  | .keyword .repeat_ => repeatStat inner
  | .keyword .function_ => functionStat inner
  | .keyword .local_ =>
    if (← nextKind) = .keyword .function_ then localFunction inner else localStat inner
  | .symbol .colonColon => labelStat
  | .keyword .return_ => returnStat inner
  | .keyword .break_ => return .break_ (← advance)
  | .keyword .goto_ =>
    let keyword ← advance
    return .goto_ keyword (← identifier)
  | .ident | .symbol .openParen => exprStat inner
  -- The lexer has reported it.
  | .invalid => skipToken
  | _ =>
    if kind.canBeginExpr then notAStatement (← inner.expression)
    else
      errorExpected "statement" []
      skipToken

/-! ### Blocks -/

/-- Statements up to a token that ends a block. What comes after a return statement is
reported. -/
def statements (inner : Level) : (bound : Nat) → (afterReturn : Bool) → Parse (List Stat)
  | 0, _ => return []
  | bound + 1, afterReturn => do
    if (← currentKind).endsBlock then return []
    else
      let s ← statement inner
      errorIf afterReturn (Node.stat s).span "'return' must be the last statement in a block"
      return s :: (← statements inner bound s.isReturn)

/-- A block cut off by the nesting limit. -/
def cutOffBlock (anchor : Offset) (tokens : List Token) : Parse Block :=
  return ⟨if tokens.isEmpty then [] else [.invalid none tokens anchor], anchor⟩

def blockAround (inner : Level) (anchor : Offset) : Parse Block :=
  nested (cutOffBlock anchor) do
    return ⟨← statements inner (← remaining) false, anchor⟩

end LuaFront.Grammar
