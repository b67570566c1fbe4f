import LuaFront.Grammar.Chunk
import LuaFront.Grammar.Machine

/-!
The grammar on a machine. A chain of operators or suffixes is read by a loop, which counts the
levels that it enters; they are left all at once, after the chain.
-/

namespace LuaFront.Checked

open Grammar

/-- The parsers of one nesting level. Those of chains also return how many levels they have entered
and not left, in addition to those counted before. -/
structure Level where
  expr : (power : Nat) → Checked Expr
  operators : (power : Nat) → (first : Expr) → (links : Nat) → Checked (Expr × Nat)
  suffixes : (calls : Bool) → (base : Expr) → (links : Nat) → Checked (Expr × Nat)
  block : (anchor : Offset) → Checked Block

/-- Below the deepest level the machine stops. -/
def Level.bottom : Level where
  expr _ := failure
  operators _ _ _ := failure
  suffixes _ _ _ := failure
  block _ := failure

/-! ### Names -/

def identifier : Checked Identifier := do return ⟨← expect .ident⟩

/-! ### Lists -/

def moreItems {α : Type} (item : Checked α) : (bound : Nat) → Separated α → Checked (Separated α)
  | 0, list => return list
  | bound + 1, list => do
    match ← take? (.symbol .comma) with
    | none => return list
    | some comma =>
      let list ← delimit list comma
      moreItems item bound (← push list (← item))

def itemsAfter {α : Type} (item : Checked α) (anchor : Offset) (first : α) :
    Checked (Separated α) := do
  let list ← push (.empty anchor) first
  moreItems item (← remaining) list

def commaList {α : Type} (item : Checked α) : Checked (Separated α) := do
  let anchor ← lastStop
  itemsAfter item anchor (← item)

def nameList : Checked (Separated Identifier) := commaList identifier

/-! ### Expressions -/

def Level.blockHere (l : Level) : Checked Block := do l.block (← lastStop)

def Level.expression (l : Level) : Checked Expr := l.expr 0

def Level.exprList (l : Level) : Checked (Separated Expr) := commaList l.expression

def missingExpr : Checked Expr := do
  errorExpected "expression" []
  let anchor ← lastStop
  if (← currentKind).isAwaited then return .invalid none [] anchor
  else return .invalid none [← advance] anchor

/-! ### Tables -/

def tableField (inner : Level) : Checked TableField := do
  match ← currentKind with
  | .symbol .openBracket =>
    let opening ← advance
    let key ← inner.expression
    let closing ← expectClosing (.symbol .closeBracket) opening
    let eq ← expect (.symbol .eq)
    return .keyed opening key closing eq (← inner.expression)
  | .ident =>
    if (← nextKind) = .symbol .eq then
      let name ← advance
      let eq ← advance
      return .named ⟨name⟩ eq (← inner.expression)
    else return .positional (← inner.expression)
  | _ => return .positional (← inner.expression)

def tableFields (inner : Level) :
    (bound : Nat) → Separated TableField → Checked (Separated TableField)
  | 0, fields => return fields
  | bound + 1, fields => do
    let kind ← currentKind
    if kind.canBeginExpr || kind = .symbol .openBracket then
      let fields ← push fields (← tableField inner)
      match ← currentKind with
      | .symbol .comma | .symbol .semi =>
        tableFields inner bound (← delimit fields (← advance))
      | _ => return fields
    else return fields

def table (inner : Level) : Checked Table := do
  let opening ← advance
  let fields ← tableFields inner (← remaining) (.empty opening.span.stop)
  return ⟨opening, fields, ← expectClosing (.symbol .closeBrace) opening⟩

/-! ### Functions -/

def parameters : (bound : Nat) → Separated Param → Checked (Separated Param)
  | 0, params => return params
  | bound + 1, params => do
    match ← currentKind with
    | .ident =>
      let params ← push params (.name ⟨← advance⟩)
      match ← take? (.symbol .comma) with
      | some comma => parameters bound (← delimit params comma)
      | none => return params
    | .symbol .dotDotDot => push params (.vararg ⟨← advance⟩)
    | _ =>
      errorExpected "parameter name" []
      return params

def parameterList : Checked (Separated Param) := do
  let anchor ← lastStop
  if ← atKind (.symbol .closeParen) then return .empty anchor
  else parameters ((← remaining) + 1) (.empty anchor)

def funcBody (inner : Level) (keyword : Token) : Checked FuncBody := do
  let opening ← expect (.symbol .openParen)
  let params ← parameterList
  let closing ← expect (.symbol .closeParen)
  let block ← inner.blockHere
  return ⟨opening, params, closing, block, ← expectClosing (.keyword .end_) keyword⟩

/-! ### Suffixes -/

def argList (inner : Level) : Checked (Separated Expr) := do
  if ← atKind (.symbol .closeParen) then return .empty (← lastStop) else inner.exprList

def callArgs (inner : Level) : Checked CallArgs := do
  match ← currentKind with
  | .string => return .string ⟨.string, ← advance⟩
  | .symbol .openBrace => return .table (← table inner)
  | .symbol .openParen =>
    let opening ← advance
    let args ← argList inner
    return .paren opening args (← expectClosing (.symbol .closeParen) opening)
  | _ =>
    errorExpected "function arguments" []
    let anchor ← lastStop
    return .paren (.missing (.symbol .openParen) anchor) (.empty anchor)
      (.missing (.symbol .closeParen) anchor)

def suffix (inner : Level) (base : Expr) : Checked Expr := do
  match ← currentKind with
  | .symbol .dot =>
    let dot ← advance
    return .field base dot (← identifier)
  | .symbol .openBracket =>
    let opening ← advance
    let key ← inner.expression
    return .index base opening key (← expectClosing (.symbol .closeBracket) opening)
  | .symbol .colon =>
    let colon ← advance
    let name ← identifier
    return .methodCall base colon name (← callArgs inner)
  | _ => return .call base (← callArgs inner)

def primary (inner : Level) : Checked Expr := do
  match ← currentKind with
  | .ident => return .name ⟨← advance⟩
  | .symbol .openParen =>
    let opening ← advance
    let e ← inner.expression
    return .paren opening e (← expectClosing (.symbol .closeParen) opening)
  | .invalid =>
    let t ← advance
    return .invalid none [t] t.span.start
  | _ => missingExpr

/-- The levels of the suffixes are left after the last of them. -/
def suffixed (inner : Level) (calls : Bool) : Checked Expr := do
  let base ← primary inner
  let (e, links) ← inner.suffixes calls base 0
  leaveLevels links
  return e

/-! ### Operands -/

def literal (kind : LiteralKind) : Checked Expr := do return .literal ⟨kind, ← advance⟩

def simpleExpr (inner : Level) : Checked Expr := do
  match ← currentKind with
  | .keyword .nil_ => literal .nil_
  | .keyword .true_ => literal .true_
  | .keyword .false_ => literal .false_
  | .number => literal .number
  | .string => literal .string
  | .symbol .dotDotDot => return .vararg ⟨← advance⟩
  | .symbol .openBrace => return .table (← table inner)
  | .keyword .function_ =>
    let keyword ← advance
    return .function keyword (← funcBody inner keyword)
  | _ => suffixed inner true

def operand (inner : Level) : Checked Expr := do
  match (← currentKind).unaryOp? with
  | none => simpleExpr inner
  | some op =>
    let sign ← advance
    return .unary op sign (← inner.expr op.power)

/-! ### The expressions of the next level out -/

def cutOff (kept : Option Expr) (tokens : List Token) : Checked Expr := do
  return .invalid kept tokens (← lastStop)

/-- The level of the expression is left together with those of its operators. -/
def exprAround (inner : Level) (power : Nat) : Checked Expr := do
  match ← enter with
  | some tokens => cutOff none tokens
  | none =>
    let first ← operand inner
    let (e, links) ← inner.operators power first 0
    leaveLevels (links + 1)
    return e

/-- Goes on with the next operator one level further in, and leaves no level. -/
def operatorsAround (inner : Level) (power : Nat) (first : Expr) (links : Nat) :
    Checked (Expr × Nat) := do
  match (← currentKind).binaryOp? with
  | none => return (first, links)
  | some op =>
    if op.leftPower ≤ power then return (first, links)
    else
      match ← enter with
      | some tokens => return (← cutOff (some first) tokens, links)
      | none =>
        let sign ← advance
        let second ← inner.expr op.rightPower
        inner.operators power (.binary first op sign second) (links + 1)

/-- The same with the next suffix. -/
def suffixesAround (inner : Level) (calls : Bool) (base : Expr) (links : Nat) :
    Checked (Expr × Nat) := do
  if beginsSuffix calls (← currentKind) then
    match ← enter with
    | some tokens => return (← cutOff (some base) tokens, links)
    | none => inner.suffixes calls (← suffix inner base) (links + 1)
  else return (base, links)

/-! ### Compound statements -/

def elseIfs (inner : Level) : (bound : Nat) → Checked (List ElseIf)
  | 0 => return []
  | bound + 1 => do
    match ← take? (.keyword .elseif_) with
    | none => return []
    | some keyword =>
      let cond ← inner.expression
      let opener ← expect (.keyword .then_)
      let block ← inner.blockHere
      return ⟨keyword, cond, opener, block⟩ :: (← elseIfs inner bound)

def else_ (inner : Level) : Checked (Option Else) := do
  match ← take? (.keyword .else_) with
  | none => return none
  | some keyword => return some ⟨keyword, ← inner.blockHere⟩

def ifStat (inner : Level) : Checked Stat := do
  let keyword ← advance
  let cond ← inner.expression
  let opener ← expect (.keyword .then_)
  let block ← inner.blockHere
  let clauses ← elseIfs inner (← remaining)
  let last ← else_ inner
  return .if_ ⟨keyword, cond, opener, block, clauses, last,
    ← expectClosing (.keyword .end_) keyword⟩

def whileStat (inner : Level) : Checked Stat := do
  let keyword ← advance
  let cond ← inner.expression
  let opener ← expect (.keyword .do_)
  let block ← inner.blockHere
  return .while_ keyword cond opener block (← expectClosing (.keyword .end_) keyword)

def doStat (inner : Level) : Checked Stat := do
  let keyword ← advance
  let block ← inner.blockHere
  return .do_ keyword block (← expectClosing (.keyword .end_) keyword)

def repeatStat (inner : Level) : Checked Stat := do
  let keyword ← advance
  let block ← inner.blockHere
  let close ← expectClosing (.keyword .until_) keyword
  return .repeat_ keyword block close (← inner.expression)

def step (inner : Level) : Checked (Option Step) := do
  match ← take? (.symbol .comma) with
  | none => return none
  | some comma => return some ⟨comma, ← inner.expression⟩

def numericFor (inner : Level) (keyword : Token) : Checked Stat := do
  let var ← identifier
  let eq ← advance
  let start ← inner.expression
  let comma ← expect (.symbol .comma)
  let limit ← inner.expression
  let step ← step inner
  let opener ← expect (.keyword .do_)
  let block ← inner.blockHere
  return .numericFor ⟨keyword, var, eq, start, comma, limit, step, opener, block,
    ← expectClosing (.keyword .end_) keyword⟩

def genericFor (inner : Level) (keyword : Token) : Checked Stat := do
  let names ← nameList
  let in_ ← expect (.keyword .in_)
  let exprs ← inner.exprList
  let opener ← expect (.keyword .do_)
  let block ← inner.blockHere
  return .genericFor ⟨keyword, names, in_, exprs, opener, block,
    ← expectClosing (.keyword .end_) keyword⟩

def forStat (inner : Level) : Checked Stat := do
  let keyword ← advance
  if (← currentKind) = .ident && (← nextKind) = .symbol .eq then numericFor inner keyword
  else genericFor inner keyword

/-! ### Functions as statements -/

def methodName : Checked (Option MethodName) := do
  match ← take? (.symbol .colon) with
  | none => return none
  | some colon => return some ⟨colon, ← identifier⟩

def functionName (inner : Level) : Checked Expr := do
  if ← atKind .ident then suffixed inner false else return .name (← identifier)

def checkName (name : Expr) : Checked Unit :=
  match firstNonName? name with
  | some bad => error (Node.ofExpr bad).span "function name must be a dotted name" []
  | none => return ()

def functionStat (inner : Level) : Checked Stat := do
  let keyword ← advance
  let name ← functionName inner
  checkName name
  let method ← methodName
  return .function keyword name method (← funcBody inner keyword)

def localFunction (inner : Level) : Checked Stat := do
  let keyword ← advance
  let second ← advance
  let name ← identifier
  return .localFunction keyword second name (← funcBody inner second)

/-! ### Assignments -/

def assignedValues (inner : Level) (eq : Token) : Checked (Separated Expr) := do
  let start ← checkpoint
  let values ← inner.exprList
  if !(← atKind (.symbol .eq)) || eq.isMissing then return values
  else
    restore start
    let anchor := eq.span.stop
    error (.empty anchor) "expected expression after '='" []
    push (.empty anchor) (.invalid none [] anchor)

def localStat (inner : Level) : Checked Stat := do
  let keyword ← advance
  let names ← nameList
  match ← take? (.symbol .eq) with
  | some eq => return .local_ keyword names (some eq) (← assignedValues inner eq)
  | none => return .local_ keyword names none (.empty (← lastStop))

def checkTargets : List Expr → Checked Unit
  | [] => return ()
  | e :: targets => do
    errorIf (!e.isAssignable && !e.isInvalid) (Node.ofExpr e).span
      "cannot assign to this expression"
    checkTargets targets

def assignment (inner : Level) (first : Expr) : Checked Stat := do
  let targets ← itemsAfter (suffixed inner true) (Node.ofExpr first).span.start first
  checkTargets targets.items
  let eq ← expect (.symbol .eq)
  return .assign targets eq (← assignedValues inner eq)

/-! ### Expressions as statements -/

def notAStatement (e : Expr) : Checked Stat := do
  error (Node.ofExpr e).span "syntax error: expected '=' or a function call" []
  return .invalid (some e) [] (Node.ofExpr e).span.start

def exprStat (inner : Level) : Checked Stat := do
  let e ← suffixed inner true
  match ← currentKind with
  | .symbol .eq | .symbol .comma => assignment inner e
  | _ => if e.isCall then return .call e else notAStatement e

/-! ### Statements -/

def returnValues (inner : Level) : Checked (Separated Expr) := do
  let kind ← currentKind
  if kind.endsBlock || kind = .symbol .semi then return .empty (← lastStop) else inner.exprList

def returnStat (inner : Level) : Checked Stat := do
  let keyword ← advance
  let values ← returnValues inner
  return .return_ keyword values (← take? (.symbol .semi))

def labelStat : Checked Stat := do
  let opening ← advance
  let name ← identifier
  return .label opening name (← expect (.symbol .colonColon))

def skipToken : Checked Stat := do
  let t ← advance
  return .invalid none [t] t.span.start

def statement (inner : Level) : Checked Stat := do
  let kind ← currentKind
  match kind with
  | .symbol .semi => return .empty (← advance)
  | .keyword .if_ => ifStat inner
  | .keyword .while_ => whileStat inner
  | .keyword .do_ => doStat inner
  | .keyword .for_ => forStat inner
  | .keyword .repeat_ => repeatStat inner
  | .keyword .function_ => functionStat inner
  | .keyword .local_ =>
    if (← nextKind) = .keyword .function_ then localFunction inner else localStat inner
  | .symbol .colonColon => labelStat
  | .keyword .return_ => returnStat inner
  | .keyword .break_ => return .break_ (← advance)
  | .keyword .goto_ =>
    let keyword ← advance
    return .goto_ keyword (← identifier)
  | .ident | .symbol .openParen => exprStat inner
  | .invalid => skipToken
  | _ =>
    if kind.canBeginExpr then notAStatement (← inner.expression)
    else
      errorExpected "statement" []
      skipToken

/-! ### Blocks -/

def statements (inner : Level) : (bound : Nat) → (afterReturn : Bool) → Checked (List Stat)
  | 0, _ => return []
  | bound + 1, afterReturn => do
    if (← currentKind).endsBlock then return []
    else
      let s ← statement inner
      errorIf afterReturn (Node.stat s).span "'return' must be the last statement in a block"
      return s :: (← statements inner bound s.isReturn)

def cutOffBlock (anchor : Offset) (tokens : List Token) : Checked Block :=
  return ⟨if tokens.isEmpty then [] else [.invalid none tokens anchor], anchor⟩

def blockAround (inner : Level) (anchor : Offset) : Checked Block := do
  match ← enter with
  | some tokens => cutOffBlock anchor tokens
  | none =>
    let stats ← statements inner (← remaining) false
    leaveLevels 1
    return ⟨stats, anchor⟩

/-! ### Levels -/

def Level.around (inner : Level) : Level where
  expr := exprAround inner
  operators := operatorsAround inner
  suffixes := suffixesAround inner
  block := blockAround inner

def level : (depth : Nat) → Level
  | 0 => .bottom
  | depth + 1 => (level depth).around

def outermost : Level := level (maxDepth + 1)

def expression : Checked Expr := outermost.expression

def strays : (bound : Nat) → Checked (List Stat)
  | 0 => return []
  | bound + 1 => do
    if ← atKind .eof then return []
    else
      let stray ← advance
      error stray.span ("unexpected " ++ stray.kind.describe) []
      let rest ← outermost.blockHere
      return .invalid none [stray] stray.span.start :: rest.stats ++ (← strays bound)

def chunk : Checked Block := do
  let first ← outermost.block (← current).span.start
  return { first with stats := first.stats ++ (← strays (← remaining)) }

end LuaFront.Checked
