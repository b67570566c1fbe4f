import LuaFront.Grammar.Level

/-!
Expressions. Each parser here reads one form of expression and leaves what is nested in it to the
level further in.
-/

namespace LuaFront.Grammar

open Parse

def Level.expression (l : Level) : Parse Expr := l.expr 0

def Level.exprList (l : Level) : Parse (Separated Expr) := commaList l.expression

/-- Reports that an expression is missing. The current token is skipped, unless something around
the expression may be waiting for it. -/
def missingExpr : Parse Expr := do
  errorExpected "expression" []
  let anchor ← lastStop
  if (← currentKind).isAwaited then return .invalid none [] anchor
  else return .invalid none [← advance] anchor

/-! ### Tables -/

def tableField (inner : Level) : Parse TableField := do
  match ← currentKind with
  | .symbol .openBracket =>
    let opening ← advance
    let key ← inner.expression
    let closing ← expectClosing (.symbol .closeBracket) opening
    let eq ← expect (.symbol .eq)
    return .keyed opening key closing eq (← inner.expression)
  | .ident =>
    if (← nextKind) = .symbol .eq then
      let name ← advance
      let eq ← advance
      return .named ⟨name⟩ eq (← inner.expression)
    else return .positional (← inner.expression)
  | _ => return .positional (← inner.expression)

/-- Fields, each but the last with a comma or semicolon after it. -/
def tableFields (inner : Level) :
    (bound : Nat) → Separated TableField → Parse (Separated TableField)
  | 0, fields => return fields
  | bound + 1, fields => do
    let kind ← currentKind
    if kind.canBeginExpr || kind = .symbol .openBracket then
      let fields := fields.push (← tableField inner)
      match ← currentKind with
      | .symbol .comma | .symbol .semi =>
        tableFields inner bound (fields.delimit (← advance))
      | _ => return fields
    else return fields

/-- A table, from its opening brace on. -/
def table (inner : Level) : Parse Table := do
  let opening ← advance
  let fields ← tableFields inner (← remaining) (.empty opening.span.stop)
  return ⟨opening, fields, ← expectClosing (.symbol .closeBrace) opening⟩

/-! ### Functions -/

/-- Parameters with commas between them; nothing comes after the three dots. -/
def parameters : (bound : Nat) → Separated Param → Parse (Separated Param)
  | 0, params => return params
  | bound + 1, params => do
    match ← currentKind with
    | .ident =>
      let params := params.push (.name ⟨← advance⟩)
      match ← take? (.symbol .comma) with
      | some comma => parameters bound (params.delimit comma)
      | none => return params
    | .symbol .dotDotDot => return params.push (.vararg ⟨← advance⟩)
    | _ =>
      errorExpected "parameter name" []
      return params

/-- All parameters of a function, up to the closing parenthesis. -/
def parameterList : Parse (Separated Param) := do
  let anchor ← lastStop
  if ← atKind (.symbol .closeParen) then return .empty anchor
  else parameters ((← remaining) + 1) (.empty anchor)

/-- Parameters and body of a function. An error in its end points to the `function` keyword. -/
def funcBody (inner : Level) (keyword : Token) : Parse FuncBody := do
  let opening ← expect (.symbol .openParen)
  let params ← parameterList
  let closing ← expect (.symbol .closeParen)
  let block ← inner.blockHere
  return ⟨opening, params, closing, block, ← expectClosing (.keyword .end_) keyword⟩

/-! ### Suffixes -/

/-- The arguments of a call, up to the closing parenthesis. -/
def argList (inner : Level) : Parse (Separated Expr) := do
  if ← atKind (.symbol .closeParen) then return .empty (← lastStop) else inner.exprList

def callArgs (inner : Level) : Parse CallArgs := do
  match ← currentKind with
  | .string => return .string ⟨.string, ← advance⟩
  | .symbol .openBrace => return .table (← table inner)
  | .symbol .openParen =>
    let opening ← advance
    let args ← argList inner
    return .paren opening args (← expectClosing (.symbol .closeParen) opening)
  | _ =>
    errorExpected "function arguments" []
    let anchor ← lastStop
    return .paren (.missing (.symbol .openParen) anchor) (.empty anchor)
      (.missing (.symbol .closeParen) anchor)

/-- The kind begins a suffix. -/
def beginsSuffix (calls : Bool) : TokenKind → Bool
  | .symbol .dot | .symbol .openBracket => true
  | .symbol .colon | .symbol .openParen | .string | .symbol .openBrace => calls
  | _ => false

/-- The suffix at the current token. -/
def suffix (inner : Level) (base : Expr) : Parse Expr := do
  match ← currentKind with
  | .symbol .dot =>
    let dot ← advance
    return .field base dot (← identifier)
  | .symbol .openBracket =>
    let opening ← advance
    let key ← inner.expression
    return .index base opening key (← expectClosing (.symbol .closeBracket) opening)
  | .symbol .colon =>
    let colon ← advance
    let name ← identifier
    return .methodCall base colon name (← callArgs inner)
  | _ => return .call base (← callArgs inner)

/-- What can stand before suffixes: a name or an expression in parentheses. -/
def primary (inner : Level) : Parse Expr := do
  match ← currentKind with
  | .ident => return .name ⟨← advance⟩
  | .symbol .openParen =>
    let opening ← advance
    let e ← inner.expression
    return .paren opening e (← expectClosing (.symbol .closeParen) opening)
  -- The lexer has reported it.
  | .invalid =>
    let t ← advance
    return .invalid none [t] t.span.start
  | _ => missingExpr

def suffixed (inner : Level) (calls : Bool) : Parse Expr := do
  inner.suffixes calls (← primary inner)

/-! ### Operands -/

def literal (kind : LiteralKind) : Parse Expr := do return .literal ⟨kind, ← advance⟩

def simpleExpr (inner : Level) : Parse Expr := do
  match ← currentKind with
  | .keyword .nil_ => literal .nil_
  | .keyword .true_ => literal .true_
  | .keyword .false_ => literal .false_
  | .number => literal .number
  | .string => literal .string
  | .symbol .dotDotDot => return .vararg ⟨← advance⟩
  | .symbol .openBrace => return .table (← table inner)
  | .keyword .function_ =>
    let keyword ← advance
    return .function keyword (← funcBody inner keyword)
  | _ => suffixed inner true

/-- An operand of binary operators: a simple expression, or a unary operator and its operand. -/
def operand (inner : Level) : Parse Expr := do
  match (← currentKind).unaryOp? with
  | none => simpleExpr inner
  | some op =>
    let sign ← advance
    return .unary op sign (← inner.expr op.power)

/-! ### The expressions of the next level out -/

/-- An expression cut off by the nesting limit: what was read of it, and the tokens given up. -/
def cutOff (kept : Option Expr) (tokens : List Token) : Parse Expr := do
  return .invalid kept tokens (← lastStop)

def exprAround (inner : Level) (power : Nat) : Parse Expr :=
  nested (cutOff none) do
    let first ← operand inner
    inner.operators power first

/-- Each operator takes a level of its own, in which its right operand and the rest of the chain
stand. -/
def operatorsAround (inner : Level) (power : Nat) (first : Expr) : Parse Expr := do
  match (← currentKind).binaryOp? with
  | none => return first
  | some op =>
    if op.leftPower ≤ power then return first
    else
      nested (cutOff (some first)) do
        let sign ← advance
        let second ← inner.expr op.rightPower
        inner.operators power (.binary first op sign second)

/-- Each suffix takes a level of its own, in which it and those after it stand. -/
def suffixesAround (inner : Level) (calls : Bool) (base : Expr) : Parse Expr := do
  if beginsSuffix calls (← currentKind) then
    nested (cutOff (some base)) do
      inner.suffixes calls (← suffix inner base)
  else return base

end LuaFront.Grammar
