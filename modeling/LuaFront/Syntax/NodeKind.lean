import LuaFront.Syntax.Node

/-!
The kinds of node: one for each form of statement and expression, and one for every other node.
-/

namespace LuaFront

inductive NodeKind where
  | block
  | emptyStat | assignStat | callStat | doStat | whileStat | repeatStat | ifStat | elseIfClause
  | elseClause | numericForStat | genericForStat | functionStat | localFunctionStat | localStat
  | returnStat | breakStat | gotoStat | labelStat | invalidStat
  | funcBody | tableField | tableExpr
  | functionExpr | parenExpr | fieldExpr | indexExpr | callExpr | methodCallExpr | unaryExpr
  | binaryExpr | invalidExpr
  | identifier | literal | varargExpr
  deriving DecidableEq

def Stat.kind : Stat → NodeKind
  | empty .. => .emptyStat
  | assign .. => .assignStat
  | call .. => .callStat
  | do_ .. => .doStat
  | while_ .. => .whileStat
  | repeat_ .. => .repeatStat
  | if_ .. => .ifStat
  | numericFor .. => .numericForStat
  | genericFor .. => .genericForStat
  | function .. => .functionStat
  | localFunction .. => .localFunctionStat
  | local_ .. => .localStat
  | return_ .. => .returnStat
  | break_ .. => .breakStat
  | goto_ .. => .gotoStat
  | label .. => .labelStat
  | invalid .. => .invalidStat

def Expr.kind : Expr → NodeKind
  | literal .. => .literal
  | vararg .. => .varargExpr
  | name .. => .identifier
  | function .. => .functionExpr
  | table .. => .tableExpr
  | paren .. => .parenExpr
  | field .. => .fieldExpr
  | index .. => .indexExpr
  | call .. => .callExpr
  | methodCall .. => .methodCallExpr
  | unary .. => .unaryExpr
  | binary .. => .binaryExpr
  | invalid .. => .invalidExpr

namespace Node

def kind : Node → NodeKind
  | block _ => .block
  | stat s => s.kind
  | elseIf _ => .elseIfClause
  | else_ _ => .elseClause
  | funcBody _ => .funcBody
  | tableField _ => .tableField
  | table _ => .tableExpr
  | expr e => e.kind
  | identifier _ => .identifier
  | literal _ => .literal
  | vararg _ => .varargExpr

/-- Leaves are what an editor points at. -/
def isLeaf : Node → Bool
  | identifier _ | literal _ | vararg _ => true
  | _ => false

def identifier? : Node → Option Identifier
  | identifier id => some id
  | _ => none

end Node

end LuaFront
