import LuaFront.Syntax.Operator
import LuaFront.Syntax.Separated

/-!
The syntax tree of a chunk. A tree keeps every token that it was made from, keywords and
punctuation included, so that nothing else need be stored: only an empty block, an empty list and
an empty invalid node keep the offset at which they stand.

Recovery from errors leaves two marks. A token that was expected and not found is a missing token
of width zero; what could not be read as anything is an invalid node, which holds the expression
that was read before the error, if any, and the tokens skipped after it.
-/

namespace LuaFront

structure Identifier where
  token : Token
  deriving DecidableEq

def Identifier.name (id : Identifier) : String := id.token.text

inductive LiteralKind where
  | nil_ | true_ | false_ | number | string
  deriving DecidableEq

structure Literal where
  kind : LiteralKind
  token : Token

/-- The three dots that stand for the extra arguments of a function. -/
structure Vararg where
  token : Token

inductive Param where
  | name (id : Identifier)
  | vararg (dots : Vararg)

/-- The colon and the last part of a method's name. -/
structure MethodName where
  colon : Token
  name : Identifier

mutual

inductive Expr where
  | literal (lit : Literal)
  | vararg (dots : Vararg)
  | name (id : Identifier)
  | function (keyword : Token) (body : FuncBody)
  | table (table : Table)
  | paren (opening : Token) (inner : Expr) (closing : Token)
  | field (base : Expr) (dot : Token) (name : Identifier)
  | index (base : Expr) (opening : Token) (key : Expr) (closing : Token)
  | call (callee : Expr) (args : CallArgs)
  | methodCall (receiver : Expr) (colon : Token) (name : Identifier) (args : CallArgs)
  | unary (op : UnaryOp) (sign : Token) (operand : Expr)
  | binary (lhs : Expr) (op : BinaryOp) (sign : Token) (rhs : Expr)
  | invalid (kept : Option Expr) (skipped : List Token) (anchor : Offset)

inductive CallArgs where
  | paren (opening : Token) (args : Separated Expr) (closing : Token)
  | table (table : Table)
  | string (lit : Literal)

structure Table where
  opening : Token
  fields : Separated TableField
  closing : Token

inductive TableField where
  | positional (value : Expr)
  | named (name : Identifier) (eq : Token) (value : Expr)
  | keyed (opening : Token) (key : Expr) (closing : Token) (eq : Token) (value : Expr)

/-- Parameters and block of a function, from the opening parenthesis on. -/
structure FuncBody where
  opening : Token
  params : Separated Param
  closing : Token
  block : Block
  close : Token

structure Block where
  stats : List Stat
  anchor : Offset

inductive Stat where
  | empty (semi : Token)
  | assign (targets : Separated Expr) (eq : Token) (values : Separated Expr)
  | call (call : Expr)
  | do_ (keyword : Token) (block : Block) (close : Token)
  | while_ (keyword : Token) (cond : Expr) (opener : Token) (block : Block) (close : Token)
  | repeat_ (keyword : Token) (block : Block) (close : Token) (cond : Expr)
  | if_ (stat : IfStat)
  | numericFor (stat : NumericFor)
  | genericFor (stat : GenericFor)
  | function (keyword : Token) (name : Expr) (method : Option MethodName) (body : FuncBody)
  | localFunction (keyword : Token) (function : Token) (name : Identifier) (body : FuncBody)
  | local_ (keyword : Token) (names : Separated Identifier) (eq : Option Token)
      (values : Separated Expr)
  | return_ (keyword : Token) (values : Separated Expr) (semi : Option Token)
  | break_ (keyword : Token)
  | goto_ (keyword : Token) (label : Identifier)
  | label (opening : Token) (name : Identifier) (closing : Token)
  | invalid (kept : Option Expr) (skipped : List Token) (anchor : Offset)

structure IfStat where
  keyword : Token
  cond : Expr
  opener : Token
  block : Block
  elseIfs : List ElseIf
  else_ : Option Else
  close : Token

structure ElseIf where
  keyword : Token
  cond : Expr
  opener : Token
  block : Block

structure Else where
  keyword : Token
  block : Block

structure NumericFor where
  keyword : Token
  var : Identifier
  eq : Token
  start : Expr
  comma : Token
  limit : Expr
  step : Option Step
  opener : Token
  block : Block
  close : Token

/-- The second comma of a numeric loop and the step after it. -/
structure Step where
  comma : Token
  value : Expr

structure GenericFor where
  keyword : Token
  names : Separated Identifier
  in_ : Token
  exprs : Separated Expr
  opener : Token
  block : Block
  close : Token

end

namespace Expr

/-- What may stand on the left of an equals sign. -/
def isAssignable : Expr → Bool
  | name .. | field .. | index .. => true
  | _ => false

def isCall : Expr → Bool
  | call .. | methodCall .. => true
  | _ => false

def isInvalid : Expr → Bool
  | invalid .. => true
  | _ => false

end Expr

def Stat.isReturn : Stat → Bool
  | return_ .. => true
  | _ => false

end LuaFront
