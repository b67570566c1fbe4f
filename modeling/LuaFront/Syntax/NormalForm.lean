import LuaFront.Syntax.Tree

/-!
A normal form of trees as text, which shows how a text was understood. Every unary and binary
expression stands in parentheses, every call has them around its arguments, and the statements of
an inner block stand on lines of their own, indented by two more spaces.
-/

namespace LuaFront

namespace NormalForm

def pad (indent : Nat) : String := String.ofList (List.replicate (2 * indent) ' ')

/-- The lines of an inner block and the line that closes it, after what opens it. -/
def body (indent : Nat) (lines : List String) (close : String) : String :=
  String.join (lines.map ("\n" ++ ·)) ++ "\n" ++ pad indent ++ close

/-- A block and further ones after it, each given with the line that comes before it. -/
def bodies (indent : Nat) (lines : List String) (close : String) :
    List (String × List String) → String
  | [] => body indent lines close
  | (between, next) :: more => body indent lines between ++ bodies indent next close more

def commas (texts : List String) : String := String.intercalate ", " texts

def names (l : Separated Identifier) : String := commas (l.items.map (·.name))

def param : Param → String
  | .name id => id.name
  | .vararg _ => "..."

/-- The word operator keeps a space to its operand. -/
def sign : UnaryOp → String
  | .not_ => "not "
  | op => op.spelling

def call (callee args : String) : String := callee ++ "(" ++ args ++ ")"

mutual

def expr (indent : Nat) : Expr → String
  | .literal lit => lit.token.text
  | .vararg _ => "..."
  | .name id => id.name
  | .function _ f => "function" ++ funcBody indent f
  | .table t => table indent t
  | .paren _ inner _ => "(" ++ expr indent inner ++ ")"
  | .field base _ name => expr indent base ++ "." ++ name.name
  | .index base _ key _ => expr indent base ++ "[" ++ expr indent key ++ "]"
  | .call callee args => call (expr indent callee) (callArgs indent args)
  | .methodCall receiver _ name args =>
    call (expr indent receiver ++ ":" ++ name.name) (callArgs indent args)
  | .unary op _ operand => "(" ++ sign op ++ expr indent operand ++ ")"
  | .binary lhs op _ rhs =>
    "(" ++ expr indent lhs ++ " " ++ op.spelling ++ " " ++ expr indent rhs ++ ")"
  | .invalid _ _ _ => "<error>"

def exprs (indent : Nat) : List (Pair Expr) → List String
  | [] => []
  | ⟨e, _⟩ :: more => expr indent e :: exprs indent more

def callArgs (indent : Nat) : CallArgs → String
  | .paren _ ⟨args, _⟩ _ => commas (exprs indent args)
  | .table t => table indent t
  | .string lit => lit.token.text

def table (indent : Nat) : Table → String
  | ⟨_, ⟨fs, _⟩, _⟩ => "\x7b" ++ commas (fields indent fs) ++ "\x7d"

def fields (indent : Nat) : List (Pair TableField) → List String
  | [] => []
  | ⟨f, _⟩ :: more => field indent f :: fields indent more

def field (indent : Nat) : TableField → String
  | .positional value => expr indent value
  | .named name _ value => name.name ++ " = " ++ expr indent value
  | .keyed _ key _ _ value => "[" ++ expr indent key ++ "] = " ++ expr indent value

def funcBody (indent : Nat) : FuncBody → String
  | ⟨_, params, _, b, _⟩ =>
    "(" ++ commas (params.items.map param) ++ ")" ++ body indent (block (indent + 1) b) "end"

/-- The lines of a block. -/
def block (indent : Nat) : Block → List String
  | ⟨ss, _⟩ => stats indent ss

def stats (indent : Nat) : List Stat → List String
  | [] => []
  | s :: more => (pad indent ++ stat indent s) :: stats indent more

def stat (indent : Nat) : Stat → String
  | .empty _ => ";"
  | .assign ⟨targets, _⟩ _ ⟨values, _⟩ =>
    commas (exprs indent targets) ++ " = " ++ commas (exprs indent values)
  | .call e => expr indent e
  | .do_ _ b _ => "do" ++ body indent (block (indent + 1) b) "end"
  | .while_ _ cond _ b _ =>
    "while " ++ expr indent cond ++ " do" ++ body indent (block (indent + 1) b) "end"
  | .repeat_ _ b _ cond =>
    "repeat" ++ body indent (block (indent + 1) b) ("until " ++ expr indent cond)
  | .if_ s => ifStat indent s
  | .numericFor s => numericFor indent s
  | .genericFor s => genericFor indent s
  | .function _ name method f =>
    "function " ++ expr indent name
      ++ String.join (method.toList.map fun m => ":" ++ m.name.name) ++ funcBody indent f
  | .localFunction _ _ name f => "local function " ++ name.name ++ funcBody indent f
  | .local_ _ ns _ ⟨values, _⟩ =>
    "local " ++ names ns
      ++ if values.isEmpty then "" else " = " ++ commas (exprs indent values)
  | .return_ _ ⟨values, _⟩ _ =>
    if values.isEmpty then "return" else "return " ++ commas (exprs indent values)
  | .break_ _ => "break"
  | .goto_ _ name => "goto " ++ name.name
  | .label _ name _ => "::" ++ name.name ++ "::"
  | .invalid _ _ _ => "<error>"

def ifStat (indent : Nat) : IfStat → String
  | ⟨_, cond, _, b, clauses, last, _⟩ =>
    "if " ++ expr indent cond ++ " then"
      ++ bodies indent (block (indent + 1) b) "end" (elseIfs indent clauses ++ else_ indent last)

/-- Each clause as its first line and the lines of its block. -/
def elseIfs (indent : Nat) : List ElseIf → List (String × List String)
  | [] => []
  | ⟨_, cond, _, b⟩ :: more =>
    ("elseif " ++ expr indent cond ++ " then", block (indent + 1) b) :: elseIfs indent more

def else_ (indent : Nat) : Option Else → List (String × List String)
  | none => []
  | some ⟨_, b⟩ => [("else", block (indent + 1) b)]

def numericFor (indent : Nat) : NumericFor → String
  | ⟨_, var, _, start, _, limit, last, _, b, _⟩ =>
    "for " ++ var.name ++ " = " ++ expr indent start ++ ", " ++ expr indent limit
      ++ step indent last ++ " do" ++ body indent (block (indent + 1) b) "end"

def step (indent : Nat) : Option Step → String
  | none => ""
  | some ⟨_, value⟩ => ", " ++ expr indent value

def genericFor (indent : Nat) : GenericFor → String
  | ⟨_, ns, _, ⟨values, _⟩, _, b, _⟩ =>
    "for " ++ names ns ++ " in " ++ commas (exprs indent values) ++ " do"
      ++ body indent (block (indent + 1) b) "end"

end

end NormalForm

def Expr.normalForm (e : Expr) : String := NormalForm.expr 0 e

def Block.normalForm (b : Block) : String := String.intercalate "\n" (NormalForm.block 0 b)

end LuaFront
