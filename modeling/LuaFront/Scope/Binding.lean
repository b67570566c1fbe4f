import LuaFront.Syntax.Node

/-!
Declarations of names. A statement or the head of a function declares names; a binding is one of
these names with the place where it is declared.
-/

namespace LuaFront

inductive BindingKind where
  | local_ | localFunction | parameter | loopVariable
  deriving DecidableEq

def BindingKind.name : BindingKind → String
  | local_ => "local"
  | localFunction => "local function"
  | parameter => "parameter"
  | loopVariable => "loop variable"

structure Binding where
  name : String
  kind : BindingKind
  /-- The identifier that declares the name. A method's `self` is declared by the name of the
  method. -/
  id : Identifier
  /-- The token with which the declaration begins, whose trivia hold comments on it. -/
  decl : Token
  deriving DecidableEq

namespace Binding

/-- The binding of a name that is written out. -/
def named (kind : BindingKind) (decl : Token) (id : Identifier) : Binding :=
  ⟨id.name, kind, id, decl⟩

/-- The name that a method binds without its being written among the parameters. -/
def self (keyword : Token) (method : MethodName) : Binding :=
  ⟨"self", .parameter, method.name, keyword⟩

end Binding

/-- The names that a statement declares, wherever they are visible. -/
def Stat.declared : Stat → List Binding
  | local_ keyword names _ _ => names.items.map (.named .local_ keyword)
  | localFunction keyword _ name _ => [.named .localFunction keyword name]
  | numericFor s => [.named .loopVariable s.keyword s.var]
  | genericFor s => s.names.items.map (.named .loopVariable s.keyword)
  | _ => []

/-- The name that a parameter declares; the three dots declare none. -/
def Param.declared? : Param → Option Binding
  | name id => some (.named .parameter id.token id)
  | vararg _ => none

def FuncBody.declared (f : FuncBody) : List Binding := f.params.items.filterMap Param.declared?

namespace Node

/-- The names written at a node that declares them. -/
def declared : Node → List Binding
  | stat s => s.declared
  | funcBody f => f.declared
  | _ => []

/-- The names that a statement declares for the statements after it. -/
def locals : Node → List Binding
  | stat (.local_ keyword names eq values) => (Stat.local_ keyword names eq values).declared
  | stat (.localFunction keyword second name body) =>
    (Stat.localFunction keyword second name body).declared
  | _ => []

end Node

end LuaFront
