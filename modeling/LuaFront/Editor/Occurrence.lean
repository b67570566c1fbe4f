import LuaFront.Editor.Document
import LuaFront.Scope.Resolve
import LuaFront.Syntax.NodeKind
import LuaFront.Traversal.Path

/-!
Where names of variables occur in a document. Names of fields, methods, table keys and labels
belong to no variable. All occurrences that refer to one declaration belong together; so do all
occurrences of one name without a declaration.
-/

namespace LuaFront

/-- The identifiers of a node that name no variable. -/
def Node.labels : Node → List Identifier
  | expr (.field _ _ name) => [name]
  | expr (.methodCall _ _ name _) => [name]
  | tableField (.named name _ _) => [name]
  | stat (.goto_ _ name) => [name]
  | stat (.label _ name _) => [name]
  | stat (.function _ _ (some method) _) => [method.name]
  | _ => []

namespace Document

/-- The identifiers that name variables, in the order of the text. -/
def occurrences (d : Document) : List Identifier :=
  let nodes := d.root.preorder
  let labels := nodes.flatMap Node.labels
  (nodes.filterMap Node.identifier?).filter fun id => id.name ≠ "" && id ∉ labels

def resolve? (d : Document) (id : Identifier) : Option Binding := d.parsed.block.resolve? id

/-- The identifier at an offset. -/
def identifierAt? (d : Document) (pos : Offset) : Option Identifier :=
  (d.root.locate? pos).bind fun path => path.node.identifier?

/-- The variable name at a place, or the one that ends there. -/
def nameAt (d : Document) (at_ : Place) : Except EditorError (Option Identifier) := do
  let pos ← d.offset at_
  let found := (d.identifierAt? pos).or (if pos = 0 then none else d.identifierAt? (pos - 1))
  return found.filter (· ∈ d.occurrences)

/-- Where the variable named at a place is declared. -/
def definition (d : Document) (at_ : Place) : Except EditorError (Option Range) := do
  let name ← d.nameAt at_
  return (name.bind d.resolve?).bind fun b => d.range? b.id.token.span

/-- All occurrences of the variable named at a place, in the order of the text. -/
def highlights (d : Document) (at_ : Place) : Except EditorError (List Range) := do
  match ← d.nameAt at_ with
  | none => return []
  | some id =>
    let declaration (id : Identifier) := (d.resolve? id).map (·.id)
    let target := declaration id
    let same := d.occurrences.filter fun other =>
      other.name = id.name && declaration other = target
    return same.filterMap fun other => d.range? other.token.span

end Document

end LuaFront
