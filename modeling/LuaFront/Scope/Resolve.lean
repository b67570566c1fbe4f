import LuaFront.Scope.Enclosing
import LuaFront.Traversal.Walk

/-!
The names visible at an offset, and the declaration that a name refers to. Inner declarations
hide outer ones of the same name, and later ones hide earlier ones.
-/

namespace LuaFront

namespace Binding

/-- Puts a binding in the place of the one of the same name, or at the end if there is none. -/
def put (b : Binding) : List Binding → List Binding
  | [] => [b]
  | c :: rest => if c.name = b.name then b :: rest else c :: put b rest

/-- One binding for each name, the last one. The names come in the order of their first
bindings. -/
def distinct (bs : List Binding) : List Binding := bs.foldl (fun kept b => b.put kept) []

end Binding

namespace Block

/-- The bindings visible at an offset, one for each name. -/
def visible (root : Block) (pos : Offset) : List Binding :=
  Binding.distinct ((Node.block root).enclosing pos)

/-- The binding that a name has at an offset: the last one in the innermost frame that has one. -/
def lookup? (root : Block) (pos : Offset) (name : String) : Option Binding :=
  ((Node.block root).frames pos).reverse.findSome? fun frame => frame.reverse.find? (·.name = name)

/-- What is found frame by frame is the last binding of the name in all of them. -/
theorem lookup?_eq (root : Block) (pos : Offset) (name : String) :
    root.lookup? pos name = ((Node.block root).enclosing pos).reverse.find? (·.name = name) := by
  rw [lookup?, Node.enclosing, List.reverse_flatten, List.find?_flatten, ← List.map_reverse,
    List.findSome?_map]
  rfl

/-- The binding that an identifier declares, if it stands in a declaration. Only nodes that enclose
it are searched. -/
def declaredBy? (root : Block) (id : Identifier) : Option Binding :=
  (Node.block root).walk
    (fun n found =>
      if found.isSome || !n.span.encloses id.token.span then (false, found)
      else
        let found := n.declared.find? (·.id = id)
        (found.isNone, found))
    none

/-- The binding that an identifier refers to. One that stands in a declaration refers to itself;
for any other the name is looked up where it stands. A name without a binding is global. -/
def resolve? (root : Block) (id : Identifier) : Option Binding :=
  (root.declaredBy? id).or (root.lookup? id.token.span.start id.name)

end Block

end LuaFront
