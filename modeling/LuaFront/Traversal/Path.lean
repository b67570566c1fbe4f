import LuaFront.Syntax.Extent

/-!
The way from the root of a tree to the innermost node at an offset. Nodes of width zero are never
on it. Nodes that are equal may stand at different places of a tree; the route tells them apart.
-/

namespace LuaFront

/-- A node of a tree with those around it. -/
structure Path where
  node : Node
  /-- The nodes around it, from the root inwards. -/
  parents : List Node
  /-- For each of these, which of its children is the next one. -/
  route : List Nat

namespace Path

def parent? (p : Path) : Option Node := p.parents.getLast?

/-- The nodes around it, from the innermost outwards. -/
def ancestors (p : Path) : List Node := p.parents.reverse

end Path

namespace Node

/-- The offset lies in the node. -/
def covers (pos : Offset) (n : Node) : Bool := !n.span.isEmpty && n.span.contains pos

/-- The innermost node at an offset that lies in `n`, on the way through the first child that
covers the offset. -/
def innermost (pos : Offset) (n : Node) : Path :=
  match h : n.children.findIdx? (covers pos) with
  | none => ⟨n, [], []⟩
  | some i =>
    have hlt : i < n.children.length := (List.findIdx?_eq_some_iff_getElem.1 h).1
    let path := innermost pos n.children[i]
    ⟨path.node, n :: path.parents, i :: path.route⟩
termination_by sizeOf n
decreasing_by exact sizeOf_lt_of_mem_children (List.getElem_mem hlt)

/-- The innermost node at an offset, if the offset lies in the tree. -/
def locate? (pos : Offset) (root : Node) : Option Path :=
  if root.covers pos then some (root.innermost pos) else none

end Node

end LuaFront
