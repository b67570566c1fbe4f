import LuaFront.Syntax.Node

/-!
Visiting the nodes of a tree, each before what is below it and from left to right. The nodes still
to be visited are kept in a list, so that deep trees need no deep recursion.
-/

namespace LuaFront

namespace Node

/-- All nodes of a tree, each before those below it. -/
def preorder (n : Node) : List Node :=
  n :: n.children.attach.flatMap fun ⟨m, _⟩ => m.preorder
termination_by sizeOf n
decreasing_by exact sizeOf_lt_of_mem_children ‹_›

theorem preorder_eq (n : Node) : n.preorder = n :: n.children.flatMap preorder := by
  rw [preorder]
  conv => rhs; rw [← List.attach_map_subtype_val n.children, List.flatMap_map]

theorem length_preorder_pos (n : Node) : 0 < n.preorder.length := by
  rw [preorder_eq]
  simp

/-- Visits the nodes of a list in turn, and after each what is below it, unless the visitor
answers `false`. The visitor may keep a state. -/
def walkAll {σ : Type} (visit : Node → σ → Bool × σ) : List Node → σ → σ
  | [], state => state
  | n :: rest, state =>
    match visit n state with
    | (true, state) => walkAll visit (n.children ++ rest) state
    | (false, state) => walkAll visit rest state
termination_by pending => (pending.flatMap preorder).length
decreasing_by
  · simp [preorder_eq n]
  · have := length_preorder_pos n
    simp only [List.flatMap_cons, List.length_append]
    omega

/-- Visits a node and what is below it. -/
def walk {σ : Type} (visit : Node → σ → Bool × σ) (n : Node) (state : σ) : σ :=
  walkAll visit [n] state

end Node

end LuaFront
