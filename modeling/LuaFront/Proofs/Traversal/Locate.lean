import LuaFront.Proofs.Chunk.Spans
import LuaFront.Traversal.Path
import Mathlib.Data.List.Chain
import Mathlib.Order.MinMax

/-!
Finding what is around an offset. The way inwards takes the first child that covers the offset at
each node. As the children of a node lie in its span and do not overlap, no other child covers the
offset, so that the way meets every node that does.
-/

namespace LuaFront

/-- The nodes on the way, from the root to the innermost one. -/
def Path.nodes (p : Path) : List Node := p.parents ++ [p.node]

namespace Node

variable {n m : Node} {pos : Offset}

/-! ### Walks that skip nothing -/

lemma walkAll_unpruned {σ : Type} (visit : Node → σ → σ) (ns : List Node) (state : σ) :
    walkAll (fun n state => (true, visit n state)) ns state
      = (ns.flatMap preorder).foldl (fun state n => visit n state) state := by
  fun_induction walkAll (fun n state => (true, visit n state)) ns state with
  | case1 => rfl
  | case2 n rest state state' hvisit ih =>
    cases hvisit
    rw [ih, List.flatMap_cons, preorder_eq]
    simp
  | case3 n rest state state' hvisit => cases hvisit

/-- What a walk visits that skips nothing. -/
def visited (root : Node) : List Node := root.walk (fun n seen => (true, seen ++ [n])) []

lemma visited_eq (root : Node) : root.visited = root.preorder := by
  have hfold : ∀ ns seen : List Node, ns.foldl (fun seen n => seen ++ [n]) seen = seen ++ ns := by
    intro ns
    induction ns with
    | nil => simp
    | cons n ns ih => simp [ih]
  have hwalk := walkAll_unpruned (fun n seen => seen ++ [n]) [root] []
  rw [visited, walk, hwalk, hfold]
  simp

/-! ### The way inwards -/

lemma covers_iff : n.covers pos = true ↔ n.span.start ≤ pos ∧ pos < n.span.stop := by
  unfold covers Span.contains Span.isEmpty
  by_cases hempty : n.span.start = n.span.stop
  · simp [hempty]
  · simp [hempty]

lemma covers_identifier_iff {id : Identifier} :
    (identifier id).covers pos = true ↔ id.token.span.start ≤ pos ∧ pos < id.token.span.stop := by
  have hspan : (identifier id).span = .join id.token.span id.token.span := by
    simp [span_eq, parts, Part.span]
  rw [covers_iff, hspan, Span.join, lt_max_iff]
  refine and_congr_right fun hlo => or_iff_left ?_
  exact Nat.not_lt.2 hlo

lemma innermost_of_none (h : ∀ m ∈ n.children, m.covers pos = false) :
    n.innermost pos = ⟨n, [], []⟩ := by
  have hnone : n.children.findIdx? (covers pos) = none := by simpa using h
  rw [innermost]
  split
  · rfl
  · next i hi => simp [hnone] at hi

lemma innermost_of_child {before after : List Node} (hn : n.children = before ++ m :: after)
    (hbefore : ∀ k ∈ before, k.covers pos = false) (hm : m.covers pos = true) :
    n.innermost pos = ⟨(m.innermost pos).node, n :: (m.innermost pos).parents,
      before.length :: (m.innermost pos).route⟩ := by
  have hfind : n.children.findIdx? (covers pos) = some before.length := by
    rw [hn, List.findIdx?_append, List.findIdx?_eq_none_iff.2 hbefore, List.findIdx?_cons, hm]
    simp
  rw [innermost]
  split
  · next hnone => simp [hfind] at hnone
  · next i hi =>
    obtain rfl : before.length = i := by simpa [hfind] using hi
    simp [hn]

/-- A node that no child continues is the innermost one, and the way through a child begins with the
node. -/
lemma innermost_nodes (pos : Offset) (n : Node) :
    (n.innermost pos).nodes = [n] ∧ (∀ m ∈ n.children, m.covers pos = false)
      ∨ ∃ (before : List Node) (m : Node) (after : List Node), n.children = before ++ m :: after
        ∧ (∀ k ∈ before, k.covers pos = false) ∧ m.covers pos = true
        ∧ (n.innermost pos).nodes = n :: (m.innermost pos).nodes := by
  rcases hfind : n.children.findIdx? (covers pos) with _ | i
  · have hnone : ∀ m ∈ n.children, m.covers pos = false := List.findIdx?_eq_none_iff.1 hfind
    exact .inl ⟨by rw [innermost_of_none hnone]; rfl, hnone⟩
  · obtain ⟨hlt, hm, hbefore⟩ := List.findIdx?_eq_some_iff_getElem.1 hfind
    have hchildren : n.children
        = n.children.take i ++ n.children[i] :: n.children.drop (i + 1) := by simp
    have hnone : ∀ k ∈ n.children.take i, k.covers pos = false := by
      intro k hk
      obtain ⟨j, hj, rfl⟩ := List.mem_take_iff_getElem.1 hk
      simpa using hbefore j (by omega)
    refine .inr ⟨_, _, _, hchildren, hnone, hm, ?_⟩
    rw [innermost_of_child hchildren hnone hm]
    rfl

/-- Each node on the way is a child of the one before it. -/
lemma innermost_chain (pos : Offset) (n : Node) :
    (n.innermost pos).nodes.head? = some n
      ∧ (n.innermost pos).nodes.IsChain fun k m => m ∈ k.children := by
  induction n using Node.induction with
  | step n ih =>
    rcases innermost_nodes pos n with ⟨hnodes, -⟩ | ⟨before, m, after, hn, -, -, hnodes⟩
    · rw [hnodes]
      exact ⟨rfl, .singleton n⟩
    · have hm : m ∈ n.children := by simp [hn]
      obtain ⟨hhead, hchain⟩ := ih m hm
      rw [hnodes]
      refine ⟨rfl, List.isChain_cons.2 ⟨fun k hk => ?_, hchain⟩⟩
      rw [hhead] at hk
      cases hk
      exact hm

/-! ### What covers an offset -/

/-- What covers an offset lies in a node that covers it. -/
lemma InOrder.covers_of_child (h : n.InOrder) (hm : m ∈ n.children) (hpos : m.covers pos = true) :
    n.covers pos = true := by
  obtain ⟨size, hspanned⟩ := h.spanned
  obtain ⟨hstart, hstop⟩ := hspanned.children m hm
  rw [covers_iff] at hpos ⊢
  exact ⟨Nat.le_trans hstart hpos.1, Nat.lt_of_lt_of_le hpos.2 hstop⟩

lemma InOrder.covers_of_mem_preorder (h : n.InOrder) (hm : m ∈ n.preorder)
    (hpos : m.covers pos = true) : n.covers pos = true := by
  induction n using Node.induction with
  | step n ih =>
    rcases mem_preorder_cases hm with rfl | ⟨c, hc, hm⟩
    · exact hpos
    · exact h.covers_of_child hc (ih c hc (h.child hc) hm)

/-- Of the children of a node only one covers an offset. -/
lemma InOrder.not_covers_after (h : n.InOrder) {before after : List Node}
    (hn : n.children = before ++ m :: after) (hm : m.covers pos = true) :
    ∀ k ∈ after, k.covers pos = false := by
  intro k hk
  obtain ⟨size, hspanned⟩ := h.spanned
  have hordered := hspanned.ordered
  rw [hn, List.pairwise_append, List.pairwise_cons] at hordered
  have hle := hordered.2.1.1 k hk
  rw [covers_iff] at hm
  rw [← Bool.not_eq_true, covers_iff]
  intro hcovers
  exact absurd (Nat.lt_of_lt_of_le hm.2 hle) (Nat.not_lt.2 hcovers.1)

lemma InOrder.filter_of_not_covers (h : n.InOrder) (hpos : n.covers pos = false) :
    n.preorder.filter (covers pos) = [] := by
  rw [List.filter_eq_nil_iff]
  intro m hm hcovers
  rw [h.covers_of_mem_preorder hm hcovers] at hpos
  cases hpos

/-- **The way inwards meets every node that covers the offset**, and no other. -/
lemma InOrder.filter_covers (h : n.InOrder) (hpos : n.covers pos = true) :
    n.preorder.filter (covers pos) = (n.innermost pos).nodes := by
  induction n using Node.induction with
  | step n ih =>
    have hbare : ∀ k ∈ n.children, k.covers pos = false → k.preorder.filter (covers pos) = [] :=
      fun k hk => (h.child hk).filter_of_not_covers
    rw [preorder_eq, List.filter_cons_of_pos hpos, List.filter_flatMap]
    rcases innermost_nodes pos n with ⟨hnodes, hnone⟩ | ⟨before, m, after, hn, hbefore, hm, hnodes⟩
    · rw [hnodes, List.flatMap_eq_nil_iff.2 fun k hk => hbare k hk (hnone k hk)]
    · have hmem : ∀ k ∈ before ++ m :: after, k ∈ n.children := fun k hk => hn ▸ hk
      have hafter := h.not_covers_after hn hm
      rw [hnodes, hn, List.flatMap_append, List.flatMap_cons,
        List.flatMap_eq_nil_iff.2 fun k hk => hbare k (hmem k (by simp [hk])) (hbefore k hk),
        List.flatMap_eq_nil_iff.2 fun k hk => hbare k (hmem k (by simp [hk])) (hafter k hk),
        ih m (hmem m (by simp)) (h.child (hmem m (by simp))) hm]
      simp

/-- The way inwards to an offset that a leaf covers ends at the leaf. -/
lemma InOrder.innermost_leaf (h : n.InOrder) (hm : m ∈ n.preorder) (hpos : m.covers pos = true)
    (hleaf : m.children = []) : (n.innermost pos).node = m := by
  have hmem : m ∈ (n.innermost pos).nodes := by
    rw [← h.filter_covers (h.covers_of_mem_preorder hm hpos)]
    exact List.mem_filter.2 ⟨hm, hpos⟩
  obtain ⟨before, after, hnodes⟩ := List.append_of_mem hmem
  have hchain := (innermost_chain pos n).2
  rw [hnodes, List.isChain_append] at hchain
  cases after with
  | nil => exact List.singleton_inj.1 (List.append_inj' hnodes rfl).2
  | cons k after =>
    have hk : k ∈ m.children := (List.isChain_cons_cons.1 hchain.2.1).1
    rw [hleaf] at hk
    cases hk

end Node

namespace Parsed

/-- The tree of a text stands in the order of the text. -/
lemma root_inOrder (source : String) : (ofSource source).root.InOrder := by
  obtain ⟨read, eof, s, h⟩ := exists_outcome source
  obtain ⟨start, stop, hlaid, -⟩ := h.laid_root
  exact ⟨start, stop, hlaid⟩

/-- **What is around an offset**: of the nodes of a text, just those with a width that contain the
offset are on the way that leads to the innermost one, in the order in which a walk meets them. Each
is a child of the one before. There is no way just if there is no such node. -/
theorem locate_enclosing (source : String) (pos : Offset) :
    let root := (ofSource source).root
    let around := root.visited.filter fun n => !n.span.isEmpty && n.span.contains pos
    (∀ path, root.locate? pos = some path → path.parents ++ [path.node] = around
        ∧ (path.parents ++ [path.node]).IsChain fun n m => m ∈ n.children)
      ∧ (root.locate? pos = none ↔ around = []) := by
  intro root around
  have hroot : root.InOrder := root_inOrder source
  have haround : around = root.preorder.filter (Node.covers pos) := by
    rw [← Node.visited_eq]
    rfl
  rw [haround, Node.locate?]
  by_cases hpos : root.covers pos = true
  · have hnodes := hroot.filter_covers hpos
    obtain ⟨hhead, hchain⟩ := Node.innermost_chain pos root
    rw [if_pos hpos, hnodes]
    refine ⟨?_, by simp [Path.nodes]⟩
    rintro path ⟨⟩
    exact ⟨rfl, hchain⟩
  · rw [Bool.not_eq_true] at hpos
    rw [hpos, hroot.filter_of_not_covers hpos]
    simp

end Parsed

end LuaFront
