import LuaFront.Proofs.Tree.Marks
import LuaFront.Traversal.Walk

/-!
A walk as a descent. The nodes that a walk still has to visit are those which a recursion over the
tree would come to later, so that both visit the same nodes one after the other, whatever the
visitor makes of what it has seen. Below a node for which the visitor answers `false` nothing is
visited, and everything else is.
-/

namespace LuaFront

namespace Node

variable {σ : Type} {visit : Node → σ → Bool × σ}

/-- Visits a node and, if the visitor answers `true`, then each of its children in the same way,
from left to right. -/
def descend (visit : Node → σ → Bool × σ) (n : Node) (state : σ) : σ :=
  match visit n state with
  | (true, state) => n.children.attach.foldl (fun state m => m.val.descend visit state) state
  | (false, state) => state
termination_by sizeOf n
decreasing_by exact sizeOf_lt_of_mem_children m.property

/-- Visits the nodes of a list and what is below them. -/
def descendAll (visit : Node → σ → Bool × σ) (ns : List Node) (state : σ) : σ :=
  ns.foldl (fun state n => n.descend visit state) state

lemma descend_of_true {n : Node} {state state' : σ} (h : visit n state = (true, state')) :
    n.descend visit state = descendAll visit n.children state' := by
  rw [descend, h]
  exact List.foldl_attach (f := fun state (m : Node) => m.descend visit state)

lemma descend_of_false {n : Node} {state state' : σ} (h : visit n state = (false, state')) :
    n.descend visit state = state' := by
  rw [descend, h]

/-- The nodes still to be visited are those to which the recursion has not come yet. -/
lemma walkAll_eq_descendAll (visit : Node → σ → Bool × σ) (pending : List Node) (state : σ) :
    walkAll visit pending state = descendAll visit pending state := by
  fun_induction walkAll visit pending state with
  | case1 => rfl
  | case2 n rest state state' hvisit ih =>
    rw [ih, descendAll, descendAll, List.foldl_append, List.foldl_cons, descend_of_true hvisit]
    rfl
  | case3 n rest state state' hvisit ih =>
    rw [ih, descendAll, descendAll, List.foldl_cons, descend_of_false hvisit]

/-! ### What is visited -/

/-- The visitor, keeping a record of the nodes that it was shown and of its answers. -/
def recording (visit : Node → σ → Bool × σ) (n : Node) (kept : List (Node × Bool) × σ) :
    Bool × List (Node × Bool) × σ :=
  let (below, state) := visit n kept.2
  (below, kept.1 ++ [(n, below)], state)

/-- What a visited node accounts for: itself, and all that is below it where nothing of that is
visited. -/
def covered : Node × Bool → List Node
  | (n, true) => [n]
  | (n, false) => n.preorder

/-- The record goes on with some calls, which account for all of some nodes, and the visitor does
the same as without a record. -/
structure Recorded (ns : List Node) (before after : List (Node × Bool) × σ) (state : σ) :
    Prop where
  state : after.2 = state
  calls : ∃ calls, after.1 = before.1 ++ calls ∧ calls.flatMap covered = ns

variable {ns ms : List Node} {kept kept' kept'' : List (Node × Bool) × σ} {state state' : σ}

lemma Recorded.append (h : Recorded ns kept kept' state) (h' : Recorded ms kept' kept'' state') :
    Recorded (ns ++ ms) kept kept'' state' := by
  obtain ⟨calls, hcalls, rfl⟩ := h.calls
  obtain ⟨calls', hcalls', rfl⟩ := h'.calls
  exact ⟨h'.state, calls ++ calls', by rw [hcalls', hcalls, List.append_assoc], by simp⟩

lemma descendAll_recorded
    (h : ∀ n ∈ ns, ∀ kept : List (Node × Bool) × σ,
      Recorded n.preorder kept (n.descend (recording visit) kept) (n.descend visit kept.2))
    (kept : List (Node × Bool) × σ) :
    Recorded (ns.flatMap preorder) kept (descendAll (recording visit) ns kept)
      (descendAll visit ns kept.2) := by
  induction ns generalizing kept with
  | nil => exact ⟨rfl, [], (List.append_nil _).symm, rfl⟩
  | cons n ns ih =>
    have hfirst := h n List.mem_cons_self kept
    have hrest := ih (fun m hm => h m (List.mem_cons_of_mem _ hm)) (n.descend (recording visit) kept)
    rw [hfirst.state] at hrest
    exact hfirst.append hrest

lemma descend_recorded (visit : Node → σ → Bool × σ) (n : Node)
    (kept : List (Node × Bool) × σ) :
    Recorded n.preorder kept (n.descend (recording visit) kept) (n.descend visit kept.2) := by
  induction n using Node.induction generalizing kept with
  | step n ih =>
    rcases hvisit : visit n kept.2 with ⟨below, state⟩
    have hcall : recording visit n kept = (below, kept.1 ++ [(n, below)], state) := by
      rw [recording, hvisit]
    cases below with
    | false =>
      rw [descend_of_false hcall, descend_of_false hvisit]
      exact ⟨rfl, [(n, false)], rfl, by simp [covered]⟩
    | true =>
      have hself : Recorded [n] kept (kept.1 ++ [(n, true)], state) state :=
        ⟨rfl, [(n, true)], rfl, by simp [covered]⟩
      rw [descend_of_true hcall, descend_of_true hvisit, preorder_eq]
      exact hself.append (descendAll_recorded ih _)

/-- **A walk is a descent**: it does the same as the recursion, also to a visitor that keeps a
record of the nodes that it is shown, which changes nothing about its answers. With all that is
below the nodes for which it answered `false`, these nodes are the whole tree in its order. -/
theorem walk_descends {σ : Type} (visit : Node → σ → Bool × σ) (root : Node) (state : σ) :
    let walked := root.walk (recording visit) ([], state)
    root.walk visit state = root.descend visit state
      ∧ walked = root.descend (recording visit) ([], state)
      ∧ walked.2 = root.walk visit state
      ∧ walked.1.flatMap covered = root.preorder := by
  intro walked
  have hwalk : ∀ {τ : Type} (visit : Node → τ → Bool × τ) (state : τ),
      root.walk visit state = root.descend visit state :=
    fun visit state => walkAll_eq_descendAll visit [root] state
  have hrecorded := descend_recorded visit root ([], state)
  rw [← hwalk, ← hwalk] at hrecorded
  obtain ⟨calls, hcalls, hcovered⟩ := hrecorded.calls
  refine ⟨hwalk visit state, hwalk _ _, hrecorded.state, ?_⟩
  rw [show walked.1 = calls from hcalls, hcovered]

end Node

end LuaFront
