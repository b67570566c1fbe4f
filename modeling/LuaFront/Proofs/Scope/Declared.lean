import LuaFront.Proofs.Scope.Lexical
import LuaFront.Proofs.Tree.Layout
import Mathlib.Tactic.ByContra

/-!
Names and their declarations in any tree whose marks stand in order, complete or not. The search
for the declaration of a name misses none; what encloses an offset is declared somewhere in the
tree; and a name that is declared is no label.
-/

namespace LuaFront

namespace Node

variable {env : Env} {n m : Node} {id : Identifier} {d : Option Binding} {b : Binding}
  {pos : Offset}

lemma mem_preorder_of_mem_uses (h : (id, d) ∈ n.uses env) : identifier id ∈ n.preorder := by
  induction n using Node.induction generalizing env with
  | step n ih =>
    rcases hid : n.identifier? with _ | id'
    · rw [uses_eq hid, List.mem_flatMap] at h
      obtain ⟨piece, hpiece, h⟩ := h
      have hchild : piece.node ∈ n.children := by
        rw [← pieces_nodes env n]
        exact List.mem_map_of_mem hpiece
      cases piece with
      | declares b =>
        cases List.mem_singleton.1 h
        exact mem_preorder_of_mem_children hchild (self_mem_preorder _)
      | label id => cases h
      | inner env' m => exact mem_preorder_of_mem_children hchild (ih m hchild h)
    · rw [identifier_eq_of_identifier? hid, uses_identifier, List.mem_singleton] at h
      cases h
      rw [identifier_eq_of_identifier? hid]
      exact self_mem_preorder _

/-! ### What a node declares -/

lemma name_of_declared {b : Binding} (h : b ∈ n.declared) : b.name = b.id.name := by
  unfold declared at h
  split at h
  · unfold Stat.declared at h
    split at h <;> simp at h
    all_goals grind [Binding.named]
  · obtain ⟨p, -, hp⟩ := List.mem_filterMap.1 h
    cases p <;> simp [Param.declared?] at hp
    subst hp
    rfl
  · cases h

lemma mem_children_of_declared {b : Binding} (h : b ∈ n.declared) :
    identifier b.id ∈ n.children := by
  rw [← pieces_nodes [] n]
  exact List.mem_map_of_mem (f := Piece.node) (declares_mem_iff.2 h)

/-! ### Searching for a declaration -/

/-- The visitor that searches for the declaration of a name. -/
def seek (id : Identifier) (n : Node) (found : Option Binding) : Bool × Option Binding :=
  if found.isSome || !n.span.encloses id.token.span then (false, found)
  else
    let found := n.declared.find? (·.id = id)
    (found.isNone, found)

lemma InOrder.encloses_declared (h : n.InOrder) (hb : b ∈ n.preorder.flatMap declared) :
    n.span.encloses b.id.token.span = true := by
  have huse : (b.id, some b) ∈ n.uses [] := declared_mem_uses hb
  obtain ⟨size, hspanned⟩ := h.spanned
  obtain ⟨hstart, -, hstop⟩ :=
    hspanned.tokens _ (mem_tokens_of_mem_preorder (mem_preorder_of_mem_uses huse))
  simp [Span.encloses, hstart, hstop]

/-- The search goes on below a node only while nothing is found. -/
lemma eq_none_of_seek {found found' : Option Binding} (h : seek id n found = (true, found')) :
    found = none ∧ found' = none ∧ n.declared.find? (·.id = id) = none := by
  unfold seek at h
  split at h
  · cases h
  · next hopen =>
    cases hfind : n.declared.find? (·.id = id) with
    | some b => simp [hfind] at h
    | none =>
      cases found with
      | some b => simp at hopen
      | none => exact ⟨rfl, by simpa [hfind] using h.symm, rfl⟩

/-- Where the search turns back it has found what the node and those below it declare. -/
lemma InOrder.eq_of_seek {found found' : Option Binding} (hn : n.InOrder)
    (h : seek id n found = (false, found')) :
    found' = found.or ((n.preorder.flatMap declared).find? (·.id = id)) := by
  unfold seek at h
  split at h
  · next hclosed =>
    obtain rfl : found = found' := congrArg Prod.snd h
    cases found with
    | some b => rfl
    | none =>
      have hnone : (n.preorder.flatMap declared).find? (·.id = id) = none := by
        rw [List.find?_eq_none]
        intro b hb heq
        have hencloses := hn.encloses_declared hb
        rw [of_decide_eq_true heq] at hencloses
        simp [hencloses] at hclosed
      rw [hnone]
      rfl
  · next hopen =>
    cases hfind : n.declared.find? (·.id = id) with
    | none => simp [hfind] at h
    | some b =>
      obtain rfl : found = none := by cases found <;> simp at hopen ⊢
      rw [preorder_eq, List.flatMap_cons, List.find?_append, hfind]
      simpa [hfind] using h.symm

/-- Leaving out the nodes that do not enclose the name misses no declaration of it. -/
lemma walkAll_seek (ns : List Node) (found : Option Binding) (h : ∀ n ∈ ns, n.InOrder) :
    walkAll (seek id) ns found
      = found.or (((ns.flatMap preorder).flatMap declared).find? (·.id = id)) := by
  fun_induction walkAll (seek id) ns found with
  | case1 found => simp
  | case2 n rest found found' hvisit ih =>
    obtain ⟨rfl, rfl, hnone⟩ := eq_none_of_seek hvisit
    rw [ih ?_, List.flatMap_cons, preorder_eq n]
    · simp [hnone]
    · intro m hm
      rcases List.mem_append.1 hm with hm | hm
      · exact (h n List.mem_cons_self).child hm
      · exact h m (List.mem_cons_of_mem n hm)
  | case3 n rest found found' hvisit ih =>
    rw [ih fun m hm => h m (List.mem_cons_of_mem n hm), (h n List.mem_cons_self).eq_of_seek hvisit]
    rw [List.flatMap_cons, List.flatMap_append, List.find?_append, Option.or_assoc]

/-! ### What encloses an offset -/

/-- The name that a method binds without its being written among the parameters. -/
def selves : Node → List Binding
  | stat (.function keyword _ method _) => method.toList.map (.self keyword)
  | _ => []

lemma enclosing_eq (pos : Offset) (n : Node) :
    n.enclosing pos
      = (n.frame pos).filter (·.name ≠ "") ++ (n.inward pos).flatMap (enclosing pos) := by
  have hinward : ((n.inward pos).attach.flatMap fun m => frames pos m.1)
      = (n.inward pos).flatMap (frames pos) := by
    conv => rhs; rw [← List.attach_map_subtype_val (n.inward pos), List.flatMap_map]
  have hflatten : ((n.inward pos).flatMap (frames pos)).flatten
      = (n.inward pos).flatMap (enclosing pos) := by
    rw [← List.flatMap_id, List.flatMap_assoc]
    exact congrArg (n.inward pos).flatMap (funext fun m => List.flatMap_id)
  rw [enclosing, frames, hinward, List.flatten_cons, hflatten]

lemma mem_of_mem_splitAt {ns : List Node} (h : m ∈ (splitAt pos ns).1) : m ∈ ns := by
  induction ns with
  | nil => exact h
  | cons n ns ih =>
    rw [splitAt] at h
    split at h
    · cases h
    split at h
    · cases h
    · rcases List.mem_cons.1 h with rfl | h
      · exact List.mem_cons_self
      · exact List.mem_cons_of_mem n (ih h)

lemma declared_of_locals (h : b ∈ n.locals) : b ∈ n.declared := by
  unfold locals at h
  split at h
  · exact h
  · exact h
  · cases h

/-- What a node makes visible is declared at it or at a child of it, or is the `self` of a
method. -/
lemma mem_frame_cases (h : b ∈ n.frame pos) :
    b ∈ n.declared ∨ (∃ m ∈ n.children, b ∈ m.declared) ∨ b ∈ n.selves := by
  unfold frame at h
  split at h
  · obtain ⟨m, hm, hb⟩ := List.mem_flatMap.1 h
    exact .inr (.inl ⟨m, mem_of_mem_splitAt hm, declared_of_locals hb⟩)
  · split at h
    · exact .inl h
    · cases h
  · split at h
    · exact .inl h
    · cases h
  · split at h
    · exact .inr (.inr h)
    · cases h
  · exact .inl h
  · split at h
    · exact .inl h
    · cases h
  · cases h

/-- **What encloses an offset is declared somewhere**, under a name that is not missing. -/
lemma mem_enclosing_cases (h : b ∈ n.enclosing pos) :
    b.name ≠ "" ∧ (b ∈ n.preorder.flatMap declared ∨ b ∈ n.preorder.flatMap selves) := by
  induction n using Node.induction with
  | step n ih =>
    rw [enclosing_eq, List.mem_append, List.mem_filter, List.mem_flatMap] at h
    rcases h with ⟨hframe, hname⟩ | ⟨m, hm, hb⟩
    · refine ⟨by simpa using hname, ?_⟩
      rcases mem_frame_cases hframe with hb | ⟨m, hm, hb⟩ | hb
      · exact .inl (mem_gathered hb)
      · exact .inl (mem_gathered_of_child hm (mem_gathered hb))
      · exact .inr (mem_gathered hb)
    · have hchild := mem_children_of_mem_inward hm
      exact (ih m hchild hb).imp_right
        (Or.imp (mem_gathered_of_child hchild) (mem_gathered_of_child hchild))

/-! ### Names that are no labels -/

lemma mem_children_of_label (h : id ∈ n.labels) : identifier id ∈ n.children := by
  rw [← pieces_nodes [] n]
  exact List.mem_map_of_mem (f := Piece.node) (label_mem_iff.2 h)

/-- No node both declares names and has labels. -/
lemma labels_of_declared (h : b ∈ n.declared) : n.labels = [] := by
  unfold declared Stat.declared at h
  split at h
  · split at h <;> first | rfl | cases h
  · rfl
  · cases h

/-- **A name that is declared is no label**, as it stands at one place of the
tree only. -/
lemma InOrder.not_label (h : n.InOrder) (hb : b ∈ n.preorder.flatMap declared)
    (hwidth : b.id.token.span.start < b.id.token.span.stop) :
    b.id ∉ n.preorder.flatMap labels := by
  intro hid
  induction n using Node.induction with
  | step n ih =>
    obtain ⟨k, hk, hdeclared⟩ := List.mem_flatMap.1 hb
    obtain ⟨m, hm, hlabel⟩ := List.mem_flatMap.1 hid
    have htoken : ∀ c : Node, k ∈ c.preorder → b.id.token ∈ c.tokens := fun c hkc =>
      mem_tokens_of_mem_preorder (mem_preorder_of_child hkc (mem_children_of_declared hdeclared))
    have htoken' : ∀ c : Node, m ∈ c.preorder → b.id.token ∈ c.tokens := fun c hmc =>
      mem_tokens_of_mem_preorder (mem_preorder_of_child hmc (mem_children_of_label hlabel))
    rcases mem_preorder_cases hk with rfl | ⟨c, hc, hkc⟩ <;>
      rcases mem_preorder_cases hm with rfl | ⟨c', hc', hmc⟩
    · rw [labels_of_declared hdeclared] at hlabel
      cases hlabel
    · have hown : b.id.token ∈ (identifier b.id).tokens :=
        mem_tokens_of_mem_preorder (self_mem_preorder _)
      have heq :=
        h.eq_of_token (mem_children_of_declared hdeclared) hc' hown (htoken' c' hmc) hwidth
      rw [← heq, preorder_identifier, List.mem_singleton] at hmc
      rw [hmc] at hlabel
      cases hlabel
    · have hown : b.id.token ∈ (identifier b.id).tokens :=
        mem_tokens_of_mem_preorder (self_mem_preorder _)
      have heq := h.eq_of_token (mem_children_of_label hlabel) hc hown (htoken c hkc) hwidth
      rw [← heq, preorder_identifier, List.mem_singleton] at hkc
      rw [hkc] at hdeclared
      cases hdeclared
    · obtain rfl := h.eq_of_token hc hc' (htoken c hkc) (htoken' c' hmc) hwidth
      exact ih c hc (h.child hc) (List.mem_flatMap.2 ⟨k, hkc, hdeclared⟩)
        (List.mem_flatMap.2 ⟨m, hmc, hlabel⟩)

end Node

namespace Block

open Node

lemma declaredBy?_eq {root : Block} {id : Identifier} (h : (block root).InOrder) :
    root.declaredBy? id = ((block root).preorder.flatMap declared).find? (·.id = id) := by
  have hwalk : root.declaredBy? id = walkAll (seek id) [block root] none := rfl
  rw [hwalk, walkAll_seek _ _ (by simpa using h)]
  simp

end Block

end LuaFront
