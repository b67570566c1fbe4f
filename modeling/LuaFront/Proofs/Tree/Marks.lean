import LuaFront.Syntax.Extent
import LuaFront.Traversal.Walk
import Mathlib.Data.List.Flatten
import Mathlib.Tactic.Lemma

/-!
A tree laid out as marks: its tokens in the order of the text and, for a node without parts, the
offset at which it stands. The marks of a node are a stretch of those of every node around it.
-/

namespace LuaFront

/-- What a tree leaves on the text. -/
inductive Mark where
  | token (token : Token)
  | anchor (offset : Offset)

def Mark.token? : Mark → Option Token
  | token t => some t
  | anchor _ => none

namespace Node

/-- What is shown of a node from its children holds of all nodes. -/
@[elab_as_elim]
theorem induction {P : Node → Prop} (step : ∀ n, (∀ m ∈ n.children, P m) → P n) (n : Node) :
    P n :=
  step n fun m _ => induction step m
termination_by sizeOf n
decreasing_by exact sizeOf_lt_of_mem_children ‹_›

/-- The marks of a node, in the order of the text. -/
def marks (n : Node) : List Mark :=
  (if n.parts.isEmpty then [.anchor n.anchor] else [])
    ++ n.parts.attach.flatMap (ofPart (fun t => [.token t]) fun m _ => m.marks)
termination_by sizeOf n
decreasing_by exact sizeOf_lt_of_mem_parts ‹_›

end Node

def Part.marks : Part → List Mark
  | token t => [.token t]
  | node n => n.marks

@[simp] lemma Part.marks_tokens (ts : List Token) :
    (ts.map Part.token).flatMap marks = ts.map .token := by
  induction ts with
  | nil => rfl
  | cons t ts ih => simpa [marks] using ih

namespace Node

lemma marks_eq (n : Node) :
    n.marks
      = (if n.parts.isEmpty then [.anchor n.anchor] else []) ++ n.parts.flatMap Part.marks := by
  rw [marks]
  congr 1
  conv => rhs; rw [← List.attach_map_subtype_val n.parts, List.flatMap_map]
  congr 1
  funext ⟨p, h⟩
  cases p <;> rfl

lemma marks_of_parts {n : Node} (h : n.parts ≠ []) : n.marks = n.parts.flatMap Part.marks := by
  rw [marks_eq, if_neg (by simpa using h), List.nil_append]

lemma marks_of_no_parts {n : Node} (h : n.parts = []) : n.marks = [.anchor n.anchor] := by
  rw [marks_eq, h]
  rfl

lemma marks_ne_nil (n : Node) : n.marks ≠ [] := by
  induction n using Node.induction with
  | step n ih =>
    rcases hp : n.parts with _ | ⟨p, ps⟩
    · simp [marks_of_no_parts hp]
    · rw [marks_of_parts (by simp [hp]), hp, List.flatMap_cons]
      cases p with
      | token t => simp [Part.marks]
      | node m => simp [Part.marks, ih m (mem_children.2 (by simp [hp]))]

/-- The tokens of a node are those among its marks. -/
lemma tokens_eq_marks (n : Node) : n.tokens = n.marks.filterMap Mark.token? := by
  induction n using Node.induction with
  | step n ih =>
    rw [tokens_eq, marks_eq, List.filterMap_append, List.filterMap_flatMap]
    have hanchor : (if n.parts.isEmpty then [Mark.anchor n.anchor] else []).filterMap
        Mark.token? = [] := by
      split <;> rfl
    rw [hanchor, List.nil_append]
    refine congrArg List.flatten (List.map_congr_left fun p hp => ?_)
    cases p with
    | token t => rfl
    | node m => exact ih m (mem_children.2 hp)

/-- An anchor is no token. -/
lemma tokens_eq_parts_marks (n : Node) :
    n.tokens = (n.parts.flatMap Part.marks).filterMap Mark.token? := by
  rw [tokens_eq_marks]
  rcases hparts : n.parts with _ | ⟨p, rest⟩
  · rw [marks_of_no_parts hparts]
    rfl
  · rw [marks_of_parts (by simp [hparts]), hparts]

/-! ### Nodes within nodes -/

lemma marks_infix_of_mem_children {n m : Node} (h : m ∈ n.children) : m.marks <:+: n.marks := by
  have hp := mem_children.1 h
  obtain ⟨pre, post, hparts⟩ := List.append_of_mem hp
  refine ⟨pre.flatMap Part.marks, post.flatMap Part.marks, ?_⟩
  rw [marks_of_parts (n := n) (by simp [hparts]), hparts]
  simp [Part.marks]

lemma mem_preorder_cases {n m : Node} (h : m ∈ n.preorder) :
    m = n ∨ ∃ c ∈ n.children, m ∈ c.preorder := by
  rwa [preorder_eq, List.mem_cons, List.mem_flatMap] at h

lemma marks_infix_of_mem_preorder {n m : Node} (h : m ∈ n.preorder) : m.marks <:+: n.marks := by
  induction n using Node.induction with
  | step n ih =>
    rcases mem_preorder_cases h with rfl | ⟨c, hc, hm⟩
    · exact List.infix_refl _
    · exact (ih c hc hm).trans (marks_infix_of_mem_children hc)

lemma self_mem_preorder (n : Node) : n ∈ n.preorder := by
  rw [preorder_eq]
  exact List.mem_cons_self

lemma mem_preorder_of_mem_children {n c m : Node} (hc : c ∈ n.children) (h : m ∈ c.preorder) :
    m ∈ n.preorder := by
  rw [preorder_eq]
  exact List.mem_cons_of_mem _ (List.mem_flatMap.2 ⟨c, hc, h⟩)

lemma mem_tokens_of_part {n : Node} {t : Token} (h : .token t ∈ n.parts) : t ∈ n.tokens := by
  rw [tokens_eq]
  exact List.mem_flatMap.2 ⟨_, h, List.mem_singleton_self t⟩

lemma mem_tokens_of_child {n m : Node} {t : Token} (h : m ∈ n.children) (ht : t ∈ m.tokens) :
    t ∈ n.tokens := by
  rw [tokens_eq]
  exact List.mem_flatMap.2 ⟨_, mem_children.1 h, ht⟩

/-- The tokens of the nodes of a tree are its own. -/
lemma mem_tokens_of_own {n m : Node} {t : Token} (hm : m ∈ n.preorder) (ht : .token t ∈ m.parts) :
    t ∈ n.tokens := by
  have hinfix := (marks_infix_of_mem_preorder hm).filterMap Mark.token?
  rw [← tokens_eq_marks, ← tokens_eq_marks] at hinfix
  exact hinfix.subset (mem_tokens_of_part ht)

lemma mem_tokens_of_mem_preorder {n : Node} {id : Identifier} (h : identifier id ∈ n.preorder) :
    id.token ∈ n.tokens := mem_tokens_of_own h (by simp [parts])

/-- Each token of a tree belongs to a node. -/
lemma exists_own {n : Node} {t : Token} (ht : t ∈ n.tokens) :
    ∃ m ∈ n.preorder, .token t ∈ m.parts := by
  induction n using Node.induction with
  | step n ih =>
    rw [tokens_eq, List.mem_flatMap] at ht
    obtain ⟨p, hp, ht⟩ := ht
    cases p with
    | token u =>
      rw [List.mem_singleton.1 ht]
      exact ⟨n, n.self_mem_preorder, hp⟩
    | node c =>
      have hc := mem_children.2 hp
      obtain ⟨m, hm, hmt⟩ := ih c hc ht
      exact ⟨m, mem_preorder_of_mem_children hc hm, hmt⟩

lemma tokens_children_sublist (n : Node) : (n.children.flatMap tokens).Sublist n.tokens := by
  rw [tokens_eq, children]
  induction n.parts with
  | nil => exact List.Sublist.refl _
  | cons p ps ih =>
    cases p with
    | token t => exact ih.trans (List.sublist_append_right _ _)
    | node m => exact (List.Sublist.refl m.tokens).append ih

/-- What single tokens are found in the nodes of a tree stand in the order of the text, each
once. -/
lemma found_sublist {f : Node → Option Token}
    (hf : ∀ n t, f n = some t → n.parts = [.token t]) (n : Node) :
    (n.preorder.filterMap f).Sublist n.tokens := by
  induction n using Node.induction with
  | step n ih =>
    rw [preorder_eq]
    cases ht : f n with
    | none =>
      rw [List.filterMap_cons_none ht, List.filterMap_flatMap]
      exact (List.Sublist.flatMap_right _ ih).trans n.tokens_children_sublist
    | some t =>
      have hparts := hf n t ht
      have hchildren : n.children = [] := by simp [children, hparts, Part.node?]
      rw [List.filterMap_cons_some ht, hchildren, tokens_eq, hparts]
      exact List.Sublist.refl _

/-- What belongs to the root of a tree is gathered from its nodes. -/
lemma mem_gathered {α : Type} {f : Node → List α} {n : Node} {a : α} (h : a ∈ f n) :
    a ∈ n.preorder.flatMap f := List.mem_flatMap.2 ⟨n, n.self_mem_preorder, h⟩

lemma mem_gathered_of_child {α : Type} {f : Node → List α} {n m : Node} {a : α}
    (hm : m ∈ n.children) (h : a ∈ m.preorder.flatMap f) : a ∈ n.preorder.flatMap f := by
  obtain ⟨k, hk, ha⟩ := List.mem_flatMap.1 h
  exact List.mem_flatMap.2 ⟨k, mem_preorder_of_mem_children hm hk, ha⟩

lemma mem_preorder_of_child {n c m : Node} (hc : c ∈ n.preorder) (h : m ∈ c.children) :
    m ∈ n.preorder := by
  induction n using Node.induction with
  | step n ih =>
    rcases mem_preorder_cases hc with rfl | ⟨k, hk, hc⟩
    · exact mem_preorder_of_mem_children h m.self_mem_preorder
    · exact mem_preorder_of_mem_children hk (ih k hk hc)

/-- A property of all nodes of a tree. -/
def All (P : Node → Prop) (n : Node) : Prop := ∀ m ∈ n.preorder, P m

lemma all_iff {P : Node → Prop} {n : Node} : n.All P ↔ P n ∧ ∀ m ∈ n.children, m.All P := by
  simp only [All]
  rw [preorder_eq]
  simp only [List.mem_cons, List.mem_flatMap]
  constructor
  · intro h
    exact ⟨h n (.inl rfl), fun m hm k hk => h k (.inr ⟨m, hm, hk⟩)⟩
  · rintro ⟨h, hc⟩ k (rfl | ⟨m, hm, hk⟩)
    · exact h
    · exact hc m hm k hk

end Node

end LuaFront
