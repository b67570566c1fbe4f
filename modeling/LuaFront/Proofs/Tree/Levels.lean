import LuaFront.Proofs.Tree.Parts

/-!
How deep a tree is: how many blocks and expressions stand one in the other.
-/

namespace LuaFront

namespace Node

/-- The node is a block or an expression. Names, literals and dots count wherever they stand. -/
def isLevel : Node → Bool
  | block _ | expr _ | table _ | identifier _ | literal _ | vararg _ => true
  | _ => false

/-- The nodes on the way from a node down to one in it. -/
inductive Descends : Node → List Node → Prop
  | here (n : Node) : Descends n [n]
  | step {n m : Node} {way : List Node} :
    m ∈ n.children → Descends m way → Descends n (n :: way)

/-- On no way down from the node are there more blocks and expressions than this. -/
def Shallow (bound : Nat) (n : Node) : Prop :=
  ∀ way, n.Descends way → way.countP isLevel ≤ bound

lemma Shallow.mono {b c : Nat} {n : Node} (h : n.Shallow b) (hbc : b ≤ c) : n.Shallow c :=
  fun way hway => Nat.le_trans (h way hway) hbc

end Node

/-- The nodes among the parts are shallow. -/
def Part.Inside (bound : Nat) (ps : List Part) : Prop := ∀ n, .node n ∈ ps → n.Shallow bound

namespace Part

variable {b c : Nat} {ps qs : List Part}

lemma Inside.mono (h : Inside b ps) (hbc : b ≤ c) : Inside c ps := fun n hn => (h n hn).mono hbc

@[simp] lemma inside_nil : Inside b [] := each_nil

@[simp] lemma inside_token {t : Token} : Inside b (.token t :: ps) ↔ Inside b ps := each_token

@[simp] lemma inside_node {n : Node} :
    Inside b (.node n :: ps) ↔ n.Shallow b ∧ Inside b ps := each_node

@[simp] lemma inside_append : Inside b (ps ++ qs) ↔ Inside b ps ∧ Inside b qs := each_append

@[simp] lemma inside_tokens {ts : List Token} : Inside b (ts.map .token) := each_tokens

@[simp] lemma inside_nodes {α : Type} {node : α → Node} {l : List α} :
    Inside b (l.map fun a => .node (node a)) ↔ ∀ a ∈ l, (node a).Shallow b := each_nodes

@[simp] lemma inside_list {α : Type} {node : α → Node} {l : Separated α} :
    Inside b (l.parts node) ↔ ∀ a ∈ l.items, (node a).Shallow b := each_list

end Part

namespace Node

variable {b c : Nat} {n : Node}

lemma Shallow.ofParts (h : Part.Inside b n.parts) (hc : b + n.isLevel.toNat ≤ c) : n.Shallow c := by
  rintro way (_ | ⟨hm, hway⟩)
  · cases hn : n.isLevel <;> simp [hn] at hc ⊢
    omega
  · have hbelow := h _ (mem_children.1 hm) _ hway
    rw [List.countP_cons]
    cases hn : n.isLevel <;> simp [hn] at hc ⊢ <;> omega

lemma Shallow.level (h : Part.Inside b n.parts) : n.Shallow (b + 1) :=
  .ofParts h (by cases n.isLevel <;> simp)

lemma Shallow.plain (h : Part.Inside b n.parts) (hn : n.isLevel = false) : n.Shallow b :=
  .ofParts h (by simp [hn])

lemma Shallow.child {m : Node} (h : n.Shallow (b + 1)) (hn : n.isLevel = true)
    (hm : m ∈ n.children) : m.Shallow b := by
  intro way hway
  have hlonger := h _ (.step hm hway)
  rw [List.countP_cons_of_pos hn] at hlonger
  exact Nat.le_of_succ_le_succ hlonger

lemma Shallow.leaf (h : Part.Inside 0 n.parts) (hb : 0 < b) : n.Shallow b :=
  (Shallow.level h).mono hb

@[simp] lemma shallow_identifier {id : Identifier} (hb : 0 < b) : (identifier id).Shallow b :=
  .leaf (by simp [parts]) hb

@[simp] lemma shallow_literal {lit : Literal} (hb : 0 < b) : (literal lit).Shallow b :=
  .leaf (by simp [parts]) hb

@[simp] lemma shallow_vararg {dots : Vararg} (hb : 0 < b) : (vararg dots).Shallow b :=
  .leaf (by simp [parts]) hb

@[simp] lemma shallow_param {param : Param} (hb : 0 < b) : (ofParam param).Shallow b := by
  cases param <;> simp [ofParam, hb]

end Node

end LuaFront
