import LuaFront.Proofs.Tree.Listed

/-!
The nodes and the tokens among the parts of a node.
-/

namespace LuaFront

/-! ### Nodes -/

namespace Part

variable {P : Node → Prop} {ps qs : List Part}

/-- The nodes among the parts have a property. -/
def Each (P : Node → Prop) (ps : List Part) : Prop := ∀ n, .node n ∈ ps → P n

@[simp] lemma each_nil : Each P [] := by simp [Each]

@[simp] lemma each_token {t : Token} : Each P (.token t :: ps) ↔ Each P ps := by
  simp [Each]

@[simp] lemma each_node {n : Node} : Each P (.node n :: ps) ↔ P n ∧ Each P ps := by
  simp [Each]

@[simp] lemma each_append : Each P (ps ++ qs) ↔ Each P ps ∧ Each P qs := by
  simp [Each, or_imp, forall_and]

@[simp] lemma each_tokens {ts : List Token} : Each P (ts.map .token) := by simp [Each]

@[simp] lemma each_nodes {α : Type} {node : α → Node} {l : List α} :
    Each P (l.map fun a => .node (node a)) ↔ ∀ a ∈ l, P (node a) := by
  simp [Each]

@[simp] lemma each_list {α : Type} {node : α → Node} {l : Separated α} :
    Each P (l.parts node) ↔ ∀ a ∈ l.items, P (node a) := by
  simp only [Each, Separated.parts, Separated.items, List.mem_flatMap, List.mem_cons,
    Part.node.injEq, List.mem_map, reduceCtorEq, and_false, exists_false, or_false]
  constructor
  · rintro h _ ⟨pair, hpair, rfl⟩
    exact h _ ⟨pair, hpair, rfl⟩
  · rintro h _ ⟨pair, hpair, rfl⟩
    exact h _ ⟨pair, hpair, rfl⟩

end Part

/-- An operator stands between the parts of the expression, or in front of them. -/
def Expr.isOperation : Expr → Bool
  | unary .. | binary .. => true
  | _ => false

namespace Node

@[simp] lemma parts_ofExpr (a : Expr) : (ofExpr a).parts = a.parts := by
  cases a <;> rfl

lemma each_parts_iff {P : Node → Prop} {n : Node} :
    Part.Each P n.parts ↔ ∀ m ∈ n.children, P m :=
  forall_congr' fun _ => imp_congr_left mem_children.symm

/-- An expression that is a node of another kind is seen as that one. -/
def Proper (n : Node) : Prop := ∀ e, n = expr e → ofExpr e = n

@[simp] lemma proper_ofExpr (a : Expr) : (ofExpr a).Proper := by
  cases a <;> rintro e h <;> cases h <;> rfl

lemma proper_of_not_expr {n : Node} (h : ∀ e, n ≠ expr e) : n.Proper := fun e he => absurd he (h e)

@[simp] lemma proper_ofParam (p : Param) : (ofParam p).Proper := by
  cases p <;> simp [ofParam, proper_of_not_expr]

@[simp] lemma proper_args (a : CallArgs) : Part.Each Proper a.parts := by
  cases a <;> simp [CallArgs.parts, proper_of_not_expr]

lemma proper_stat (s : Stat) : Part.Each Proper s.parts := by
  cases s
  case if_ s => simp [Stat.parts, IfStat.parts, proper_of_not_expr]
  case numericFor s =>
    cases hstep : s.step <;>
      simp [Stat.parts, NumericFor.parts, Step.parts, proper_of_not_expr, hstep]
  case genericFor s => simp [Stat.parts, GenericFor.parts, proper_of_not_expr]
  case function keyword name method body =>
    cases method <;> simp [Stat.parts, MethodName.parts, proper_of_not_expr]
  all_goals simp [Stat.parts, proper_of_not_expr]

lemma proper_child {n m : Node} (h : m ∈ n.children) : m.Proper := by
  suffices hparts : Part.Each Proper n.parts from each_parts_iff.1 hparts m h
  cases n
  case stat s => exact proper_stat s
  case expr e => cases e <;> simp [parts, Expr.parts, Table.parts, proper_of_not_expr]
  case tableField f => cases f <;> simp [parts, TableField.parts, proper_of_not_expr]
  all_goals simp [parts, FuncBody.parts, Table.parts, proper_of_not_expr]

end Node

/-! ### Tokens -/

namespace Separated

variable {α : Type} {kinds : TokenKind → Prop} {l : Separated α}

/-- The tokens among the parts of a list are its delimiters. -/
lemma Joined.kind_of_part (h : l.Joined kinds) {node : α → Node} {t : Token}
    (ht : .token t ∈ l.parts node) : kinds t.kind := by
  obtain ⟨pair, hpair, ht⟩ := List.mem_flatMap.1 ht
  exact h.kind pair hpair t (by simpa using ht)

end Separated

end LuaFront
