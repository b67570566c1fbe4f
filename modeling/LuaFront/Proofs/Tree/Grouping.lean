import LuaFront.Proofs.Tree.Levels
import LuaFront.Proofs.Tree.Marks

/-!
How operators group. An operator takes as its left operand all that binds at least as tightly on its
right as the operator does on its left, and as its right operand only what binds more tightly. That
is asked of all operators along the edge at which an operand meets the operator.
-/

namespace LuaFront

namespace Expr

/-- How tightly the operators bind on their right that end where the expression ends, the outermost
one first. -/
def rightPowers : Expr → List Nat
  | unary op _ operand => op.power :: operand.rightPowers
  | binary _ op _ rhs => op.rightPower :: rhs.rightPowers
  | _ => []

/-- How tightly the operators bind on their left that begin where the expression begins, the
outermost one first. -/
def leftPowers : Expr → List Nat
  | binary lhs op _ _ => op.leftPower :: lhs.leftPowers
  | _ => []

lemma rightPowers_eq_nil {e : Expr} (h : e.isOperation = false) : e.rightPowers = [] := by
  cases e <;> first | rfl | cases h

lemma leftPowers_eq_nil {e : Expr} (h : e.isOperation = false) : e.leftPowers = [] := by
  cases e <;> first | rfl | cases h

end Expr

namespace Node

/-- The operands of an operator are grouped by the powers with which operators bind. -/
def Grouped : Node → Prop
  | expr (.binary lhs op _ rhs) =>
    (∀ p ∈ lhs.rightPowers, op.leftPower ≤ p) ∧ ∀ p ∈ rhs.leftPowers, op.rightPower < p
  | expr (.unary op _ operand) => ∀ p ∈ operand.leftPowers, op.power < p
  | _ => True

lemma grouped_ofExpr {e : Expr} (h : e.isOperation = false) : (ofExpr e).Grouped := by
  cases e <;> trivial

lemma all_grouped {n : Node} (hn : n.Grouped) (h : Part.Each (All Grouped) n.parts) :
    n.All Grouped := all_iff.2 ⟨hn, each_parts_iff.1 h⟩

lemma all_grouped_leaf {n : Node} (h : n.children = []) : n.All Grouped := by
  refine all_grouped ?_ (each_parts_iff.2 (by simp [h]))
  cases n with
  | expr e =>
    cases e with
    | unary | binary => simp [children, parts, Expr.parts, Part.node?] at h
    | _ => trivial
  | _ => trivial

lemma all_grouped_plain {n : Node} (hn : n.isLevel = false) (h : Part.Each (All Grouped) n.parts) :
    n.All Grouped := by
  refine all_grouped ?_ h
  cases n <;> trivial

lemma all_grouped_ofExpr {e : Expr} (h : e.isOperation = false)
    (hparts : Part.Each (All Grouped) e.parts) : (ofExpr e).All Grouped :=
  all_grouped (grouped_ofExpr h) (by simpa using hparts)

lemma all_grouped_block {b : Block} (h : ∀ s ∈ b.stats, (stat s).All Grouped) :
    (block b).All Grouped := all_grouped trivial (by simpa [parts] using h)

end Node

end LuaFront
