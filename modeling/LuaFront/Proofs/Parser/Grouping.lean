import LuaFront.Grammar.Chunk
import LuaFront.Proofs.Parser.Ensures
import LuaFront.Proofs.Parser.Returns
import LuaFront.Proofs.Tree.Grouping

/-!
Operator precedence. The loop that reads operators stops at one that binds its left operand with no
more power than all that ends where the parser stands; what it goes on with becomes the left operand
of that operator. Once the parser gave up, nothing of this is known, but then no operator is read.
-/

namespace LuaFront

/-- An operator that comes next binds its left operand with none but these powers or less. -/
def ParseState.Meets (powers : List Nat) (s : ParseState) : Prop :=
  s.tooDeep = false → ∀ op, s.cursor.current.kind.binaryOp? = some op →
    ∀ p ∈ powers, op.leftPower ≤ p

lemma ParseState.Meets.cons {p : Nat} {powers : List Nat} {s : ParseState} (hp : s.Meets [p])
    (h : s.Meets powers) : s.Meets (p :: powers) := by
  intro hdeep op hop
  exact List.forall_mem_cons.2 ⟨by simpa using hp hdeep op hop, h hdeep op hop⟩

namespace Grammar

open Parse ParseState Node

variable {inner : Level} {depth power : Nat}

/-- What has been read of an expression with operators of more than the given power: the operators
on its left edge have that power, and the ones on its right edge are closed by what comes next. -/
structure Climbed (power : Nat) (a : Expr) (s : ParseState) : Prop where
  grouped : (ofExpr a).All Grouped
  left : ∀ p ∈ a.leftPowers, power < p
  right : s.Meets a.rightPowers

/-- The same, where an operator that comes next has no more than the given power. -/
structure Closed (power : Nat) (a : Expr) (s : ParseState) : Prop extends Climbed power a s where
  stop : s.Meets [power]

lemma Climbed.of_operand {a : Expr} {s : ParseState} (h : (ofExpr a).All Grouped)
    (ha : a.isOperation = false) : Climbed power a s where
  grouped := h
  left := by simp [Expr.leftPowers_eq_nil ha]
  right := by simp [ParseState.Meets, Expr.rightPowers_eq_nil ha]

lemma Climbed.of_unary {op : UnaryOp} {sign : Token} {a : Expr} {s : ParseState}
    (h : Closed op.power a s) : Climbed power (.unary op sign a) s where
  grouped := all_grouped h.left (by simpa [parts, Expr.parts, ofExpr] using h.grouped)
  left := by simp [Expr.leftPowers]
  right := h.stop.cons h.right

lemma Climbed.of_binary {lhs rhs : Expr} {op : BinaryOp} {s s' : ParseState}
    (hlhs : Climbed power lhs s) (sign : Token) (hmeets : ∀ p ∈ lhs.rightPowers, op.leftPower ≤ p)
    (hpower : power < op.leftPower) (hrhs : Closed op.rightPower rhs s') :
    Climbed power (.binary lhs op sign rhs) s' where
  grouped := all_grouped ⟨hmeets, hrhs.left⟩
    (by simpa [parts, Expr.parts, ofExpr] using ⟨hlhs.grouped, hrhs.grouped⟩)
  left := List.forall_mem_cons.2 ⟨hpower, hlhs.left⟩
  right := hrhs.stop.cons hrhs.right

/-- After the parser gave up. -/
lemma Closed.of_gaveUp {a : Expr} {s : ParseState} (h : (ofExpr a).All Grouped)
    (ha : a.isOperation = false) (hdeep : s.tooDeep = true) : Closed power a s :=
  { Climbed.of_operand h ha with stop := by simp [ParseState.Meets, hdeep] }

/-- The parsers of a level group operators by their powers, if they are run at some depth. -/
structure Level.Groups (l : Level) (depth : Nat) : Prop where
  expr : ∀ {power}, Ensures (·.depth = depth) (l.expr power) (Closed power)
  operators : ∀ {power first},
    Ensures (fun s => s.depth = depth ∧ Climbed power first s) (l.operators power first)
      (Closed power)
  suffixes : ∀ {calls base}, (ofExpr base).All Grouped → base.isOperation = false →
    Returns depth (l.suffixes calls base)
      fun a => (ofExpr a).All Grouped ∧ a.isOperation = false
  block : ∀ {anchor}, Returns depth (l.block anchor) fun b => (Node.block b).All Grouped

lemma grouped_formed : Formed False (·.All Grouped)
    fun a => (ofExpr a).All Grouped ∧ a.isOperation = false where
  leaf _ hn := all_grouped_leaf hn
  plain hn _ hparts := all_grouped_plain hn hparts
  form ha hparts := ⟨all_grouped_ofExpr ha hparts, ha⟩

/-! ### Operands -/

section Operands

variable [inner.Steady] (hl : inner.Groups depth)

include hl

omit [inner.Steady] in
lemma expression_grouped : Returns depth inner.expression fun a => (ofExpr a).All Grouped :=
  fun s hs => (hl.expr s hs.1).grouped

omit [inner.Steady] in
lemma blockHere_grouped : Returns depth inner.blockHere fun b => (Node.block b).All Grouped :=
  .any fun _ => hl.block

lemma suffixed_grouped {calls : Bool} : Returns depth (suffixed inner calls)
    fun a => (ofExpr a).All Grouped ∧ a.isOperation = false :=
  (primary_returns grouped_formed (expression_grouped hl)).bind
    fun _ hbase => hl.suffixes hbase.1 hbase.2

/-- A sign ends where its operand does. -/
lemma operand_climbed : Ensures (·.depth = depth) (operand inner) (Climbed power) := by
  intro s hs
  rw [operand, run_currentKind]
  split
  · have hsimple := simpleExpr_returns grouped_formed (expression_grouped hl) False.elim
      (blockHere_grouped hl) (suffixed_grouped hl) s ⟨hs, False.elim⟩
    exact .of_operand hsimple.1 hsimple.2
  · next op _ =>
    exact .of_unary (hl.expr (advance.run s).2 hs)

lemma suffix_grouped {base : Expr} (hbase : (ofExpr base).All Grouped) :
    Returns depth (suffix inner base)
      fun a => (ofExpr a).All Grouped ∧ a.isOperation = false := by
  have hexpr := expression_grouped hl
  have htable := (table_returns grouped_formed hexpr False.elim).imp fun t ht => ht.1
  exact suffix_returns grouped_formed hexpr htable hbase

lemma yields_grouped : inner.Yields depth (·.All Grouped) where
  toInherited := grouped_formed.toInherited
  leads := False.elim
  expr := expression_grouped hl
  suffixed := (suffixed_grouped hl).imp fun _ ha => ha.1
  block := blockHere_grouped hl

end Operands

/-! ### The parsers of the next level out -/

section Around

variable [inner.Steady] (hl : depth < maxDepth → inner.Groups (depth + 1))

lemma cutOff_closed {kept : Option Expr} (hkept : ∀ a ∈ kept, (ofExpr a).All Grouped)
    {tokens : List Token} {s : ParseState} (hs : s.tooDeep = true) :
    Closed power ((cutOff kept tokens).run s).1 ((cutOff kept tokens).run s).2 :=
  have h := cutOff_returns grouped_formed hkept s (.at_depth s)
  .of_gaveUp h.1 h.2 hs

include hl

lemma exprAround_closed : Ensures (·.depth = depth) (exprAround inner power) (Closed power) := by
  rintro s rfl
  refine nested_cases (fun tokens s' _ hs' => cutOff_closed (by simp) hs') fun _ hdepth => ?_
  have hclimbed : Ensures (·.depth = s.depth + 1) (operand inner) (Climbed power) :=
    operand_climbed (hl hdepth)
  have hfirst := hclimbed { s with depth := s.depth + 1 } rfl
  have hdepth' := (Steady.onward (p := operand inner) { s with depth := s.depth + 1 }).depth
  have ha := (hl hdepth).operators _ ⟨hdepth', hfirst⟩
  exact { ha with right := ha.right, stop := ha.stop }

lemma operatorsAround_closed {first : Expr} :
    Ensures (fun s => s.depth = depth ∧ Climbed power first s)
      (operatorsAround inner power first) (Closed power) := by
  rintro s ⟨rfl, h⟩
  rw [operatorsAround, run_currentKind]
  split
  · next hnone => exact { h with stop := fun _ op hop => absurd (hnone.symm.trans hop) (by simp) }
  · next op hop =>
    split
    · next hpower =>
      refine { h with stop := fun _ op' hop' => ?_ }
      obtain rfl : op = op' := Option.some.inj (hop.symm.trans hop')
      simpa using hpower
    · next hpower =>
      refine nested_cases (fun tokens s' _ hs' => ?_) fun hdeep hdepth => ?_
      · exact cutOff_closed (by simpa using h.grouped) hs'
      · have hright : Ensures (·.depth = s.depth + 1) (inner.expr op.rightPower)
            (Closed op.rightPower) := (hl hdepth).expr
        have hsecond := hright (advance.run { s with depth := s.depth + 1 }).2 rfl
        have hboth := h.of_binary s.cursor.current (h.right hdeep op hop)
          (Nat.lt_of_not_le hpower) hsecond
        have hdepth' := (Steady.onward (p := inner.expr op.rightPower)
          (advance.run { s with depth := s.depth + 1 }).2).depth
        have ha := (hl hdepth).operators _ ⟨hdepth', hboth⟩
        exact { ha with right := ha.right, stop := ha.stop }

lemma suffixesAround_grouped {calls : Bool} {base : Expr} (hbase : (ofExpr base).All Grouped)
    (hoperand : base.isOperation = false) :
    Returns depth (suffixesAround inner calls base)
      fun a => (ofExpr a).All Grouped ∧ a.isOperation = false := by
  refine .any fun kind => .ite (.nested (fun tokens => ?_) fun hdepth => ?_) ?_
  · exact cutOff_returns grouped_formed (by simpa using hbase)
  · exact (suffix_grouped (hl hdepth) hbase).bind fun a ha => (hl hdepth).suffixes ha.1 ha.2
  · exact .ret ⟨hbase, hoperand⟩

lemma blockAround_grouped {anchor : Offset} :
    Returns depth (blockAround inner anchor) fun b => (Node.block b).All Grouped := by
  refine .nested (fun tokens => .ret (all_grouped_block ?_)) fun hdepth => .any fun count => ?_
  · have hstat : (Node.stat (.invalid none tokens anchor)).All Grouped :=
      all_grouped_plain rfl (by simp [parts, Stat.parts])
    cases tokens.isEmpty <;> simp [hstat]
  · refine (statements_returns (yields_grouped (hl hdepth))).bind fun stats hstats => ?_
    exact .ret (all_grouped_block hstats)

end Around

/-! ### All levels -/

lemma Level.Groups.around [inner.Steady] (hl : depth < maxDepth → inner.Groups (depth + 1)) :
    inner.around.Groups depth where
  expr := exprAround_closed hl
  operators := operatorsAround_closed hl
  suffixes := suffixesAround_grouped hl
  block := blockAround_grouped hl

/-- There are as many levels as can be entered from the depth where they are run. -/
lemma level_groups {k : Nat} (h : depth + k = maxDepth + 1) (hdepth : depth ≤ maxDepth) :
    (level k).Groups depth := by
  induction k generalizing depth with
  | zero => omega
  | succ k ih => exact .around fun hdepth => ih (by omega) hdepth

/-- **Operators are grouped by precedence** in an expression that is read at any depth, with the
levels that are left there. -/
theorem expression_groups (s : ParseState) :
    ∀ n ∈ (ofExpr ((level (maxDepth + 1 - s.depth)).expression.run s).1).preorder, n.Grouped := by
  by_cases hdepth : s.depth ≤ maxDepth
  · exact ((level_groups (by omega) hdepth).expr s rfl).grouped
  · rw [Nat.sub_eq_zero_of_le (Nat.lt_of_not_le hdepth)]
    exact all_grouped_leaf rfl

/-- The sign takes the power along, the product takes the sign, and the difference the product. -/
theorem expression_groups_powers :
    let s := ParseState.ofTokens (Lexed.ofSource "a - -b^c*d").tokens
    let e := ((level (maxDepth + 1 - s.depth)).expression.run s).1
    e.rightPowers = [BinaryOp.sub.rightPower, BinaryOp.mul.rightPower]
      ∧ ofExpr e ∈ (ofExpr e).preorder ∧ (ofExpr e).Grouped := by
  intro s e
  refine ⟨by decide +kernel, (ofExpr e).self_mem_preorder, ?_⟩
  exact expression_groups s _ (ofExpr e).self_mem_preorder

end Grammar

end LuaFront
