import LuaFront.Proofs.Tree.Displaced
import LuaFront.Syntax.NormalForm

/-!
Bare trees. Without places and trivia a tree keeps its shape and, in that shape, the kinds and texts
of its tokens. Its normal form is made from these alone.
-/

namespace LuaFront

namespace Displacement

/-- Takes all tokens to the start of the text, and their trivia away. -/
def forget : Displacement where
  offset _ := 0
  trivia _ := []
  monotone _ _ _ := Nat.le_refl _
  zero := rfl
  none := rfl

end Displacement

/-- The tree without spans, anchors and trivia. -/
def Block.bare (b : Block) : Block := Displacement.forget.block b

/-! ### Normal forms -/

namespace Displacement

variable {m : Displacement}

@[simp] lemma name_identifier (id : Identifier) : (m.identifier id).name = id.name := rfl

open NormalForm

@[simp] lemma names_list (l : Separated Identifier) : names (m.list m.identifier l) = names l := by
  simp [names, Function.comp_def]

@[simp] lemma params_list (l : Separated Param) :
    (m.list m.param l).items.map NormalForm.param = l.items.map NormalForm.param := by
  rw [items_list, List.map_map]
  refine List.map_congr_left fun p _ => ?_
  cases p <;> rfl

@[simp] lemma isEmpty_exprPairs (l : List (Pair Expr)) :
    (m.exprPairs l).isEmpty = l.isEmpty := by
  cases l <;> rfl

lemma methodNames_map (method : Option MethodName) :
    (method.map m.method).toList.map (fun x => ":" ++ x.name.name)
      = method.toList.map fun x => ":" ++ x.name.name := by
  cases method <;> rfl

mutual

lemma normal_expr (indent : Nat) : ∀ e, NormalForm.expr indent (m.expr e) = NormalForm.expr indent e
  | .literal _ | .vararg _ | .name _ => rfl
  | .function _ f => by rw [expr, NormalForm.expr, NormalForm.expr, normal_funcBody]
  | .table t => by rw [expr, NormalForm.expr, NormalForm.expr, normal_table]
  | .paren _ inner _ => by rw [expr, NormalForm.expr, NormalForm.expr, normal_expr]
  | .field base _ name => by
    rw [expr, NormalForm.expr, NormalForm.expr, normal_expr, name_identifier]
  | .index base _ key _ => by
    rw [expr, NormalForm.expr, NormalForm.expr, normal_expr _ base, normal_expr _ key]
  | .call callee args => by
    rw [expr, NormalForm.expr, NormalForm.expr, normal_expr, normal_callArgs]
  | .methodCall receiver _ name args => by
    rw [expr, NormalForm.expr, NormalForm.expr, normal_expr, normal_callArgs, name_identifier]
  | .unary op _ operand => by rw [expr, NormalForm.expr, NormalForm.expr, normal_expr]
  | .binary lhs op _ rhs => by
    rw [expr, NormalForm.expr, NormalForm.expr, normal_expr _ lhs, normal_expr _ rhs]
  | .invalid _ _ _ => rfl

lemma normal_exprs (indent : Nat) :
    ∀ l, NormalForm.exprs indent (m.exprPairs l) = NormalForm.exprs indent l
  | [] => rfl
  | ⟨e, _⟩ :: more => by
    rw [exprPairs, NormalForm.exprs, NormalForm.exprs, normal_expr, normal_exprs]

lemma normal_callArgs (indent : Nat) :
    ∀ a, NormalForm.callArgs indent (m.callArgs a) = NormalForm.callArgs indent a
  | .paren _ ⟨args, _⟩ _ => by
    rw [callArgs, NormalForm.callArgs, NormalForm.callArgs, normal_exprs]
  | .table t => by rw [callArgs, NormalForm.callArgs, NormalForm.callArgs, normal_table]
  | .string lit => rfl

lemma normal_table (indent : Nat) :
    ∀ t, NormalForm.table indent (m.table t) = NormalForm.table indent t
  | ⟨_, ⟨fs, _⟩, _⟩ => by rw [table, NormalForm.table, NormalForm.table, normal_fields]

lemma normal_fields (indent : Nat) :
    ∀ l, NormalForm.fields indent (m.fieldPairs l) = NormalForm.fields indent l
  | [] => rfl
  | ⟨f, _⟩ :: more => by
    rw [fieldPairs, NormalForm.fields, NormalForm.fields, normal_field, normal_fields]

lemma normal_field (indent : Nat) :
    ∀ f, NormalForm.field indent (m.field f) = NormalForm.field indent f
  | .positional value => by rw [field, NormalForm.field, NormalForm.field, normal_expr]
  | .named name _ value => by
    rw [field, NormalForm.field, NormalForm.field, normal_expr, name_identifier]
  | .keyed _ key _ _ value => by
    rw [field, NormalForm.field, NormalForm.field, normal_expr _ key, normal_expr _ value]

lemma normal_funcBody (indent : Nat) :
    ∀ f, NormalForm.funcBody indent (m.funcBody f) = NormalForm.funcBody indent f
  | ⟨_, params, _, b, _⟩ => by
    rw [funcBody, NormalForm.funcBody, NormalForm.funcBody, normal_block, params_list]

lemma normal_block (indent : Nat) :
    ∀ b, NormalForm.block indent (m.block b) = NormalForm.block indent b
  | ⟨ss, _⟩ => by rw [block, NormalForm.block, NormalForm.block, normal_stats]

lemma normal_stats (indent : Nat) :
    ∀ ss, NormalForm.stats indent (m.stats ss) = NormalForm.stats indent ss
  | [] => rfl
  | s :: more => by
    rw [stats, NormalForm.stats, NormalForm.stats, normal_stat, normal_stats]

lemma normal_stat (indent : Nat) :
    ∀ s, NormalForm.stat indent (m.stat s) = NormalForm.stat indent s
  | .empty _ => rfl
  | .assign ⟨targets, _⟩ _ ⟨values, _⟩ => by
    rw [stat, NormalForm.stat, NormalForm.stat, normal_exprs _ targets, normal_exprs _ values]
  | .call e => by rw [stat, NormalForm.stat, NormalForm.stat, normal_expr]
  | .do_ _ b _ => by rw [stat, NormalForm.stat, NormalForm.stat, normal_block]
  | .while_ _ cond _ b _ => by
    rw [stat, NormalForm.stat, NormalForm.stat, normal_block, normal_expr]
  | .repeat_ _ b _ cond => by
    rw [stat, NormalForm.stat, NormalForm.stat, normal_block, normal_expr]
  | .if_ s => by rw [stat, NormalForm.stat, NormalForm.stat, normal_ifStat]
  | .numericFor s => by rw [stat, NormalForm.stat, NormalForm.stat, normal_numericFor]
  | .genericFor s => by rw [stat, NormalForm.stat, NormalForm.stat, normal_genericFor]
  | .function _ name method f => by
    rw [stat, NormalForm.stat, NormalForm.stat, normal_expr, normal_funcBody, methodNames_map]
  | .localFunction _ _ name f => by
    rw [stat, NormalForm.stat, NormalForm.stat, normal_funcBody, name_identifier]
  | .local_ _ ns _ ⟨values, _⟩ => by
    rw [stat, NormalForm.stat, NormalForm.stat, names_list, normal_exprs, isEmpty_exprPairs]
  | .return_ _ ⟨values, _⟩ _ => by
    rw [stat, NormalForm.stat, NormalForm.stat, normal_exprs, isEmpty_exprPairs]
  | .break_ _ | .goto_ _ _ | .label _ _ _ | .invalid _ _ _ => rfl

lemma normal_ifStat (indent : Nat) :
    ∀ s, NormalForm.ifStat indent (m.ifStat s) = NormalForm.ifStat indent s
  | ⟨_, cond, _, b, clauses, last, _⟩ => by
    rw [ifStat, NormalForm.ifStat, NormalForm.ifStat, normal_expr, normal_block, normal_elseIfs,
      normal_else]

lemma normal_elseIfs (indent : Nat) :
    ∀ cs, NormalForm.elseIfs indent (m.elseIfs cs) = NormalForm.elseIfs indent cs
  | [] => rfl
  | ⟨_, cond, _, b⟩ :: more => by
    rw [elseIfs, elseIf, NormalForm.elseIfs, NormalForm.elseIfs, normal_expr, normal_block,
      normal_elseIfs]

lemma normal_else (indent : Nat) :
    ∀ c, NormalForm.else_ indent (m.elseOption c) = NormalForm.else_ indent c
  | .none => rfl
  | some ⟨_, b⟩ => by rw [elseOption, else_, NormalForm.else_, NormalForm.else_, normal_block]

lemma normal_numericFor (indent : Nat) :
    ∀ s, NormalForm.numericFor indent (m.numericFor s) = NormalForm.numericFor indent s
  | ⟨_, var, _, start, _, limit, last, _, b, _⟩ => by
    rw [numericFor, NormalForm.numericFor, NormalForm.numericFor, normal_expr _ start,
      normal_expr _ limit, normal_step, normal_block, name_identifier]

lemma normal_step (indent : Nat) :
    ∀ s, NormalForm.step indent (m.stepOption s) = NormalForm.step indent s
  | .none => rfl
  | some ⟨_, value⟩ => by rw [stepOption, NormalForm.step, NormalForm.step, normal_expr]

lemma normal_genericFor (indent : Nat) :
    ∀ s, NormalForm.genericFor indent (m.genericFor s) = NormalForm.genericFor indent s
  | ⟨_, ns, _, ⟨values, _⟩, _, b, _⟩ => by
    rw [genericFor, NormalForm.genericFor, NormalForm.genericFor, names_list, normal_exprs,
      normal_block]

end

end Displacement

/-- **Normal forms show nothing of places and trivia.** -/
theorem Block.normalForm_bare (b : Block) : b.bare.normalForm = b.normalForm := by
  rw [normalForm, bare, Displacement.normal_block, normalForm]

end LuaFront
