import LuaFront.Proofs.Parser.Levels
import LuaFront.Proofs.Parser.Steady

/-!
The end of the recursion. The parsers of a level call those of the level in it, and at the depth
where entering a further level is refused nothing further in is run. So it makes no difference what
stands below the deepest level.
-/

namespace LuaFront

namespace Parse

variable {α β : Type} {depth : Nat}

/-- On the valid states of a depth, two parsers do the same. -/
class Alike (depth : Nat) (p q : Parse α) : Prop where
  run_eq : ∀ s : ParseState, s.Valid → s.depth = depth → p.run s = q.run s

namespace Alike

instance (priority := low) refl {p : Parse α} : Alike depth p p := ⟨fun _ _ _ => rfl⟩

instance bind {p q : Parse α} {f g : α → Parse β} [hsteady : Steady p] [hp : Alike depth p q]
    [hf : ∀ a, Alike depth (f a) (g a)] : Alike depth (p >>= f) (q >>= g) := by
  refine ⟨fun s hs hdepth => ?_⟩
  have honward := hsteady.onward s
  rw [StateT.run_bind, StateT.run_bind, ← hp.run_eq s hs hdepth]
  exact (hf _).run_eq _ (honward.valid hs) (honward.depth.trans hdepth)

instance ite {c : Prop} [Decidable c] {p q p' q' : Parse α} [Alike depth p p'] [Alike depth q q'] :
    Alike depth (if c then p else q) (if c then p' else q') := by
  split <;> infer_instance

/-- The rule for a step whose result is then told apart by cases. -/
lemma cases {p q : Parse α} {f g : α → Parse β} [Steady p] [Alike depth p q]
    (hf : ∀ a, Alike depth (f a) (g a)) : Alike depth (p >>= f) (q >>= g) := bind

end Alike

/-- No further level is entered from the deepest one. -/
instance nested_alike {refused : List Token → Parse α} {p q : Parse α}
    [h : Alike (depth + 1) p q] : Alike depth (nested refused p) (nested refused q) := by
  refine ⟨fun s hs hdepth => ?_⟩
  rcases enter_cases s with ⟨tokens, s', henter, -⟩ | ⟨-, hlimit, henter⟩
  · rw [run_nested_some henter, run_nested_some henter]
  · have hinner := h.run_eq { s with depth := s.depth + 1 } (hs.atDepth hlimit)
      (congrArg (· + 1) hdepth)
    rw [run_nested_none henter, run_nested_none henter, hinner]

end Parse

namespace Grammar

open Parse

/-- The parsers of two levels do the same. -/
class Level.Alike (depth : Nat) (l m : Level) : Prop where
  expr : ∀ power, Parse.Alike depth (l.expr power) (m.expr power)
  operators : ∀ power first, Parse.Alike depth (l.operators power first) (m.operators power first)
  suffixes : ∀ calls base, Parse.Alike depth (l.suffixes calls base) (m.suffixes calls base)
  block : ∀ anchor, Parse.Alike depth (l.block anchor) (m.block anchor)

attribute [instance] Level.Alike.expr Level.Alike.operators Level.Alike.suffixes Level.Alike.block

/-- There is no state at the depth below the deepest level. -/
lemma Level.alike_below (l m : Level) : Level.Alike (maxDepth + 1) l m := by
  have hall : ∀ {α : Type} (p q : Parse α), Parse.Alike (maxDepth + 1) p q := by
    refine fun p q => ⟨fun s hs hdepth => ?_⟩
    have hlimit := hs.depth
    omega
  exact ⟨fun _ => hall .., fun _ _ => hall .., fun _ _ => hall .., fun _ => hall ..⟩

section Parsers

variable {depth : Nat} {l m : Level} [l.Steady] [h : Level.Alike depth l m] {keyword : Token}

/-! ### Lists -/

section Lists

variable {α : Type} {item other : Parse α} [Steady item] [Alike depth item other]

instance moreItems_alike {bound : Nat} {list : Separated α} :
    Alike depth (moreItems item bound list) (moreItems other bound list) := by
  induction bound generalizing list with
  | zero => exact .refl
  | succ bound ih =>
    refine Alike.cases fun found => ?_
    cases found <;> infer_instance

instance itemsAfter_alike {anchor : Offset} {first : α} :
    Alike depth (itemsAfter item anchor first) (itemsAfter other anchor first) := by
  unfold itemsAfter
  infer_instance

instance commaList_alike : Alike depth (commaList item) (commaList other) := by
  unfold commaList
  infer_instance

end Lists

include h

instance blockHere_alike : Alike depth l.blockHere m.blockHere := by
  unfold Level.blockHere
  infer_instance

/-! ### Expressions -/

instance expression_alike : Alike depth l.expression m.expression := h.expr 0

instance exprList_alike : Alike depth l.exprList m.exprList := commaList_alike

instance tableField_alike : Alike depth (tableField l) (tableField m) := by
  refine Alike.cases fun kind => ?_
  split <;> infer_instance

instance tableFields_alike {bound : Nat} {fields : Separated TableField} :
    Alike depth (tableFields l bound fields) (tableFields m bound fields) := by
  induction bound generalizing fields with
  | zero => exact .refl
  | succ bound ih =>
    refine Alike.cases fun kind => ?_
    split
    · refine Alike.cases fun field => Alike.cases fun next => ?_
      split <;> infer_instance
    · exact .refl

instance table_alike : Alike depth (table l) (table m) := by
  unfold table
  infer_instance

instance funcBody_alike : Alike depth (funcBody l keyword) (funcBody m keyword) := by
  unfold funcBody
  infer_instance

instance argList_alike : Alike depth (argList l) (argList m) := by
  unfold argList
  infer_instance

instance callArgs_alike : Alike depth (callArgs l) (callArgs m) := by
  refine Alike.cases fun kind => ?_
  split <;> infer_instance

instance suffix_alike {base : Expr} : Alike depth (suffix l base) (suffix m base) := by
  refine Alike.cases fun kind => ?_
  split <;> infer_instance

instance primary_alike : Alike depth (primary l) (primary m) := by
  refine Alike.cases fun kind => ?_
  split <;> infer_instance

instance suffixed_alike {calls : Bool} : Alike depth (suffixed l calls) (suffixed m calls) := by
  unfold suffixed
  infer_instance

instance simpleExpr_alike : Alike depth (simpleExpr l) (simpleExpr m) := by
  refine Alike.cases fun kind => ?_
  split <;> infer_instance

instance operand_alike : Alike depth (operand l) (operand m) := by
  refine Alike.cases fun kind => ?_
  split <;> infer_instance

/-! ### Statements -/

instance elseIfs_alike {bound : Nat} : Alike depth (elseIfs l bound) (elseIfs m bound) := by
  induction bound with
  | zero => exact .refl
  | succ bound ih =>
    refine Alike.cases fun found => ?_
    cases found <;> infer_instance

instance else_alike : Alike depth (else_ l) (else_ m) := by
  refine Alike.cases fun found => ?_
  cases found <;> infer_instance

instance ifStat_alike : Alike depth (ifStat l) (ifStat m) := by
  unfold ifStat
  infer_instance

instance whileStat_alike : Alike depth (whileStat l) (whileStat m) := by
  unfold whileStat
  infer_instance

instance doStat_alike : Alike depth (doStat l) (doStat m) := by
  unfold doStat
  infer_instance

instance repeatStat_alike : Alike depth (repeatStat l) (repeatStat m) := by
  unfold repeatStat
  infer_instance

instance step_alike : Alike depth (step l) (step m) := by
  refine Alike.cases fun found => ?_
  cases found <;> infer_instance

instance numericFor_alike : Alike depth (numericFor l keyword) (numericFor m keyword) := by
  unfold numericFor
  infer_instance

instance genericFor_alike : Alike depth (genericFor l keyword) (genericFor m keyword) := by
  unfold genericFor
  infer_instance

instance forStat_alike : Alike depth (forStat l) (forStat m) := by
  unfold forStat
  infer_instance

instance functionName_alike : Alike depth (functionName l) (functionName m) := by
  unfold functionName
  infer_instance

instance functionStat_alike : Alike depth (functionStat l) (functionStat m) := by
  unfold functionStat
  infer_instance

instance localFunction_alike : Alike depth (localFunction l) (localFunction m) := by
  unfold localFunction
  infer_instance

/-- What the parser does after it has read values depends on them and on its state only. -/
instance assignedValues_alike {eq : Token} :
    Alike depth (assignedValues l eq) (assignedValues m eq) := by
  refine ⟨fun s hs hdepth => ?_⟩
  have hstart : checkpoint.run s = (⟨s.cursor.pos, s.log.size⟩, s) := rfl
  have hvalues : l.exprList.run s = m.exprList.run s := exprList_alike.run_eq s hs hdepth
  unfold assignedValues
  rw [run_bind hstart, run_bind hstart, StateT.run_bind, StateT.run_bind, hvalues]

instance localStat_alike : Alike depth (localStat l) (localStat m) := by
  refine Alike.cases fun keyword => Alike.cases fun names => Alike.cases fun found => ?_
  cases found <;> infer_instance

instance assignment_alike {first : Expr} :
    Alike depth (assignment l first) (assignment m first) := by
  unfold assignment
  infer_instance

instance exprStat_alike : Alike depth (exprStat l) (exprStat m) := by
  refine Alike.cases fun e => Alike.cases fun kind => ?_
  split <;> infer_instance

instance returnValues_alike : Alike depth (returnValues l) (returnValues m) := by
  unfold returnValues
  infer_instance

instance returnStat_alike : Alike depth (returnStat l) (returnStat m) := by
  unfold returnStat
  infer_instance

instance statement_alike : Alike depth (statement l) (statement m) := by
  refine Alike.cases fun kind => ?_
  split <;> infer_instance

instance statements_alike {bound : Nat} {afterReturn : Bool} :
    Alike depth (statements l bound afterReturn) (statements m bound afterReturn) := by
  induction bound generalizing afterReturn with
  | zero => exact .refl
  | succ bound ih =>
    unfold statements
    infer_instance

end Parsers

/-! ### Levels -/

instance Level.Alike.around {depth : Nat} {l m : Level} [l.Steady] [Level.Alike (depth + 1) l m] :
    Level.Alike depth l.around m.around where
  expr _ := nested_alike
  operators _ _ := by
    refine Parse.Alike.cases fun kind => ?_
    split <;> infer_instance
  suffixes _ _ := by
    refine Parse.Alike.cases fun kind => ?_
    infer_instance
  block _ := nested_alike

/-- The levels above something else than nothing. -/
def levelOver (floor : Level) : (depth : Nat) → Level
  | 0 => floor
  | depth + 1 => (levelOver floor depth).around

/-- **Nothing is read below the deepest level**: the parsers of a level do the same whatever there
is below, at the depth where they are run. -/
lemma level_alike (floor : Level) {k : Nat} (hk : k ≤ maxDepth + 1) :
    Level.Alike (maxDepth + 1 - k) (level k) (levelOver floor k) :=
  level_induct (P := fun k depth => Level.Alike depth (level k) (levelOver floor k))
    (Level.alike_below _ _) (fun _ => .around) hk

end Grammar

end LuaFront
