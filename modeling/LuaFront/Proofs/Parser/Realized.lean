import LuaFront.Grammar.Checked
import LuaFront.Proofs.Parser.Trail

/-!
The grammar on a machine does what the grammar does. The parsers of both are built in the same way,
so that there is one rule for each way of building them. Only a loop over a chain differs: it goes
further in with each link, and what comes after it leaves all these levels.
-/

namespace LuaFront.Checked

open Grammar ParseState

variable {α β : Type} {depth : Nat}

/-! ### Rules -/

/-- On the valid states of a depth, a checked parser comes to what a parser gives. -/
class Realizes (depth : Nat) (g : Checked α) (p : Parse α) : Prop where
  comes : ∀ s : ParseState, s.Valid → s.depth = depth → s.Comes g (p.run s).1 (p.run s).2

namespace Realizes

instance ret {a : α} : Realizes depth (pure a) (pure a) := ⟨fun _ _ _ => comes_ret⟩

instance bind {g : Checked α} {g' : α → Checked β} {p : Parse α} {p' : α → Parse β}
    [hsteady : Parse.Steady p] [h : Realizes depth g p] [h' : ∀ a, Realizes depth (g' a) (p' a)] :
    Realizes depth (g >>= g') (p >>= p') := by
  refine ⟨fun s hs hdepth => ?_⟩
  have honward := hsteady.onward s
  exact comes_bind hs (h.comes s hs hdepth)
    ((h' _).comes _ (honward.valid hs) (honward.depth.trans hdepth))

instance ite {c : Prop} [Decidable c] {g g' : Checked α} {p p' : Parse α} [Realizes depth g p]
    [Realizes depth g' p'] : Realizes depth (if c then g else g') (if c then p else p') := by
  split <;> infer_instance

/-- The rule for a step whose result is then told apart by cases. -/
lemma cases {g : Checked α} {g' : α → Checked β} {p : Parse α} {p' : α → Parse β}
    [Parse.Steady p] [Realizes depth g p] (h' : ∀ a, Realizes depth (g' a) (p' a)) :
    Realizes depth (g >>= g') (p >>= p') := bind

/-- An operation on lists that is possible changes nothing else. -/
lemma pure_bind {g : Checked α} {g' : α → Checked β} {a : α} {p : Parse β}
    (h : ∀ s : ParseState, s.Valid → s.Comes g a s) (h' : Realizes depth (g' a) p) :
    Realizes depth (g >>= g') p :=
  ⟨fun s hs hdepth => comes_bind hs (h s hs) (h'.comes s hs hdepth)⟩

end Realizes

/-! ### Steps -/

instance current_realized : Realizes depth current Parse.current :=
  ⟨fun s _ _ => comes_current s⟩

instance currentKind_realized : Realizes depth currentKind Parse.currentKind :=
  ⟨fun _ hs _ => comes_currentKind hs⟩

instance nextKind_realized : Realizes depth nextKind Parse.nextKind :=
  ⟨fun s hs _ => comes_bind hs (comes_next s) comes_ret⟩

instance atKind_realized {kind : TokenKind} : Realizes depth (atKind kind) (Parse.atKind kind) :=
  ⟨fun s _ _ => comes_atKind kind s⟩

instance lastStop_realized : Realizes depth lastStop Parse.lastStop :=
  ⟨fun s _ _ => comes_lastStop s⟩

instance remaining_realized : Realizes depth remaining Parse.remaining :=
  ⟨fun s _ _ => comes_remaining s⟩

instance advance_realized : Realizes depth advance Parse.advance :=
  ⟨fun _ hs _ => comes_advance hs⟩

instance take?_realized {kind : TokenKind} : Realizes depth (take? kind) (Parse.take? kind) := by
  unfold take? Parse.take?
  infer_instance

instance error_realized {span : Span} {message : String} {labels : List Label}
    [hsteady : Parse.Steady (Parse.error span message labels)] :
    Realizes depth (error span message labels) (Parse.error span message labels) := by
  refine ⟨fun s hs _ => ?_⟩
  have hlater := hsteady.walk s
  rw [Parse.run_error_eq] at hlater ⊢
  exact comes_error hs (.walk .now hlater)

instance errorIf_realized {wrong : Bool} {span : Span} {message : String}
    [Parse.Steady (Parse.error span message [])] :
    Realizes depth (errorIf wrong span message) (Parse.errorIf wrong span message) := by
  unfold errorIf Parse.errorIf
  infer_instance

instance errorExpected_realized {what : String} {labels : List Label} :
    Realizes depth (errorExpected what labels) (Parse.errorExpected what labels) := by
  refine ⟨fun s hs _ => ?_⟩
  have hlater := Parse.Steady.walk (p := Parse.errorExpected what labels) s
  have hrun : (Parse.errorExpected what labels).run s
      = (Parse.error s.cursor.current.span ("expected " ++ what ++ ", found "
        ++ s.cursor.current.kind.describe) labels).run s := rfl
  rw [hrun, Parse.run_error_eq] at hlater ⊢
  exact comes_bind hs (comes_current s) (comes_error hs (.walk .now hlater))

instance expect_realized {kind : TokenKind} :
    Realizes depth (expect kind) (Parse.expect kind) := by
  refine Realizes.cases fun found => ?_
  cases found <;> infer_instance

instance expectClosing_realized {kind : TokenKind} {opener : Token} :
    Realizes depth (expectClosing kind opener) (Parse.expectClosing kind opener) := by
  refine Realizes.cases fun found => ?_
  cases found <;> infer_instance

/-! ### Levels -/

/-- A checked parser comes to what a parser gives one level further in, and leaves that level. -/
class Closes (depth : Nat) (g : Checked α) (p : Parse α) : Prop where
  comes : ∀ s : ParseState, s.Valid → s.depth = depth + 1 →
    s.Comes g (p.run s).1 (Parse.leave.run (p.run s).2).2

instance Closes.bind {g : Checked α} {g' : α → Checked β} {p : Parse α} {p' : α → Parse β}
    [hsteady : Parse.Steady p] [h : Realizes (depth + 1) g p]
    [h' : ∀ a, Closes depth (g' a) (p' a)] : Closes depth (g >>= g') (p >>= p') := by
  refine ⟨fun s hs hdepth => ?_⟩
  have honward := hsteady.onward s
  exact comes_bind hs (h.comes s hs hdepth)
    ((h' _).comes _ (honward.valid hs) (honward.depth.trans hdepth))

instance Closes.leave {a : α} :
    Closes depth (leaveLevels 1 >>= fun _ => pure a) (pure a) := by
  refine ⟨fun s hs hdepth => ?_⟩
  exact comes_bind hs (comes_leaveLevels hs (hdepth ▸ Nat.le_add_left 1 depth)) comes_ret

/-- Where a level is entered it is left again. -/
lemma nested_realized {cut : List Token → Checked α} {refused : List Token → Parse α}
    {g : Checked α} {p : Parse α} [hcut : ∀ tokens, Realizes depth (cut tokens) (refused tokens)]
    [h : Closes depth g p] :
    Realizes depth (enter >>= fun found =>
      match found with
      | some tokens => cut tokens
      | none => g) (Parse.nested refused p) := by
  refine ⟨fun s hs hdepth => ?_⟩
  have hcomes := comes_enter hs
  rcases Parse.enter_cases s with ⟨tokens, s', henter, hsame, -⟩ | ⟨-, -, henter⟩
  · rw [henter] at hcomes
    rw [Parse.run_nested_some henter]
    exact comes_bind hs hcomes
      ((hcut tokens).comes s' (hcomes.later.valid hs) (hsame.trans hdepth))
  · rw [henter] at hcomes
    rw [Parse.run_nested_none henter]
    exact comes_bind hs hcomes (h.comes _ (hcomes.later.valid hs) (congrArg (· + 1) hdepth))

/-! ### Chains -/

/-- A loop over a chain comes to what a parser gives, but has entered some levels and not left them.
It counts them, in addition to those of the links before. -/
class Climbs (depth : Nat) (g : (links : Nat) → Checked (α × Nat)) (p : Parse α) : Prop where
  comes : ∀ s : ParseState, s.Valid → s.depth = depth → ∀ links, ∃ n,
    s.Comes (g links) ((p.run s).1, links + n) { (p.run s).2 with depth := depth + n }

namespace Climbs

lemma ret {a : α} : Climbs depth (fun links => pure (a, links)) (pure a) := by
  refine ⟨fun s hs hdepth links => ⟨0, ?_⟩⟩
  have hrun : (pure a : Parse α).run s = (a, s) := rfl
  rw [hrun, Nat.add_zero, Nat.add_zero, ← hdepth]
  exact comes_ret

lemma ofRealizes {g : Checked α} {p : Parse α} [hsteady : Parse.Steady p]
    [h : Realizes depth g p] : Climbs depth (fun links => return (← g, links)) p := by
  refine ⟨fun s hs hdepth links => ⟨0, ?_⟩⟩
  have honward := hsteady.onward s
  have hstate : { (p.run s).2 with depth := depth + 0 } = (p.run s).2 := by
    rw [Nat.add_zero, ← hdepth, ← honward.depth]
  rw [hstate, Nat.add_zero]
  exact comes_bind hs (h.comes s hs hdepth) comes_ret

lemma bind {g : Checked α} {g' : α → Nat → Checked (β × Nat)} {p : Parse α} {p' : α → Parse β}
    [hsteady : Parse.Steady p] [h : Realizes depth g p] (h' : ∀ a, Climbs depth (g' a) (p' a)) :
    Climbs depth (fun links => g >>= fun a => g' a links) (p >>= p') := by
  refine ⟨fun s hs hdepth links => ?_⟩
  have honward := hsteady.onward s
  obtain ⟨n, hn⟩ := (h' (p.run s).1).comes _ (honward.valid hs) (honward.depth.trans hdepth) links
  exact ⟨n, comes_bind hs (h.comes s hs hdepth) hn⟩

/-- The level of a link is not left where the loop goes on. -/
lemma nested {cut : List Token → Checked α} {refused : List Token → Parse α}
    {g : Nat → Checked (α × Nat)} {p : Parse α} [∀ tokens, Parse.Steady (refused tokens)]
    [hcut : ∀ tokens, Realizes depth (cut tokens) (refused tokens)]
    (h : Climbs (depth + 1) g p) :
    Climbs depth (fun links => enter >>= fun found =>
      match found with
      | some tokens => return (← cut tokens, links)
      | none => g (links + 1)) (Parse.nested refused p) := by
  refine ⟨fun s hs hdepth links => ?_⟩
  have hcomes := comes_enter hs
  rcases Parse.enter_cases s with ⟨tokens, s', henter, hsame, -⟩ | ⟨-, -, henter⟩
  · rw [henter] at hcomes
    rw [Parse.run_nested_some henter]
    obtain ⟨n, hn⟩ := (ofRealizes (h := hcut tokens)).comes s' (hcomes.later.valid hs)
      (hsame.trans hdepth) links
    exact ⟨n, comes_bind hs hcomes hn⟩
  · rw [henter] at hcomes
    rw [Parse.run_nested_none henter]
    obtain ⟨n, hn⟩ := h.comes _ (hcomes.later.valid hs) (congrArg (· + 1) hdepth) (links + 1)
    rw [Nat.add_assoc, Nat.add_assoc, Nat.add_comm 1 n] at hn
    exact ⟨n + 1, comes_bind hs hcomes hn⟩

/-- After a loop all its levels can be left at once, and others with them. -/
lemma leave {g : Nat → Checked (α × Nat)} {p : Parse α} (h : Climbs depth g p) {s : ParseState}
    (hs : s.Valid) (hdepth : s.depth = depth) {further : Nat} (hfurther : further ≤ depth) :
    s.Comes (g 0 >>= fun r => leaveLevels (r.2 + further) >>= fun _ => pure r.1) (p.run s).1
      { (p.run s).2 with depth := depth - further } := by
  obtain ⟨n, hn⟩ := h.comes s hs hdepth 0
  have hvalid := hn.later.valid hs
  rw [Nat.zero_add] at hn
  have hleave := comes_leaveLevels hvalid
    (by omega : n + further ≤ depth + n)
  have hdepth' : depth + n - (n + further) = depth - further := by omega
  rw [hdepth'] at hleave
  exact comes_bind hs hn (comes_bind hvalid hleave comes_ret)

end Climbs

/-- A chain leaves as many levels as it has links. -/
lemma chain_realized {g : Nat → Checked (α × Nat)} {p : Parse α} [hsteady : Parse.Steady p]
    (h : Climbs depth g p) :
    Realizes depth (g 0 >>= fun (a, links) => do leaveLevels links; return a) p := by
  refine ⟨fun s hs hdepth => ?_⟩
  have hleave := h.leave hs hdepth (Nat.zero_le depth)
  rwa [Nat.sub_zero, ← hdepth, ← (hsteady.onward s).depth] at hleave

/-- The level around a chain is left together with those of its links. -/
lemma chain_closes {g : Nat → Checked (α × Nat)} {p : Parse α} [hsteady : Parse.Steady p]
    (h : Climbs (depth + 1) g p) :
    Closes depth (g 0 >>= fun (a, links) => do leaveLevels (links + 1); return a) p := by
  refine ⟨fun s hs hdepth => ?_⟩
  have hleave := h.leave hs hdepth (Nat.le_add_left 1 depth)
  rwa [← hdepth, ← (hsteady.onward s).depth] at hleave

/-! ### Lists -/

section Lists

variable {item : Checked α} {item' : Parse α} [Parse.Steady item'] [Realizes depth item item']

/-- After an item comes a delimiter, and after that an item. -/
lemma moreItems_realized {bound : Nat} {list : Separated α} (h : list.lacksDelimiter = true) :
    Realizes depth (moreItems item bound list) (Grammar.moreItems item' bound list) := by
  induction bound generalizing list with
  | zero => exact .ret
  | succ bound ih =>
    refine Realizes.cases fun found => ?_
    cases found with
    | none => exact .ret
    | some comma =>
      refine .pure_bind (fun s hs => comes_delimit hs h comma) (Realizes.cases fun next => ?_)
      refine .pure_bind (fun s hs => comes_push hs (list.lacksDelimiter_delimit comma) next) ?_
      exact ih (Separated.lacksDelimiter_push _ _)

instance itemsAfter_realized {anchor : Offset} {first : α} :
    Realizes depth (itemsAfter item anchor first) (Grammar.itemsAfter item' anchor first) := by
  refine .pure_bind (fun s hs => comes_push hs rfl first) (Realizes.cases fun bound => ?_)
  exact moreItems_realized (Separated.lacksDelimiter_push _ _)

instance commaList_realized : Realizes depth (commaList item) (Grammar.commaList item') := by
  unfold commaList Grammar.commaList
  infer_instance

end Lists

instance identifier_realized : Realizes depth identifier Grammar.identifier := by
  unfold identifier Grammar.identifier
  infer_instance

instance nameList_realized : Realizes depth nameList Grammar.nameList := commaList_realized

/-! ### The parsers of a level -/

/-- The parsers of a level do the same. -/
class Level.Realizes (depth : Nat) (c : Checked.Level) (l : Grammar.Level) : Prop where
  expr : ∀ power, Checked.Realizes depth (c.expr power) (l.expr power)
  operators : ∀ power first, Climbs depth (c.operators power first) (l.operators power first)
  suffixes : ∀ calls base, Climbs depth (c.suffixes calls base) (l.suffixes calls base)
  block : ∀ anchor, Checked.Realizes depth (c.block anchor) (l.block anchor)

attribute [instance] Level.Realizes.expr Level.Realizes.block

section Parsers

variable {c : Checked.Level} {l : Grammar.Level} [l.Steady] [h : Level.Realizes depth c l]
  {keyword : Token}

include h

instance blockHere_realized : Realizes depth c.blockHere l.blockHere := by
  unfold Checked.Level.blockHere Grammar.Level.blockHere
  infer_instance

instance expression_realized : Realizes depth c.expression l.expression := h.expr 0

instance exprList_realized : Realizes depth c.exprList l.exprList := commaList_realized

omit h in
instance missingExpr_realized : Realizes depth missingExpr Grammar.missingExpr := by
  unfold missingExpr Grammar.missingExpr
  infer_instance

/-! #### Tables -/

instance tableField_realized : Realizes depth (tableField c) (Grammar.tableField l) := by
  refine Realizes.cases fun kind => ?_
  cases kind with
  | symbol s => cases s <;> infer_instance
  | _ => infer_instance

lemma tableFields_realized {bound : Nat} {fields : Separated TableField}
    (hfields : fields.lacksDelimiter = false) :
    Realizes depth (tableFields c bound fields) (Grammar.tableFields l bound fields) := by
  induction bound generalizing fields with
  | zero => exact .ret
  | succ bound ih =>
    refine Realizes.cases fun kind => ?_
    split
    · refine Realizes.cases fun field => ?_
      refine .pure_bind (fun s hs => comes_push hs hfields field) (Realizes.cases fun next => ?_)
      have hmore : ∀ delimiter, Realizes depth
          (delimit (fields.push field) delimiter >>= tableFields c bound)
          (Grammar.tableFields l bound ((fields.push field).delimit delimiter)) := by
        have hlacks := fields.lacksDelimiter_push field
        exact fun delimiter => .pure_bind (fun s hs => comes_delimit hs hlacks delimiter)
          (ih (Separated.lacksDelimiter_delimit _ _))
      cases next with
      | symbol s => cases s <;> infer_instance
      | _ => infer_instance
    · exact .ret

instance table_realized : Realizes depth (table c) (Grammar.table l) := by
  refine Realizes.cases fun opening => Realizes.cases fun bound => ?_
  have hfields : Realizes depth (tableFields c bound (.empty opening.span.stop))
      (Grammar.tableFields l bound (.empty opening.span.stop)) := tableFields_realized rfl
  infer_instance

/-! #### Functions -/

omit h in
lemma parameters_realized {bound : Nat} {params : Separated Param}
    (hparams : params.lacksDelimiter = false) :
    Realizes depth (parameters bound params) (Grammar.parameters bound params) := by
  induction bound generalizing params with
  | zero => exact .ret
  | succ bound ih =>
    refine Realizes.cases fun kind => ?_
    have hdots : ∀ dots, Realizes depth (push params (.vararg ⟨dots⟩))
        (pure (params.push (.vararg ⟨dots⟩))) :=
      fun dots => ⟨fun s hs _ => comes_push hs hparams (.vararg ⟨dots⟩)⟩
    cases kind with
    | ident =>
      refine Realizes.cases fun name => ?_
      refine .pure_bind (fun s hs => comes_push hs hparams (.name ⟨name⟩)) ?_
      refine Realizes.cases fun found => ?_
      cases found with
      | none => exact .ret
      | some comma =>
        have hlacks := params.lacksDelimiter_push (.name ⟨name⟩)
        refine .pure_bind (fun s hs => comes_delimit hs hlacks comma) ?_
        exact ih (Separated.lacksDelimiter_delimit _ _)
    | symbol s => cases s <;> infer_instance
    | _ => infer_instance

omit h in
instance parameterList_realized : Realizes depth parameterList Grammar.parameterList := by
  refine Realizes.cases fun anchor => Realizes.cases fun found => ?_
  split
  · exact .ret
  · exact Realizes.cases fun bound => parameters_realized rfl

instance funcBody_realized :
    Realizes depth (funcBody c keyword) (Grammar.funcBody l keyword) := by
  unfold funcBody Grammar.funcBody
  infer_instance

/-! #### Suffixes -/

instance argList_realized : Realizes depth (argList c) (Grammar.argList l) := by
  unfold argList Grammar.argList
  infer_instance

instance callArgs_realized : Realizes depth (callArgs c) (Grammar.callArgs l) := by
  refine Realizes.cases fun kind => ?_
  cases kind with
  | symbol s => cases s <;> infer_instance
  | _ => infer_instance

instance suffix_realized {base : Expr} :
    Realizes depth (suffix c base) (Grammar.suffix l base) := by
  refine Realizes.cases fun kind => ?_
  cases kind with
  | symbol s => cases s <;> infer_instance
  | _ => infer_instance

instance primary_realized : Realizes depth (primary c) (Grammar.primary l) := by
  refine Realizes.cases fun kind => ?_
  cases kind with
  | symbol s => cases s <;> infer_instance
  | _ => infer_instance

instance suffixed_realized {calls : Bool} :
    Realizes depth (suffixed c calls) (Grammar.suffixed l calls) :=
  Realizes.cases fun base => chain_realized (h.suffixes calls base)

/-! #### Operands -/

omit h in
instance literal_realized {kind : LiteralKind} :
    Realizes depth (literal kind) (Grammar.literal kind) := by
  unfold literal Grammar.literal
  infer_instance

instance simpleExpr_realized : Realizes depth (simpleExpr c) (Grammar.simpleExpr l) := by
  refine Realizes.cases fun kind => ?_
  cases kind with
  | keyword k => cases k <;> infer_instance
  | symbol s => cases s <;> infer_instance
  | _ => infer_instance

instance operand_realized : Realizes depth (operand c) (Grammar.operand l) := by
  refine Realizes.cases fun kind => ?_
  cases kind.unaryOp? <;> infer_instance

/-! #### Compound statements -/

instance elseIfs_realized {bound : Nat} :
    Realizes depth (elseIfs c bound) (Grammar.elseIfs l bound) := by
  induction bound with
  | zero => exact .ret
  | succ bound ih =>
    refine Realizes.cases fun found => ?_
    cases found <;> infer_instance

instance else_realized : Realizes depth (else_ c) (Grammar.else_ l) := by
  refine Realizes.cases fun found => ?_
  cases found <;> infer_instance

instance ifStat_realized : Realizes depth (ifStat c) (Grammar.ifStat l) := by
  unfold ifStat Grammar.ifStat
  infer_instance

instance whileStat_realized : Realizes depth (whileStat c) (Grammar.whileStat l) := by
  unfold whileStat Grammar.whileStat
  infer_instance

instance doStat_realized : Realizes depth (doStat c) (Grammar.doStat l) := by
  unfold doStat Grammar.doStat
  infer_instance

instance repeatStat_realized : Realizes depth (repeatStat c) (Grammar.repeatStat l) := by
  unfold repeatStat Grammar.repeatStat
  infer_instance

instance step_realized : Realizes depth (step c) (Grammar.step l) := by
  refine Realizes.cases fun found => ?_
  cases found <;> infer_instance

instance numericFor_realized :
    Realizes depth (numericFor c keyword) (Grammar.numericFor l keyword) := by
  unfold numericFor Grammar.numericFor
  infer_instance

instance genericFor_realized :
    Realizes depth (genericFor c keyword) (Grammar.genericFor l keyword) := by
  unfold genericFor Grammar.genericFor
  infer_instance

instance forStat_realized : Realizes depth (forStat c) (Grammar.forStat l) := by
  unfold forStat Grammar.forStat
  infer_instance

/-! #### Functions as statements -/

omit h in
instance methodName_realized : Realizes depth methodName Grammar.methodName := by
  refine Realizes.cases fun found => ?_
  cases found <;> infer_instance

instance functionName_realized : Realizes depth (functionName c) (Grammar.functionName l) := by
  unfold functionName Grammar.functionName
  infer_instance

omit h in
instance checkName_realized {name : Expr} :
    Realizes depth (checkName name) (Grammar.checkName name) := by
  unfold checkName Grammar.checkName
  cases firstNonName? name <;> infer_instance

instance functionStat_realized : Realizes depth (functionStat c) (Grammar.functionStat l) := by
  unfold functionStat Grammar.functionStat
  infer_instance

instance localFunction_realized :
    Realizes depth (localFunction c) (Grammar.localFunction l) := by
  unfold localFunction Grammar.localFunction
  infer_instance

/-! #### Assignments -/

/-- Going back leads to the state from before the values. -/
instance assignedValues_realized {eq : Token} :
    Realizes depth (assignedValues c eq) (Grammar.assignedValues l eq) := by
  refine ⟨fun s hs hdepth => ?_⟩
  have hvalues := (exprList_realized (c := c) (l := l)).comes s hs hdepth
  have hvalid := hvalues.later.valid hs
  have hsteady := Parse.Steady.walk (p := l.exprList) s
  have hstart : s.Comes checkpoint ⟨s.cursor.pos, s.log.size⟩ s := comes_still fun _ => rfl
  refine comes_bind hs hstart ?_
  rw [Grammar.run_assignedValues]
  by_cases hback : (l.exprList.run s).2.cursor.current.kind = .symbol .eq
      ∧ eq.isMissing = false
  · rw [if_pos hback]
    have hnot : (l.exprList.run s).2.tooDeep = false := hvalid.going (by simp [hback.1])
    have hretry : s.Later { s with tooDeep := (l.exprList.run s).2.tooDeep } :=
      .walk .now (hsteady.retry (by simp [hback.1]))
    have hrestore := steps_restore (l.exprList.run s).2 ⟨s.cursor.pos, s.log.size⟩
    rw [Parse.run_restore_onward hsteady.onward] at hrestore
    have hrest : Realizes depth
        (do
          error (.empty eq.span.stop) "expected expression after '='" []
          push (.empty eq.span.stop) (.invalid none [] eq.span.stop))
        (do
          Parse.error (.empty eq.span.stop) "expected expression after '='" []
          return noValues eq.span.stop) :=
      Realizes.cases fun _ => ⟨fun s hs _ => comes_push hs rfl _⟩
    refine comes_bind_steps hs hvalues hretry (fun hgave => ?_)
      (.look (run_atKind _ _) ?_) (hrest.comes _ (hretry.valid hs) hdepth)
    · exact absurd (hnot.symm.trans hgave) Bool.false_ne_true
    · rw [if_neg (by simp [hback])]
      exact hrestore.bind
  · rw [if_neg hback]
    refine comes_bind hs hvalues (comes_bind hvalid (comes_atKind ..) ?_)
    rw [if_pos (by simpa [imp_iff_not_or] using hback)]
    exact comes_ret

instance localStat_realized : Realizes depth (localStat c) (Grammar.localStat l) := by
  refine Realizes.cases fun keyword => Realizes.cases fun names => Realizes.cases fun found => ?_
  cases found <;> infer_instance

omit h in
instance checkTargets_realized {targets : List Expr} :
    Realizes depth (checkTargets targets) (Grammar.checkTargets targets) := by
  induction targets with
  | nil => exact .ret
  | cons e targets ih => exact .bind

instance assignment_realized {first : Expr} :
    Realizes depth (assignment c first) (Grammar.assignment l first) := by
  unfold assignment Grammar.assignment
  infer_instance

/-! #### Statements -/

omit h in
instance notAStatement_realized {e : Expr} :
    Realizes depth (notAStatement e) (Grammar.notAStatement e) := by
  unfold notAStatement Grammar.notAStatement
  infer_instance

instance exprStat_realized : Realizes depth (exprStat c) (Grammar.exprStat l) := by
  refine Realizes.cases fun e => Realizes.cases fun kind => ?_
  cases kind with
  | symbol s => cases s <;> infer_instance
  | _ => infer_instance

instance returnValues_realized : Realizes depth (returnValues c) (Grammar.returnValues l) := by
  unfold returnValues Grammar.returnValues
  infer_instance

instance returnStat_realized : Realizes depth (returnStat c) (Grammar.returnStat l) := by
  unfold returnStat Grammar.returnStat
  infer_instance

omit h in
instance labelStat_realized : Realizes depth labelStat Grammar.labelStat := by
  unfold labelStat Grammar.labelStat
  infer_instance

omit h in
instance skipToken_realized : Realizes depth skipToken Grammar.skipToken := by
  unfold skipToken Grammar.skipToken
  infer_instance

instance statement_realized : Realizes depth (statement c) (Grammar.statement l) := by
  refine Realizes.cases fun kind => ?_
  cases kind with
  | keyword k => cases k <;> infer_instance
  | symbol s => cases s <;> infer_instance
  | _ => infer_instance

instance statements_realized {bound : Nat} {afterReturn : Bool} :
    Realizes depth (statements c bound afterReturn)
      (Grammar.statements l bound afterReturn) := by
  induction bound generalizing afterReturn with
  | zero => exact .ret
  | succ bound ih =>
    unfold statements Grammar.statements
    infer_instance

end Parsers

/-! ### The parsers of the next level out -/

instance cutOff_realized {kept : Option Expr} {tokens : List Token} :
    Realizes depth (cutOff kept tokens) (Grammar.cutOff kept tokens) := by
  unfold cutOff Grammar.cutOff
  infer_instance

instance cutOffBlock_realized {anchor : Offset} {tokens : List Token} :
    Realizes depth (cutOffBlock anchor tokens) (Grammar.cutOffBlock anchor tokens) := .ret

section Around

variable {c : Checked.Level} {l : Grammar.Level} [l.Steady]
  [h : Level.Realizes (depth + 1) c l]

instance exprAround_realized {power : Nat} :
    Realizes depth (exprAround c power) (Grammar.exprAround l power) := by
  have hcloses : ∀ first, Closes depth (c.operators power first 0 >>= fun (e, links) => do
      leaveLevels (links + 1)
      return e) (l.operators power first) := fun first => chain_closes (h.operators power first)
  exact nested_realized (h := .bind)

instance blockAround_realized {anchor : Offset} :
    Realizes depth (blockAround c anchor) (Grammar.blockAround l anchor) := by
  refine nested_realized (h := ?_)
  infer_instance

/-- The loop over a chain of operators, which goes further in with each of them. -/
lemma operatorsAround_climbs (power : Nat) (first : Expr) :
    Climbs depth (operatorsAround c power first) (Grammar.operatorsAround l power first) := by
  refine .bind fun kind => ?_
  cases kind.binaryOp? with
  | none => exact .ret
  | some op =>
    by_cases hpower : op.leftPower ≤ power
    · simp only [if_pos hpower]
      exact .ret
    · simp only [if_neg hpower]
      exact .nested (.bind fun sign => .bind fun second => h.operators power _)

/-- The same for suffixes. -/
lemma suffixesAround_climbs (calls : Bool) (base : Expr) :
    Climbs depth (suffixesAround c calls base) (Grammar.suffixesAround l calls base) := by
  refine .bind fun kind => ?_
  by_cases hkind : beginsSuffix calls kind = true
  · simp only [if_pos hkind]
    exact .nested (.bind fun e => h.suffixes calls e)
  · simp only [if_neg hkind]
    exact .ret

instance Level.Realizes.around : Level.Realizes depth c.around l.around where
  expr _ := exprAround_realized
  operators := operatorsAround_climbs
  suffixes := suffixesAround_climbs
  block _ := blockAround_realized

end Around

/-- There is no state at the depth of the bottom, so that the machine never stops there. -/
lemma bottom_realized : Level.Realizes (maxDepth + 1) .bottom .bottom := by
  have hnone : ∀ {s : ParseState}, s.Valid → s.depth ≠ maxDepth + 1 := by
    intro s hs hdepth
    have hlimit := hs.depth
    omega
  constructor
  · exact fun _ => ⟨fun s hs hdepth => absurd hdepth (hnone hs)⟩
  · exact fun _ _ => ⟨fun s hs hdepth => absurd hdepth (hnone hs)⟩
  · exact fun _ _ => ⟨fun s hs hdepth => absurd hdepth (hnone hs)⟩
  · exact fun _ => ⟨fun s hs hdepth => absurd hdepth (hnone hs)⟩

lemma level_realized {k : Nat} (hk : k ≤ maxDepth + 1) :
    Level.Realizes (maxDepth + 1 - k) (level k) (Grammar.level k) :=
  level_induct (P := fun k depth => Level.Realizes depth (level k) (Grammar.level k))
    bottom_realized (fun _ => .around) hk

/-! ### Chunks -/

instance outermost_realized : Level.Realizes 0 outermost Grammar.outermost := by
  have houtermost := level_realized (Nat.le_refl (maxDepth + 1))
  rwa [Nat.sub_self] at houtermost

instance expression_realized_outermost : Realizes 0 expression Grammar.expression :=
  expression_realized

/-- What is skipped is reported right away. -/
lemma skipStray_realized {f : Token → Checked α} {f' : Token → Parse α}
    [h : ∀ stray, Realizes depth (f stray) (f' stray)] :
    Realizes depth (advance >>= fun stray => do
      error stray.span ("unexpected " ++ stray.kind.describe) []
      f stray) (Parse.advance >>= fun stray => do
      Parse.error stray.span ("unexpected " ++ stray.kind.describe) []
      f' stray) := by
  refine ⟨fun s hs hdepth => ?_⟩
  have hstray := Walk.stray s ("unexpected " ++ s.cursor.current.kind.describe)
  rw [Parse.run_bind (Parse.run_advance s), Parse.run_bind (Parse.run_error_eq ..)]
  exact comes_bind_steps hs (comes_advance hs) (.walk .now hstray) (fun hdeep => ⟨hdeep, rfl⟩)
    (steps_error ..).bind ((h _).comes _ (hstray.onward.valid hs) hdepth)

instance strays_realized {bound : Nat} : Realizes 0 (strays bound) (Grammar.strays bound) := by
  induction bound with
  | zero => exact .ret
  | succ bound ih =>
    refine Realizes.cases fun found => ?_
    split
    · exact .ret
    · exact skipStray_realized

instance chunk_realized : Realizes 0 chunk Grammar.chunk := by
  unfold chunk Grammar.chunk
  infer_instance

end LuaFront.Checked
