import LuaFront.Grammar.Chunk
import LuaFront.Proofs.Parser.Moves

/-!
Every parser reads the displaced tree from displaced tokens, on every level and so in the whole
chunk.
-/

namespace LuaFront

/-! ### What parsers ask of trees -/

namespace Displacement

variable {m : Displacement}

@[simp] lemma isMissing_token (t : Token) : (m.token t).isMissing = t.isMissing := rfl

@[simp] lemma isAssignable_expr (e : Expr) : (m.expr e).isAssignable = e.isAssignable := by
  cases e <;> rfl

@[simp] lemma isCall_expr (e : Expr) : (m.expr e).isCall = e.isCall := by cases e <;> rfl

@[simp] lemma isInvalid_expr (e : Expr) : (m.expr e).isInvalid = e.isInvalid := by cases e <;> rfl

@[simp] lemma isReturn_stat (s : Stat) : (m.stat s).isReturn = s.isReturn := by cases s <;> rfl

open Grammar in
lemma firstNonName?_expr (name : Expr) :
    firstNonName? (m.expr name) = (firstNonName? name).map m.expr := by
  induction name using firstNonName?.induct with
  | case1 => rfl
  | case2 base dot name ih => rw [expr, firstNonName?, firstNonName?, ih]
  | case3 e hname hfield => cases e <;> first | rfl | simp at hname hfield

lemma span_expr (e : Expr) : (Node.ofExpr (m.expr e)).span = m.span (Node.ofExpr e).span := by
  rw [← node_ofExpr, span_node]

lemma span_stat (s : Stat) : (Node.stat (m.stat s)).span = m.span (Node.stat s).span :=
  span_node (.stat s)

end Displacement

lemma Node.upright_span (n : Node) : n.span.start ≤ n.span.stop := by
  rw [Node.span_eq]
  split
  · exact Nat.le_max_right ..
  · exact Nat.le_refl _

namespace Grammar

open Parse

variable {m : Displacement} {inner : Level} {keyword : Token}

/-- The parsers of a level read displaced trees from displaced tokens. -/
structure Level.Moved (m : Displacement) (l : Level) : Prop where
  expr : ∀ power, Moves m m.expr (l.expr power) (l.expr power)
  operators : ∀ power first, Moves m m.expr (l.operators power first)
    (l.operators power (m.expr first))
  suffixes : ∀ calls base, Moves m m.expr (l.suffixes calls base)
    (l.suffixes calls (m.expr base))
  block : ∀ anchor, Moves m m.block (l.block anchor) (l.block (m.offset anchor))

/-! ### Names and lists -/

lemma identifier_moves : Moves m m.identifier identifier identifier :=
  expect_moves.bind fun _ => .ret rfl

section Lists

variable {α : Type} {act : α → α} {item : Parse α}

lemma moreItems_moves (hitem : Moves m act item item) {bound : Nat} {list : Separated α} :
    Moves m (m.list act) (moreItems item bound list) (moreItems item bound (m.list act list)) := by
  induction bound generalizing list with
  | zero => exact .ret rfl
  | succ bound ih =>
    refine take?_moves.bind fun found => ?_
    cases found with
    | none => exact .ret rfl
    | some comma =>
      refine hitem.bind fun next => ?_
      rw [← Displacement.list_delimit, ← Displacement.list_push]
      exact ih

lemma itemsAfter_moves (hitem : Moves m act item item) {anchor : Offset} {first : α} :
    Moves m (m.list act) (itemsAfter item anchor first)
      (itemsAfter item (m.offset anchor) (act first)) :=
  remaining_moves fun count => by
    rw [← Displacement.list_empty act, ← Displacement.list_push]
    exact moreItems_moves hitem

lemma commaList_moves (hitem : Moves m act item item) :
    Moves m (m.list act) (commaList item) (commaList item) :=
  lastStop_moves.bind fun _ => hitem.bind fun _ => itemsAfter_moves hitem

end Lists

lemma nameList_moves : Moves m (m.list m.identifier) nameList nameList :=
  commaList_moves identifier_moves

/-! ### Expressions -/

section Expressions

variable (h : inner.Moved m)
include h

lemma blockHere_moves : Moves m m.block inner.blockHere inner.blockHere :=
  lastStop_moves.bind fun anchor => h.block anchor

lemma expression_moves : Moves m m.expr inner.expression inner.expression := h.expr 0

lemma exprList_moves : Moves m (m.list m.expr) inner.exprList inner.exprList :=
  commaList_moves (expression_moves h)

omit h in
lemma missingExpr_moves : Moves m m.expr missingExpr missingExpr :=
  (errorExpected_moves (List.forall_mem_nil _)).bind fun _ => lastStop_moves.bind fun _ =>
    currentKind_moves fun _ => .ite (.ret rfl) (advance_moves.bind fun _ => .ret rfl)

lemma tableField_moves : Moves m m.field (tableField inner) (tableField inner) := by
  have hpositional : Moves m m.field (do return .positional (← inner.expression))
      (do return .positional (← inner.expression)) :=
    (expression_moves h).bind fun _ => .ret rfl
  refine currentKind_moves fun kind => ?_
  split
  · exact Moves.token fun opening hopening => (expression_moves h).bind fun key =>
      (expectClosing_moves hopening).bind fun closing => expect_moves.bind fun eq =>
        (expression_moves h).bind fun value => .ret rfl
  · refine nextKind_moves fun next => .ite ?_ hpositional
    exact advance_moves.bind fun name => advance_moves.bind fun eq =>
      (expression_moves h).bind fun value => .ret rfl
  · exact hpositional

lemma tableFields_moves {bound : Nat} {fields : Separated TableField} :
    Moves m (m.list m.field) (tableFields inner bound fields)
      (tableFields inner bound (m.list m.field fields)) := by
  induction bound generalizing fields with
  | zero => exact .ret rfl
  | succ bound ih =>
    refine currentKind_moves fun kind => .ite ?_ (.ret rfl)
    refine (tableField_moves h).bind fun f => currentKind_moves fun next => ?_
    rw [← Displacement.list_push]
    split
    · refine advance_moves.bind fun delimiter => ?_
      rw [← Displacement.list_delimit]
      exact ih
    · refine advance_moves.bind fun delimiter => ?_
      rw [← Displacement.list_delimit]
      exact ih
    · exact .ret rfl

lemma table_moves : Moves m m.table (table inner) (table inner) :=
  Moves.token fun opening hopening => remaining_moves fun count =>
    (tableFields_moves h).bind fun fields => (expectClosing_moves hopening).bind fun closing =>
      .ret (by simp [Displacement.table])

omit h in
lemma parameters_moves {bound : Nat} {params : Separated Param} :
    Moves m (m.list m.param) (parameters bound params)
      (parameters bound (m.list m.param params)) := by
  induction bound generalizing params with
  | zero => exact .ret rfl
  | succ bound ih =>
    refine currentKind_moves fun kind => ?_
    split
    · refine advance_moves.bind fun name => take?_moves.bind fun found => ?_
      have hpush : (m.list m.param params).push (.name ⟨m.token name⟩)
          = m.list m.param (params.push (.name ⟨name⟩)) :=
        (Displacement.list_push m.param params (.name ⟨name⟩)).symm
      simp only [hpush]
      cases found with
      | none => exact .ret rfl
      | some comma =>
        simp only [Option.map_some, ← Displacement.list_delimit]
        exact ih
    · exact advance_moves.bind fun dots =>
        .ret (Displacement.list_push m.param params (.vararg ⟨dots⟩)).symm
    · exact (errorExpected_moves (List.forall_mem_nil _)).bind fun _ => .ret rfl

omit h in
lemma parameterList_moves : Moves m (m.list m.param) parameterList parameterList :=
  lastStop_moves.bind fun _ => atKind_moves fun _ =>
    .ite (.ret rfl) (remaining_moves fun _ => parameters_moves)

lemma funcBody_moves (hkeyword : keyword.span.start ≤ keyword.span.stop) :
    Moves m m.funcBody (funcBody inner keyword) (funcBody inner (m.token keyword)) :=
  expect_moves.bind fun _ => parameterList_moves.bind fun _ =>
    expect_moves.bind fun _ => (blockHere_moves h).bind fun _ =>
      (expectClosing_moves hkeyword).bind fun _ => .ret rfl

lemma argList_moves : Moves m (m.list m.expr) (argList inner) (argList inner) :=
  atKind_moves fun _ => .ite (lastStop_moves.bind fun _ => .ret rfl) (exprList_moves h)

lemma callArgs_moves : Moves m m.callArgs (callArgs inner) (callArgs inner) := by
  refine currentKind_moves fun kind => ?_
  split
  · exact advance_moves.bind fun t => .ret rfl
  · exact (table_moves h).bind fun t => .ret rfl
  · exact Moves.token fun opening hopening => (argList_moves h).bind fun args =>
      (expectClosing_moves hopening).bind fun closing => .ret (by simp [Displacement.callArgs])
  · exact (errorExpected_moves (List.forall_mem_nil _)).bind fun _ =>
      lastStop_moves.bind fun anchor => .ret (by simp [Displacement.callArgs]; rfl)

lemma suffix_moves {base : Expr} :
    Moves m m.expr (suffix inner base) (suffix inner (m.expr base)) := by
  refine currentKind_moves fun kind => ?_
  split
  · exact advance_moves.bind fun dot => identifier_moves.bind fun name => .ret rfl
  · exact Moves.token fun opening hopening => (expression_moves h).bind fun key =>
      (expectClosing_moves hopening).bind fun closing => .ret rfl
  · exact advance_moves.bind fun colon => identifier_moves.bind fun name =>
      (callArgs_moves h).bind fun args => .ret rfl
  · exact (callArgs_moves h).bind fun args => .ret rfl

lemma primary_moves : Moves m m.expr (primary inner) (primary inner) := by
  refine currentKind_moves fun kind => ?_
  split
  · exact advance_moves.bind fun name => .ret rfl
  · exact Moves.token fun opening hopening => (expression_moves h).bind fun e =>
      (expectClosing_moves hopening).bind fun closing => .ret rfl
  · exact advance_moves.bind fun t => .ret rfl
  · exact missingExpr_moves

lemma suffixed_moves {calls : Bool} :
    Moves m m.expr (suffixed inner calls) (suffixed inner calls) :=
  (primary_moves h).bind fun base => h.suffixes calls base

omit h in
lemma literal_moves {kind : LiteralKind} : Moves m m.expr (literal kind) (literal kind) :=
  advance_moves.bind fun _ => .ret rfl

lemma simpleExpr_moves : Moves m m.expr (simpleExpr inner) (simpleExpr inner) := by
  refine currentKind_moves fun kind => ?_
  split
  · exact literal_moves
  · exact literal_moves
  · exact literal_moves
  · exact literal_moves
  · exact literal_moves
  · exact advance_moves.bind fun dots => .ret rfl
  · exact (table_moves h).bind fun t => .ret rfl
  · exact Moves.token fun keyword hkeyword => (funcBody_moves h hkeyword).bind fun f => .ret rfl
  · exact suffixed_moves h

lemma operand_moves : Moves m m.expr (operand inner) (operand inner) := by
  refine currentKind_moves fun kind => ?_
  split
  · exact simpleExpr_moves h
  · exact advance_moves.bind fun sign => (h.expr _).bind fun e => .ret rfl

omit h in
lemma cutOff_moves {kept : Option Expr} {tokens : List Token} :
    Moves m m.expr (cutOff kept tokens) (cutOff (kept.map m.expr) (tokens.map m.token)) :=
  lastStop_moves.bind fun anchor => .ret (by simp [Displacement.expr])

lemma exprAround_moves {power : Nat} :
    Moves m m.expr (exprAround inner power) (exprAround inner power) :=
  nested_moves (fun _ => cutOff_moves) ((operand_moves h).bind fun first => h.operators power first)

lemma operatorsAround_moves {power : Nat} {first : Expr} :
    Moves m m.expr (operatorsAround inner power first)
      (operatorsAround inner power (m.expr first)) := by
  refine currentKind_moves fun kind => ?_
  split
  · exact .ret rfl
  · refine .ite (.ret rfl) (nested_moves (fun _ => cutOff_moves) ?_)
    exact advance_moves.bind fun sign => (h.expr _).bind fun second => h.operators power _

lemma suffixesAround_moves {calls : Bool} {base : Expr} :
    Moves m m.expr (suffixesAround inner calls base) (suffixesAround inner calls (m.expr base)) :=
  currentKind_moves fun _ => .ite
    (nested_moves (fun _ => cutOff_moves) ((suffix_moves h).bind fun e => h.suffixes calls e))
    (.ret rfl)

end Expressions

/-! ### Statements -/

section Statements

variable (h : inner.Moved m)
include h

lemma elseIfs_moves {bound : Nat} :
    Moves m (List.map m.elseIf) (elseIfs inner bound) (elseIfs inner bound) := by
  induction bound with
  | zero => exact .ret rfl
  | succ bound ih =>
    refine take?_moves.bind fun found => ?_
    cases found with
    | none => exact .ret rfl
    | some keyword =>
      exact (expression_moves h).bind fun cond => expect_moves.bind fun opener =>
        (blockHere_moves h).bind fun block => ih.bind fun more => .ret rfl

lemma else_moves : Moves m (Option.map m.else_) (else_ inner) (else_ inner) := by
  refine take?_moves.bind fun found => ?_
  cases found with
  | none => exact .ret rfl
  | some keyword => exact (blockHere_moves h).bind fun block => .ret rfl

lemma ifStat_moves : Moves m m.stat (ifStat inner) (ifStat inner) :=
  Moves.token fun keyword hkeyword => (expression_moves h).bind fun cond =>
    expect_moves.bind fun opener => (blockHere_moves h).bind fun block =>
      remaining_moves fun count => (elseIfs_moves h).bind fun clauses =>
        (else_moves h).bind fun last => (expectClosing_moves hkeyword).bind fun close =>
          .ret (by simp [Displacement.stat, Displacement.ifStat])

lemma whileStat_moves : Moves m m.stat (whileStat inner) (whileStat inner) :=
  Moves.token fun _ hkeyword => (expression_moves h).bind fun _ =>
    expect_moves.bind fun _ => (blockHere_moves h).bind fun _ =>
      (expectClosing_moves hkeyword).bind fun _ => .ret rfl

lemma doStat_moves : Moves m m.stat (doStat inner) (doStat inner) :=
  Moves.token fun _ hkeyword => (blockHere_moves h).bind fun _ =>
    (expectClosing_moves hkeyword).bind fun _ => .ret rfl

lemma repeatStat_moves : Moves m m.stat (repeatStat inner) (repeatStat inner) :=
  Moves.token fun _ hkeyword => (blockHere_moves h).bind fun _ =>
    (expectClosing_moves hkeyword).bind fun _ => (expression_moves h).bind fun _ => .ret rfl

lemma step_moves : Moves m (Option.map m.step) (step inner) (step inner) := by
  refine take?_moves.bind fun found => ?_
  cases found with
  | none => exact .ret rfl
  | some comma => exact (expression_moves h).bind fun value => .ret rfl

lemma numericFor_moves (hkeyword : keyword.span.start ≤ keyword.span.stop) :
    Moves m m.stat (numericFor inner keyword) (numericFor inner (m.token keyword)) :=
  identifier_moves.bind fun var => advance_moves.bind fun eq =>
    (expression_moves h).bind fun start => expect_moves.bind fun comma =>
      (expression_moves h).bind fun limit => (step_moves h).bind fun last =>
        expect_moves.bind fun opener => (blockHere_moves h).bind fun block =>
          (expectClosing_moves hkeyword).bind fun close =>
            .ret (by simp [Displacement.stat, Displacement.numericFor])

lemma genericFor_moves (hkeyword : keyword.span.start ≤ keyword.span.stop) :
    Moves m m.stat (genericFor inner keyword) (genericFor inner (m.token keyword)) :=
  nameList_moves.bind fun names => expect_moves.bind fun in_ =>
    (exprList_moves h).bind fun values => expect_moves.bind fun opener =>
      (blockHere_moves h).bind fun block => (expectClosing_moves hkeyword).bind fun close =>
        .ret (by simp [Displacement.stat, Displacement.genericFor])

lemma forStat_moves : Moves m m.stat (forStat inner) (forStat inner) :=
  Moves.token fun _ hkeyword => currentKind_moves fun _ => nextKind_moves fun _ =>
    .ite (numericFor_moves h hkeyword) (genericFor_moves h hkeyword)

omit h in
lemma methodName_moves : Moves m (Option.map m.method) methodName methodName := by
  refine take?_moves.bind fun found => ?_
  cases found with
  | none => exact .ret rfl
  | some colon => exact identifier_moves.bind fun name => .ret rfl

lemma functionName_moves : Moves m m.expr (functionName inner) (functionName inner) :=
  atKind_moves fun _ => .ite (suffixed_moves h) (identifier_moves.bind fun _ => .ret rfl)

omit h in
lemma checkName_moves {name : Expr} : Moves m id (checkName name) (checkName (m.expr name)) := by
  rw [checkName, checkName, Displacement.firstNonName?_expr]
  cases firstNonName? name with
  | none => exact .ret rfl
  | some bad =>
    simp only [Option.map_some, Displacement.span_expr]
    exact error_moves (Node.upright_span _) (List.forall_mem_nil _)

lemma functionStat_moves : Moves m m.stat (functionStat inner) (functionStat inner) :=
  Moves.token fun _ hkeyword => (functionName_moves h).bind fun _ =>
    checkName_moves.bind fun _ => methodName_moves.bind fun _ =>
      (funcBody_moves h hkeyword).bind fun _ => .ret rfl

lemma localFunction_moves : Moves m m.stat (localFunction inner) (localFunction inner) :=
  advance_moves.bind fun _ => Moves.token fun _ hsecond =>
    identifier_moves.bind fun _ => (funcBody_moves h hsecond).bind fun _ => .ret rfl

/-- Going back leads to the same token, although other errors may be taken back. -/
lemma assignedValues_moves {eq : Token} :
    Moves m (m.list m.expr) (assignedValues inner eq) (assignedValues inner (m.token eq)) := by
  refine checkpoint_moves fun start start' hpos herrors => (exprList_moves h).bind fun values =>
    atKind_moves fun found => .ite (.ret rfl) ?_
  refine (restore_moves hpos herrors).bind fun _ => ?_
  have herror : Moves m id (error (.empty eq.span.stop) "expected expression after '='" [])
      (error (.empty (m.offset eq.span.stop)) "expected expression after '='" []) := by
    have hspan : (Span.empty eq.span.stop).start ≤ (Span.empty eq.span.stop).stop := Nat.le_refl _
    exact error_moves hspan (List.forall_mem_nil _)
  exact herror.bind fun _ => .ret (by simp [Displacement.expr]; rfl)

lemma localStat_moves : Moves m m.stat (localStat inner) (localStat inner) := by
  refine advance_moves.bind fun keyword => nameList_moves.bind fun names =>
    take?_moves.bind fun found => ?_
  cases found with
  | none => exact lastStop_moves.bind fun anchor => .ret (by simp [Displacement.stat]; rfl)
  | some eq => exact (assignedValues_moves h).bind fun values => .ret (by simp [Displacement.stat])

omit h in
lemma checkTargets_moves {targets : List Expr} :
    Moves m id (checkTargets targets) (checkTargets (targets.map m.expr)) := by
  induction targets with
  | nil => exact .ret rfl
  | cons e targets ih =>
    rw [List.map_cons, checkTargets, checkTargets, Displacement.isAssignable_expr,
      Displacement.isInvalid_expr, Displacement.span_expr]
    exact (errorIf_moves (Node.upright_span _)).bind fun _ => ih

lemma assignment_moves {first : Expr} :
    Moves m m.stat (assignment inner first) (assignment inner (m.expr first)) := by
  rw [assignment, assignment, Displacement.span_expr]
  refine (itemsAfter_moves (suffixed_moves h)).bind fun targets => ?_
  rw [Displacement.items_list]
  exact checkTargets_moves.bind fun _ => expect_moves.bind fun eq =>
    (assignedValues_moves h).bind fun values => .ret (by simp [Displacement.stat])

omit h in
lemma notAStatement_moves {e : Expr} :
    Moves m m.stat (notAStatement e) (notAStatement (m.expr e)) := by
  rw [notAStatement, notAStatement, Displacement.span_expr]
  exact (error_moves (Node.upright_span _) (List.forall_mem_nil _)).bind fun _ => .ret rfl

lemma exprStat_moves : Moves m m.stat (exprStat inner) (exprStat inner) := by
  refine (suffixed_moves h).bind fun e => currentKind_moves fun kind => ?_
  split
  · exact assignment_moves h
  · exact assignment_moves h
  · rw [Displacement.isCall_expr]
    exact .ite (.ret rfl) notAStatement_moves

lemma returnValues_moves :
    Moves m (m.list m.expr) (returnValues inner) (returnValues inner) :=
  currentKind_moves fun _ => .ite (lastStop_moves.bind fun _ => .ret rfl) (exprList_moves h)

lemma returnStat_moves : Moves m m.stat (returnStat inner) (returnStat inner) :=
  advance_moves.bind fun keyword => (returnValues_moves h).bind fun values =>
    take?_moves.bind fun semi => .ret (by simp [Displacement.stat])

omit h in
lemma labelStat_moves : Moves m m.stat labelStat labelStat :=
  advance_moves.bind fun _ => identifier_moves.bind fun _ =>
    expect_moves.bind fun _ => .ret rfl

omit h in
lemma skipToken_moves : Moves m m.stat skipToken skipToken := advance_moves.bind fun _ => .ret rfl

lemma statement_moves : Moves m m.stat (statement inner) (statement inner) := by
  refine currentKind_moves fun kind => ?_
  split
  · exact advance_moves.bind fun semi => .ret rfl
  · exact ifStat_moves h
  · exact whileStat_moves h
  · exact doStat_moves h
  · exact forStat_moves h
  · exact repeatStat_moves h
  · exact functionStat_moves h
  · exact nextKind_moves fun next => .ite (localFunction_moves h) (localStat_moves h)
  · exact labelStat_moves
  · exact returnStat_moves h
  · exact advance_moves.bind fun keyword => .ret rfl
  · exact advance_moves.bind fun keyword => identifier_moves.bind fun name => .ret rfl
  · exact exprStat_moves h
  · exact exprStat_moves h
  · exact skipToken_moves
  · refine .ite ?_ ?_
    · exact (expression_moves h).bind fun e => notAStatement_moves
    · exact (errorExpected_moves (List.forall_mem_nil _)).bind fun _ => skipToken_moves

lemma statements_moves {bound : Nat} {afterReturn : Bool} :
    Moves m (List.map m.stat) (statements inner bound afterReturn)
      (statements inner bound afterReturn) := by
  induction bound generalizing afterReturn with
  | zero => exact .ret rfl
  | succ bound ih =>
    refine currentKind_moves fun kind => .ite (.ret rfl) ((statement_moves h).bind fun s => ?_)
    rw [Displacement.span_stat, Displacement.isReturn_stat]
    exact (errorIf_moves (Node.upright_span _)).bind fun _ => ih.bind fun more => .ret rfl

omit h in
lemma cutOffBlock_moves {anchor : Offset} {tokens : List Token} :
    Moves m m.block (cutOffBlock anchor tokens)
      (cutOffBlock (m.offset anchor) (tokens.map m.token)) := by
  cases tokens <;> exact .ret rfl

lemma blockAround_moves {anchor : Offset} :
    Moves m m.block (blockAround inner anchor) (blockAround inner (m.offset anchor)) :=
  nested_moves (fun _ => cutOffBlock_moves) <| remaining_moves fun count =>
    (statements_moves h).bind fun ss => .ret (by simp [Displacement.block])

end Statements

/-! ### Levels -/

lemma Level.bottom_moved : Level.bottom.Moved m where
  expr _ := .ret (by simp [Displacement.expr, m.zero])
  operators _ _ := .ret rfl
  suffixes _ _ := .ret rfl
  block _ := .ret rfl

lemma level_moved : ∀ depth, (level depth).Moved m
  | 0 => Level.bottom_moved
  | depth + 1 =>
    have h := level_moved depth
    { expr := fun _ => exprAround_moves h
      operators := fun _ _ => operatorsAround_moves h
      suffixes := fun _ _ => suffixesAround_moves h
      block := fun _ => blockAround_moves h }

/-! ### Chunks -/

lemma strays_moves {bound : Nat} : Moves m (List.map m.stat) (strays bound) (strays bound) := by
  induction bound with
  | zero => exact .ret rfl
  | succ bound ih =>
    refine atKind_moves fun found => .ite (.ret rfl) (Moves.token fun stray hstray => ?_)
    refine (error_moves hstray (List.forall_mem_nil _)).bind fun _ => ?_
    refine (blockHere_moves (level_moved _)).bind fun rest => ih.bind fun more => .ret ?_
    obtain ⟨ss, anchor⟩ := rest
    simp [Displacement.block, Displacement.stat]
    rfl

lemma chunk_moves : Moves m m.block chunk chunk := by
  refine current_moves.bind fun t => ((level_moved _).block _).bind fun first =>
    remaining_moves fun count => strays_moves.bind fun more => .ret ?_
  obtain ⟨ss, anchor⟩ := first
  simp [Displacement.block]

end Grammar

end LuaFront
