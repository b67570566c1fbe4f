import LuaFront.Proofs.Parser.Chunks
import LuaFront.Proofs.Parser.Followed

/-!
Every parser reads of a part within a whole what it reads of the part by itself, on every level. A
block that ends with the part may go on in the whole; what encloses it lacks its end then.
-/

namespace LuaFront

namespace Grammar

open Parse TokenKind

variable {α : Type} {x : Excerpt} {depth : Nat} {pre : Cursor → Prop} {outer inner : Level}
  {keyword keyword' : Token}

/-- Run in the whole and in the part, the parsers of two levels read the same. -/
structure Level.Echoes (x : Excerpt) (depth : Nat) (outer inner : Level) : Prop where
  good_whole : outer.Good (depth + x.gap)
  good : inner.Good depth
  expr : ∀ power, Parse.Echoes x depth Anywhere x.move.expr (outer.expr power) (inner.expr power)
  operators : ∀ power first, Parse.Echoes x depth Anywhere x.move.expr
    (outer.operators power first) (inner.operators power (x.move.expr first))
  suffixes : ∀ calls base, Parse.Echoes x depth Anywhere x.move.expr
    (outer.suffixes calls base) (inner.suffixes calls (x.move.expr base))
  block : ∀ anchor, Parse.Trails x depth Anywhere x.move.block (outer.block anchor)
    (inner.block (x.move.offset anchor))

/-! ### Names and lists -/

lemma identifier_echoes :
    Parse.Echoes x depth Anywhere x.move.identifier identifier identifier :=
  (Echoes.expect (by decide)).bind fun _ => .ret rfl

section Lists

variable {act : α → α} {item item' : Parse α} [Steady item] [Steady item']

lemma moreItems_echoes (hitem : Parse.Echoes x depth Anywhere act item item') {bound : Nat}
    {list : Separated α} :
    Parse.Echoes x depth Anywhere (x.move.list act) (moreItems item bound list)
      (moreItems item' bound (x.move.list act list)) := by
  induction bound generalizing list with
  | zero => exact .ret rfl
  | succ bound ih =>
    refine .take? (by decide) (fun comma => hitem.bind fun next => ?_) (.ret rfl)
    rw [← Displacement.list_delimit, ← Displacement.list_push]
    exact ih

lemma itemsAfter_echoes (hitem : Parse.Echoes x depth Anywhere act item item') {anchor : Offset}
    {first : α} :
    Parse.Echoes x depth Anywhere (x.move.list act) (itemsAfter item anchor first)
      (itemsAfter item' (x.move.offset anchor) (act first)) := by
  refine .remaining moreItems_ample moreItems_ample fun count => ?_
  rw [← Displacement.list_empty act, ← Displacement.list_push]
  exact moreItems_echoes hitem

lemma commaList_echoes (hitem : Parse.Echoes x depth Anywhere act item item') :
    Parse.Echoes x depth Anywhere (x.move.list act) (commaList item) (commaList item') :=
  .lastStop fun _ => hitem.bind fun _ => itemsAfter_echoes hitem

end Lists

lemma nameList_echoes :
    Parse.Echoes x depth Anywhere (x.move.list x.move.identifier) nameList nameList :=
  commaList_echoes identifier_echoes

/-! ### What is missing at the end -/

lemma identifier_wanting : Wanting identifier := expect_wanting (by decide)

lemma nameList_wanting : Wanting nameList := fun t ht hdeep =>
  identifier_wanting.bind (f := itemsAfter identifier t.cursor.lastStop) t ht hdeep

lemma missingExpr_wanting : Wanting missingExpr := errorExpected_wanting

lemma primary_wanting : Wanting (primary inner) := by
  intro t ht hdeep
  rw [primary, run_currentKind, ht]
  exact missingExpr_wanting t ht hdeep

lemma suffixed_wanting [inner.Steady] {calls : Bool} : Wanting (suffixed inner calls) :=
  primary_wanting.bind

lemma genericFor_wanting [inner.Steady] : Wanting (genericFor inner keyword) :=
  nameList_wanting.bind

/-! ### Expressions -/

section Expressions

variable [outer.Steady] [inner.Steady] (h : outer.Echoes x depth inner)
include h

omit [outer.Steady] [inner.Steady] in
lemma blockHere_trails :
    Parse.Trails x depth Anywhere x.move.block outer.blockHere inner.blockHere :=
  .lastStop fun anchor => h.block anchor

omit [outer.Steady] [inner.Steady] in
lemma expression_echoes :
    Parse.Echoes x depth Anywhere x.move.expr outer.expression inner.expression := h.expr 0

lemma exprList_echoes :
    Parse.Echoes x depth Anywhere (x.move.list x.move.expr) outer.exprList inner.exprList :=
  commaList_echoes (expression_echoes h)

lemma tableField_echoes :
    Parse.Echoes x depth (fun c => c.current.kind ≠ .eof) x.move.field (tableField outer)
      (tableField inner) := by
  have hpositional : Parse.Echoes x depth Anywhere x.move.field
      (do return .positional (← outer.expression)) (do return .positional (← inner.expression)) :=
    (expression_echoes h).bind fun _ => .ret rfl
  refine .currentKind_inside (fun _ => id) fun kind => ?_
  split
  · exact .advance (by decide) fun opening => (expression_echoes h).bind fun key =>
      (Echoes.expectClosing (by decide)).bind fun closing =>
        (Echoes.expect (by decide)).bind fun eq => (expression_echoes h).bind fun value => .ret rfl
  · refine .nextKind rfl (by constructor <;> rfl) fun next => ?_
    split
    · next hnext =>
      subst hnext
      exact .advance_next (by decide) fun name => .advance (by decide) fun eq =>
        (expression_echoes h).bind fun value => .ret rfl
    · exact hpositional.anywhere
  · exact hpositional.anywhere

lemma tableFields_trails {bound : Nat} {fields : Separated TableField} :
    Parse.Trails x depth Anywhere (x.move.list x.move.field) (tableFields outer bound fields)
      (tableFields inner bound (x.move.list x.move.field fields)) := by
  induction bound generalizing fields with
  | zero => exact .of_echoes (.ret rfl)
  | succ bound ih =>
    refine .currentKind ⟨rfl, rfl, rfl, rfl⟩ .ret fun kind => ?_
    split
    · next hkind =>
      have hinside : ∀ c, At kind c ∧ Anywhere c → c.current.kind ≠ .eof := by
        rintro c ⟨rfl, -⟩ heof
        simp [heof, canBeginExpr] at hkind
      have hfield : Parse.Trails x depth (fun c => At kind c ∧ Anywhere c) x.move.field
          (tableField outer) (tableField inner) := fun s t hecho ht =>
        Trails.of_echoes (tableField_echoes h) s t hecho (hinside _ ht)
      refine hfield.cases ?_ ?_ fun f => ?_
      · exact fun f => Steady.cases fun next => by split <;> infer_instance
      · exact fun f => Steady.cases fun next => by split <;> infer_instance
      · refine .currentKind ⟨rfl, rfl, rfl, rfl⟩ .ret fun next => ?_
        rw [← Displacement.list_push]
        split
        · refine .advance (by decide) fun delimiter => ?_
          rw [← Displacement.list_delimit]
          exact ih
        · refine .advance (by decide) fun delimiter => ?_
          rw [← Displacement.list_delimit]
          exact ih
        · exact .of_echoes (.ret rfl)
    · exact .of_echoes (.ret rfl)

lemma table_echoes :
    Parse.Echoes x depth (fun c => At (.symbol .openBrace) c ∧ pre c) x.move.table (table outer)
      (table inner) :=
  .advance (by decide) fun opening => .remaining
    ((tableFields_ample h.good_whole).bind _) ((tableFields_ample h.good).bind _) fun count =>
    (tableFields_trails h).bind_closing (by decide) fun fields closing =>
      .ret (by simp [Displacement.table])

omit h in
omit [outer.Steady] [inner.Steady] in
lemma parameters_echoes {bound : Nat} {params : Separated Param} :
    Parse.Echoes x depth Anywhere (x.move.list x.move.param) (parameters bound params)
      (parameters bound (x.move.list x.move.param params)) := by
  induction bound generalizing params with
  | zero => exact .ret rfl
  | succ bound ih =>
    refine .currentKind_wanting ⟨rfl, rfl, rfl, rfl⟩ errorExpected_wanting fun kind => ?_
    split
    · refine Echoes.advance_cases (by decide) (fun name => ?_) fun name => ?_
      · exact Steady.cases fun found => by cases found <;> infer_instance
      have hpush : (x.move.list x.move.param params).push (.name ⟨x.move.token name⟩)
          = x.move.list x.move.param (params.push (.name ⟨name⟩)) :=
        (Displacement.list_push x.move.param params (.name ⟨name⟩)).symm
      simp only [hpush]
      refine .take? (by decide) (fun comma => ?_) (.ret rfl)
      simp only [← Displacement.list_delimit]
      exact ih
    · exact .advance (by decide) fun dots =>
        .ret (Displacement.list_push x.move.param params (.vararg ⟨dots⟩)).symm
    · exact .errorExpected

omit h in
omit [outer.Steady] [inner.Steady] in
lemma parameterList_echoes :
    Parse.Echoes x depth Anywhere (x.move.list x.move.param) parameterList parameterList :=
  .lastStop fun _ => .atKind rfl (.ret rfl)
    (.remaining parameters_ample parameters_ample fun _ => parameters_echoes)

lemma funcBody_echoes :
    Parse.Echoes x depth Anywhere x.move.funcBody (funcBody outer keyword)
      (funcBody inner keyword') :=
  (Echoes.expect (by decide)).bind fun _ => parameterList_echoes.bind fun _ =>
    (Echoes.expect (by decide)).bind fun _ =>
      (blockHere_trails h).bind_closing (by decide) fun _ _ => .ret rfl

lemma argList_echoes :
    Parse.Echoes x depth Anywhere (x.move.list x.move.expr) (argList outer) (argList inner) :=
  .atKind rfl (.lastStop fun _ => .ret rfl) (exprList_echoes h)

lemma callArgs_echoes :
    Parse.Echoes x depth Anywhere x.move.callArgs (callArgs outer) (callArgs inner) := by
  refine .currentKind (by constructor <;> rfl) fun kind => ?_
  split
  · exact .advance (by decide) fun t => .ret rfl
  · exact (table_echoes h).bind fun t => .ret rfl
  · exact .advance (by decide) fun opening => (argList_echoes h).bind fun args =>
      (Echoes.expectClosing (by decide)).bind fun closing =>
        .ret (by simp [Displacement.callArgs])
  · exact .errorExpected

lemma suffix_echoes {base : Expr} :
    Parse.Echoes x depth Anywhere x.move.expr (suffix outer base)
      (suffix inner (x.move.expr base)) := by
  refine .currentKind (by constructor <;> rfl) fun kind => ?_
  split
  · exact .advance (by decide) fun dot => identifier_echoes.bind fun name => .ret rfl
  · exact .advance (by decide) fun opening => (expression_echoes h).bind fun key =>
      (Echoes.expectClosing (by decide)).bind fun closing => .ret rfl
  · exact .advance (by decide) fun colon => identifier_echoes.bind fun name =>
      (callArgs_echoes h).bind fun args => .ret rfl
  · exact Echoes.anywhere ((callArgs_echoes h).bind fun args => .ret rfl)

omit [outer.Steady] in
lemma primary_echoes :
    Parse.Echoes x depth Anywhere x.move.expr (primary outer) (primary inner) := by
  refine .currentKind_wanting ⟨rfl, rfl, rfl, rfl⟩ missingExpr_wanting fun kind => ?_
  split
  · exact .advance (by decide) fun name => .ret rfl
  · exact .advance (by decide) fun opening => (expression_echoes h).bind fun e =>
      (Echoes.expectClosing (by decide)).bind fun closing => .ret rfl
  · exact .advance (by decide) fun t => .ret rfl
  · exact .errorExpected

lemma suffixed_echoes {calls : Bool} :
    Parse.Echoes x depth Anywhere x.move.expr (suffixed outer calls) (suffixed inner calls) :=
  (primary_echoes h).bind fun base => h.suffixes calls base

lemma simpleExpr_echoes :
    Parse.Echoes x depth Anywhere x.move.expr (simpleExpr outer) (simpleExpr inner) := by
  refine .currentKind_wanting ⟨rfl, rfl, rfl, rfl⟩ suffixed_wanting fun kind => ?_
  split
  iterate 5 exact .advance (by decide) fun t => .ret rfl
  · exact .advance (by decide) fun dots => .ret rfl
  · exact (table_echoes h).bind fun t => .ret rfl
  · exact .advance (by decide) fun keyword => (funcBody_echoes h).bind fun f => .ret rfl
  · exact (suffixed_echoes h).anywhere

lemma operand_echoes :
    Parse.Echoes x depth Anywhere x.move.expr (operand outer) (operand inner) := by
  refine .currentKind (by constructor <;> rfl) fun kind => ?_
  split
  · exact (simpleExpr_echoes h).anywhere
  · next op hop =>
    have hkind : kind ≠ .eof := by rintro rfl; cases hop
    exact .advance hkind fun sign => (h.expr _).bind fun e => .ret rfl

end Expressions

/-! ### Clauses -/

/-- At the end of the part no clause follows, while the whole may go on with one. Then what comes
after the clauses is missing in the part. -/
lemma clause_echoes {kind : TokenKind} (hkind : kind ≠ .eof) {act : α → α}
    {f g : Option Token → Parse α} [∀ t, Steady (g (some t))]
    (hsome : ∀ t, Parse.Echoes x depth Anywhere act (f (some t)) (g (some (x.move.token t))))
    (hnone : Parse.Echoes x depth Anywhere act (f none) (g none)) (hend : Wanting (g none)) :
    Parse.Echoes x depth Anywhere act (take? kind >>= f) (take? kind >>= g) := by
  refine .takeOr hkind hsome fun s t hecho hother => ?_
  by_cases hwhole : s.cursor.current.kind = kind
  · have hends := hecho.alike.resolve_left fun halike => hother (halike.trans hwhole)
    exact .inr (.inl (.reported (hend t hends.1 hecho.going)))
  · rw [run_bind (run_take?_of_not_facing hwhole)]
    exact hnone s t hecho trivial

/-! ### Statements -/

section Statements

variable [outer.Steady] [inner.Steady] (h : outer.Echoes x depth inner)
include h

omit h in
omit [outer.Steady] [inner.Steady] in
lemma elseIfs_wanting {bound : Nat} {f : List ElseIf → Parse α} (hend : ∀ l, Wanting (f l)) :
    Wanting (elseIfs inner bound >>= f) := by
  cases bound with
  | zero => exact hend []
  | succ bound =>
    rw [elseIfs, bind_assoc]
    exact take?_wanting (by decide) (hend [])

lemma elseIfs_echoes {bound : Nat} {act : α → α} {f g : List ElseIf → Parse α}
    [hf : ∀ l, Steady (f l)] [hg : ∀ l, Steady (g l)]
    (hrest : ∀ l, Parse.Echoes x depth Anywhere act (f l) (g (l.map x.move.elseIf)))
    (hend : ∀ l, Wanting (g l)) :
    Parse.Echoes x depth Anywhere act (elseIfs outer bound >>= f) (elseIfs inner bound >>= g) := by
  induction bound generalizing f g with
  | zero => exact hrest []
  | succ bound ih =>
    rw [elseIfs, elseIfs, bind_assoc, bind_assoc]
    refine clause_echoes (by decide) (fun keyword => ?_) (hrest []) (hend [])
    simp only [bind_assoc, pure_bind]
    refine (expression_echoes h).bind fun cond => (Echoes.expect (by decide)).bind fun opener => ?_
    refine (blockHere_trails h).bind_wanting (fun _ => elseIfs_wanting fun l => hend _)
      fun block => ih (fun l => ?_) fun l => hend _
    exact hrest (⟨keyword, cond, opener, block⟩ :: l)

omit [outer.Steady] in
lemma else_echoes {act : α → α} {f g : Option Else → Parse α} [hf : ∀ l, Steady (f l)]
    [hg : ∀ l, Steady (g l)]
    (hrest : ∀ c, Parse.Echoes x depth Anywhere act (f c) (g (c.map x.move.else_)))
    (hend : ∀ c, Wanting (g c)) :
    Parse.Echoes x depth Anywhere act (else_ outer >>= f) (else_ inner >>= g) := by
  rw [else_, else_, bind_assoc, bind_assoc]
  refine clause_echoes (by decide) (fun keyword => ?_) (hrest none) (hend none)
  simp only [bind_assoc, pure_bind]
  exact (blockHere_trails h).bind_wanting (fun _ => hend _) fun block =>
    hrest (some ⟨keyword, block⟩)

omit [outer.Steady] [inner.Steady] h in
lemma else_wanting {f : Option Else → Parse α} (hend : Wanting (f none)) :
    Wanting (else_ inner >>= f) := by
  rw [else_, bind_assoc]
  exact take?_wanting (by decide) hend

lemma ifStat_echoes {kind : TokenKind} (hkind : kind ≠ .eof) :
    Parse.Echoes x depth (fun c => At kind c ∧ pre c) x.move.stat (ifStat outer) (ifStat inner) :=
  .advance hkind fun keyword => (expression_echoes h).bind fun cond =>
    (Echoes.expect (by decide)).bind fun opener => (blockHere_trails h).bind_wanting
      (fun _ => remaining_wanting fun _ => elseIfs_wanting fun _ => else_wanting
        (expectClosing_wanting (by decide))) fun block =>
        .remaining (elseIfs_ample.bind _) (elseIfs_ample.bind _) fun count =>
          elseIfs_echoes h (fun clauses => else_echoes h
            (fun last => (Echoes.expectClosing (by decide)).bind fun close =>
              .ret (by simp [Displacement.stat, Displacement.ifStat]))
            fun _ => expectClosing_wanting (by decide)) fun clauses => else_wanting
              (expectClosing_wanting (by decide))

lemma whileStat_echoes {kind : TokenKind} (hkind : kind ≠ .eof) :
    Parse.Echoes x depth (fun c => At kind c ∧ pre c) x.move.stat (whileStat outer)
      (whileStat inner) :=
  .advance hkind fun _ => (expression_echoes h).bind fun _ =>
    (Echoes.expect (by decide)).bind fun _ =>
      (blockHere_trails h).bind_closing (by decide) fun _ _ => .ret rfl

omit [outer.Steady] in
lemma doStat_echoes {kind : TokenKind} (hkind : kind ≠ .eof) :
    Parse.Echoes x depth (fun c => At kind c ∧ pre c) x.move.stat (doStat outer) (doStat inner) :=
  .advance hkind fun _ => (blockHere_trails h).bind_closing (by decide) fun _ _ => .ret rfl

lemma repeatStat_echoes {kind : TokenKind} (hkind : kind ≠ .eof) :
    Parse.Echoes x depth (fun c => At kind c ∧ pre c) x.move.stat (repeatStat outer)
      (repeatStat inner) :=
  .advance hkind fun _ => (blockHere_trails h).bind_closing (by decide) fun _ _ =>
    (expression_echoes h).bind fun _ => .ret rfl

omit [outer.Steady] in
lemma step_echoes :
    Parse.Echoes x depth Anywhere (Option.map x.move.step) (step outer) (step inner) :=
  .take? (by decide) (fun _ => (expression_echoes h).bind fun _ => .ret rfl) (.ret rfl)

omit [outer.Steady] [inner.Steady] h in
lemma identifier_next {next : TokenKind} {act : α → α} {f g : Identifier → Parse α}
    [hg : ∀ id, Steady (g id)] (hrest : ∀ id, Parse.Echoes x depth
      (fun c => At next c ∧ Anywhere c) act (f id) (g (x.move.identifier id))) :
    Parse.Echoes x depth (fun c => At .ident c ∧ c.next.kind = next) act (identifier >>= f)
      (identifier >>= g) := by
  have hrun : ∀ {f : Identifier → Parse α} {s : ParseState}, s.cursor.current.kind = .ident →
      (identifier >>= f).run s = (advance >>= fun t => f ⟨t⟩).run s := by
    intro f s hs
    rw [identifier, expect]
    simp only [bind_assoc, pure_bind]
    exact run_bind (run_take?_of_facing hs)
  intro s t hecho ht
  have hat : t.cursor.current.kind = .ident := ht.1
  rw [hrun hat, hrun ((hecho.kind_eq (by simp [hat])).trans hat)]
  exact Echoes.advance_next (by decide) (fun t => hrest ⟨t⟩) s t hecho ht

lemma numericFor_echoes :
    Parse.Echoes x depth (fun c => At .ident c ∧ c.next.kind = .symbol .eq) x.move.stat
      (numericFor outer keyword) (numericFor inner (x.move.token keyword)) :=
  identifier_next fun var => .advance (by decide) fun eq =>
    (expression_echoes h).bind fun start => (Echoes.expect (by decide)).bind fun comma =>
      (expression_echoes h).bind fun limit => (step_echoes h).bind fun last =>
        (Echoes.expect (by decide)).bind fun opener => (blockHere_trails h).bind_closing (by decide)
          fun block close => .ret (by simp [Displacement.stat, Displacement.numericFor])

lemma genericFor_echoes :
    Parse.Echoes x depth Anywhere x.move.stat (genericFor outer keyword)
      (genericFor inner (x.move.token keyword)) :=
  nameList_echoes.bind fun names => (Echoes.expect (by decide)).bind fun in_ =>
    (exprList_echoes h).bind fun values => (Echoes.expect (by decide)).bind fun opener =>
      (blockHere_trails h).bind_closing (by decide) fun block close =>
        .ret (by simp [Displacement.stat, Displacement.genericFor])

lemma forStat_echoes {kind : TokenKind} (hkind : kind ≠ .eof) :
    Parse.Echoes x depth (fun c => At kind c ∧ pre c) x.move.stat (forStat outer)
      (forStat inner) := by
  refine .advance hkind fun keyword =>
    .currentKind_wanting ⟨rfl, rfl, rfl, rfl⟩ (fun t => genericFor_wanting t) fun kind => ?_
  by_cases hname : kind = .ident
  · subst hname
    refine .nextKind rfl (by constructor <;> rfl) fun next => ?_
    by_cases hnext : next = .symbol .eq
    · subst hnext
      exact numericFor_echoes h
    · simpa [hnext] using (genericFor_echoes h).anywhere
  · have hgeneric : Parse.Echoes x depth (fun c => At kind c ∧ Anywhere c) x.move.stat
        (nextKind >>= fun _ => genericFor outer keyword)
        (nextKind >>= fun _ => genericFor inner (x.move.token keyword)) :=
      (genericFor_echoes h).anywhere
    simpa [hname] using hgeneric

omit [outer.Steady] [inner.Steady] h in
lemma methodName_echoes :
    Parse.Echoes x depth Anywhere (Option.map x.move.method) methodName methodName :=
  .take? (by decide) (fun _ => identifier_echoes.bind fun _ => .ret rfl) (.ret rfl)

lemma functionName_echoes :
    Parse.Echoes x depth Anywhere x.move.expr (functionName outer) (functionName inner) :=
  .atKind_wanting rfl identifier_wanting.bind (suffixed_echoes h).anywhere
    (identifier_echoes.bind fun _ => .ret rfl)

omit [outer.Steady] [inner.Steady] h in
lemma checkName_echoes {name : Expr} :
    Parse.Echoes x depth Anywhere id (checkName name) (checkName (x.move.expr name)) := by
  rw [checkName, checkName, Displacement.firstNonName?_expr]
  cases firstNonName? name with
  | none => exact .ret rfl
  | some bad => exact .error (g := pure)

lemma functionStat_echoes {kind : TokenKind} (hkind : kind ≠ .eof) :
    Parse.Echoes x depth (fun c => At kind c ∧ pre c) x.move.stat (functionStat outer)
      (functionStat inner) :=
  .advance hkind fun _ => (functionName_echoes h).bind fun _ =>
    checkName_echoes.bind fun _ => methodName_echoes.bind fun _ =>
      (funcBody_echoes h).bind fun _ => .ret rfl

lemma localFunction_echoes :
    Parse.Echoes x depth
      (fun c => At (.keyword .local_) c ∧ c.next.kind = .keyword .function_) x.move.stat
      (localFunction outer) (localFunction inner) :=
  .advance_next (by decide) fun keyword => .advance (by decide) fun second =>
    identifier_echoes.bind fun name => (funcBody_echoes h).bind fun body => .ret rfl

/-- The parser does not go back in the part, since that is reported. -/
lemma assignedValues_echoes {eq : Token} :
    Parse.Echoes x depth Anywhere (x.move.list x.move.expr) (assignedValues outer eq)
      (assignedValues inner (x.move.token eq)) := by
  intro s t hecho _
  have hend : ∀ {l : Level} [l.Steady] {s : ParseState}, s.Valid →
      (l.exprList.run s).2.tooDeep = true →
      (l.exprList.run s).2.cursor.current.kind = .eof := fun hs hgave =>
    (((exprList_steady.onward _).valid hs).gaveUp hgave).1
  rw [run_assignedValues, run_assignedValues, Displacement.isMissing_token]
  by_cases hback : (inner.exprList.run t).2.cursor.current.kind = .symbol .eq
      ∧ eq.isMissing = false
  · refine .inr (.inl ?_)
    rw [if_pos hback, run_bind (run_error_eq ..)]
    refine .reported (told_ne_nil (fun hgave => ?_) _)
    rw [hend hecho.part hgave] at hback
    cases hback.1
  · rw [if_neg hback]
    rcases exprList_echoes h s t hecho trivial with hgave | hlost | ⟨hvalues, hecho'⟩
    · rw [if_neg (by simp [hend hecho.whole hgave.tooDeep])]
      exact .inl hgave
    · exact .inr (.inl hlost)
    · rw [if_neg fun hwhole => hback ⟨?_, hwhole.2⟩]
      · exact .inr (.inr ⟨hvalues, hecho'⟩)
      · refine (hecho'.alike.resolve_right fun hends => ?_).trans hwhole.1
        rw [hwhole.1] at hends
        cases hends.2

omit h in
omit [outer.Steady] in
lemma localStat_wanting :
    ∃ r, localStat inner = advance >>= r ∧ ∀ keyword, Wanting (r keyword) := by
  refine ⟨_, rfl, fun keyword t ht hdeep => ?_⟩
  refine @Wanting.bind _ _ nameList _ (fun names => ?_) nameList_wanting t ht hdeep
  exact Steady.cases fun found => by cases found <;> infer_instance

lemma localStat_echoes {kind : TokenKind} (hkind : kind ≠ .eof) :
    Parse.Echoes x depth (fun c => At kind c ∧ pre c) x.move.stat (localStat outer)
      (localStat inner) := by
  refine .advance_cases hkind (fun keyword => ?_) fun keyword =>
    nameList_echoes.cases ?_ ?_ fun names => ?_
  · exact Steady.cases fun names => Steady.cases fun found => by cases found <;> infer_instance
  · exact fun names => Steady.cases fun found => by cases found <;> infer_instance
  · exact fun names => Steady.cases fun found => by cases found <;> infer_instance
  · refine .take? rfl (fun eq => ?_) (.lastStop fun anchor => .ret ?_)
    · exact (assignedValues_echoes h).bind fun values => .ret (by simp [Displacement.stat])
    · rfl

omit [outer.Steady] [inner.Steady] h in
lemma checkTargets_echoes {targets : List Expr} :
    Parse.Echoes x depth Anywhere id (checkTargets targets)
      (checkTargets (targets.map x.move.expr)) := by
  induction targets with
  | nil => exact .ret rfl
  | cons e targets ih =>
    rw [List.map_cons, checkTargets, checkTargets, Displacement.isAssignable_expr,
      Displacement.isInvalid_expr]
    exact Echoes.errorIf.bind fun _ => ih

lemma assignment_echoes {first : Expr} :
    Parse.Echoes x depth Anywhere x.move.stat (assignment outer first)
      (assignment inner (x.move.expr first)) := by
  rw [assignment, assignment, Displacement.span_expr]
  refine (itemsAfter_echoes (suffixed_echoes h)).bind fun targets => ?_
  rw [Displacement.items_list]
  refine checkTargets_echoes.bind fun _ => (Echoes.expect (by decide)).bind fun eq => ?_
  exact (assignedValues_echoes h).bind fun values => .ret (by simp [Displacement.stat])

lemma exprStat_echoes :
    Parse.Echoes x depth Anywhere x.move.stat (exprStat outer) (exprStat inner) := by
  refine (suffixed_echoes h).cases ?_ ?_ fun e => ?_
  · exact fun e => Steady.cases fun kind => by split <;> infer_instance
  · exact fun e => Steady.cases fun kind => by split <;> infer_instance
  · refine .currentKind (by constructor <;> rfl) fun kind => ?_
    split
    · exact (assignment_echoes h).anywhere
    · exact (assignment_echoes h).anywhere
    · rw [Displacement.isCall_expr]
      exact .ite (.ret rfl) .error

lemma returnValues_trails :
    Parse.Trails x depth Anywhere (x.move.list x.move.expr) (returnValues outer)
      (returnValues inner) :=
  .currentKind ⟨rfl, rfl, rfl, rfl⟩ inferInstance fun _ =>
    .ite (.lastStop fun _ => .of_echoes (.ret rfl)) (.of_echoes (exprList_echoes h).anywhere)

lemma returnStat_trails {kind : TokenKind} (hkind : kind ≠ .eof) :
    Parse.Trails x depth (fun c => At kind c ∧ pre c) x.move.stat (returnStat outer)
      (returnStat inner) :=
  .advance hkind fun _ => (returnValues_trails h).bind fun _ =>
    .of_echoes (.take? rfl (fun _ => .ret (by simp [Displacement.stat]))
      (.ret (by simp [Displacement.stat])))

/-- A statement other than a return statement. -/
lemma statement_echoes :
    Parse.Echoes x depth (fun c => c.current.kind ≠ .eof ∧ c.current.kind ≠ .keyword .return_)
      x.move.stat (statement outer) (statement inner) := by
  refine .currentKind_inside (fun _ => And.left) fun kind => ?_
  split
  · exact .advance (by decide) fun semi => .ret rfl
  · exact ifStat_echoes h (by decide)
  · exact whileStat_echoes h (by decide)
  · exact doStat_echoes h (by decide)
  · exact forStat_echoes h (by decide)
  · exact repeatStat_echoes h (by decide)
  · exact functionStat_echoes h (by decide)
  · refine .nextKind_wanting rfl ⟨rfl, rfl, rfl, rfl⟩ localStat_wanting fun next => ?_
    split
    · next hnext =>
      subst hnext
      exact localFunction_echoes h
    · exact localStat_echoes h (by decide)
  · exact .advance (by decide) fun opening => identifier_echoes.bind fun name =>
      (Echoes.expect (by decide)).bind fun closing => .ret rfl
  · exact fun _ _ _ ht => absurd ht.1 ht.2.2
  · exact .advance (by decide) fun keyword => .ret rfl
  · exact .advance (by decide) fun keyword => identifier_echoes.bind fun name => .ret rfl
  · exact (exprStat_echoes h).anywhere
  · exact (exprStat_echoes h).anywhere
  · exact .advance (by decide) fun t => .ret rfl
  · exact .ite (Echoes.anywhere ((expression_echoes h).bind fun e => .error)) .errorExpected

lemma statement_trails :
    Parse.Trails x depth (fun c => c.current.kind ≠ .eof) x.move.stat (statement outer)
      (statement inner) := by
  intro s t hecho ht
  by_cases hreturn : t.cursor.current.kind = .keyword .return_
  · have hwhole := (hecho.kind_eq ht).trans hreturn
    rw [statement, statement, run_currentKind, run_currentKind, hwhole, hreturn]
    have hreads : Parse.Trails x depth (fun c => At (.keyword .return_) c ∧ Anywhere c) x.move.stat
        (returnStat outer) (returnStat inner) := returnStat_trails h (by decide)
    exact hreads s t hecho ⟨hreturn, trivial⟩
  · exact Trails.of_echoes (statement_echoes h) s t hecho ⟨ht, hreturn⟩

lemma statements_trails {bound : Nat} {afterReturn : Bool} :
    Parse.Trails x depth Anywhere (List.map x.move.stat) (statements outer bound afterReturn)
      (statements inner bound afterReturn) := by
  induction bound generalizing afterReturn with
  | zero => exact .of_echoes (.ret rfl)
  | succ bound ih =>
    refine .currentKind ⟨rfl, rfl, rfl, rfl⟩ .ret fun kind => ?_
    by_cases hends : kind.endsBlock = true
    · simpa only [hends, if_true] using .of_echoes (.ret rfl)
    · simp only [if_neg hends]
      have hstat : Parse.Trails x depth (fun c => At kind c ∧ Anywhere c) x.move.stat
          (statement outer) (statement inner) := fun s t hecho ht =>
        statement_trails h s t hecho fun heof => hends (by rw [← ht.1, heof]; rfl)
      refine hstat.bind fun s => (Trails.of_echoes .errorIf).bind fun _ => ?_
      rw [Displacement.isReturn_stat]
      exact ih.bind fun more => .of_echoes (.ret rfl)

end Statements

/-! ### The parsers of the next level out -/

section Around

variable [outer.Steady] [inner.Steady] (h : outer.Echoes x (depth + 1) inner)
include h

lemma exprAround_echoes {power : Nat} :
    Parse.Echoes x depth Anywhere x.move.expr (exprAround outer power) (exprAround inner power) :=
  .nested ((operand_echoes h).bind fun first => h.operators power first)

lemma operatorsAround_echoes {power : Nat} {first : Expr} :
    Parse.Echoes x depth Anywhere x.move.expr (operatorsAround outer power first)
      (operatorsAround inner power (x.move.expr first)) := by
  refine .currentKind (by constructor <;> rfl) fun kind => ?_
  split
  · exact .ret rfl
  · next op hop =>
    have hkind : kind ≠ .eof := by rintro rfl; cases hop
    refine .ite (.ret rfl) (.nested (.advance hkind fun sign => ?_))
    exact (h.expr _).bind fun second => h.operators power _

lemma suffixesAround_echoes {calls : Bool} {base : Expr} :
    Parse.Echoes x depth Anywhere x.move.expr (suffixesAround outer calls base)
      (suffixesAround inner calls (x.move.expr base)) := by
  refine .currentKind ?_ fun kind => .ite (Echoes.anywhere (.nested ?_)) (.ret rfl)
  · constructor <;> cases calls <;> rfl
  · exact (suffix_echoes h).bind fun e => h.suffixes calls e

lemma blockAround_trails {anchor : Offset} :
    Parse.Trails x depth Anywhere x.move.block (blockAround outer anchor)
      (blockAround inner (x.move.offset anchor)) :=
  .nested (.remaining ((statements_ample h.good_whole).bind _) ((statements_ample h.good).bind _)
    fun count => (statements_trails h).bind fun stats =>
      .of_echoes (.ret (by simp [Displacement.block])))

lemma Level.Echoes.around : outer.around.Echoes x depth inner.around where
  good_whole := by
    have hgood := h.good_whole
    rw [Nat.add_right_comm] at hgood
    exact hgood.around
  good := h.good.around
  expr _ := exprAround_echoes h
  operators _ _ := operatorsAround_echoes h
  suffixes _ _ := suffixesAround_echoes h
  block _ := blockAround_trails h

end Around

/-- The levels that are left in the whole and in the part. -/
lemma level_echoes {k : Nat} (hk : depth + x.gap + k = maxDepth + 1) :
    (level k).Echoes x depth (level (k + x.gap)) := by
  induction k generalizing depth with
  | zero =>
    have hnone : ∀ {s t}, ¬ x.Echo depth s t := by
      intro s t h
      have := h.depth_whole
      have := h.whole.depth
      omega
    have hwhole := level_good (k := 0) (Nat.zero_le _)
    have hpart := level_good (k := 0 + x.gap) (by omega)
    rw [show maxDepth + 1 - 0 = depth + x.gap by omega] at hwhole
    rw [show maxDepth + 1 - (0 + x.gap) = depth by omega] at hpart
    exact ⟨hwhole, hpart, fun _ _ _ h => absurd h hnone, fun _ _ _ _ h => absurd h hnone,
      fun _ _ _ _ h => absurd h hnone, fun _ _ _ h => absurd h hnone⟩
  | succ k ih =>
    rw [Nat.succ_add]
    have hinner : depth + 1 + x.gap + k = maxDepth + 1 := by omega
    exact (ih hinner).around

end Grammar

end LuaFront
