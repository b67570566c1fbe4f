import LuaFront.Grammar.Expression
import LuaFront.Proofs.Parser.Levels

/-!
The parsers of expressions. Each reads the parts of one node and closes it; what is nested in it is
left to the level further in.
-/

namespace LuaFront

/-- A token is consumed where an operand is expected, unless something may be waiting for it. -/
def TokenKind.passed (kind : TokenKind) : Nat := if kind.isAwaited then 0 else 1

namespace Grammar

open Parse ParseState

variable {depth n : Nat} {s₀ : ParseState} {good : Prop} {ps : List Part} {kind : TokenKind}
  {inner : Level}

lemma Level.Good.expression (hinner : inner.Good depth) :
    Item depth .ofExpr inner.expression := by
  intro s₀ n good ps
  refine Ensures.facing fun kind => ?_
  exact (hinner.expr 0 s₀ (n + 1) good ps kind (by omega)).consequence (fun _ => id) fun e s h =>
    h.mono (Nat.le_add_right _ _)

lemma Level.Good.exprList (hinner : inner.Good depth) :
    Ensures (Reached depth s₀ (n + 1) good ps) inner.exprList
      fun l s => l.Listed ∧ Reached depth s₀ (n + 1) good (ps ++ l.parts .ofExpr) s :=
  commaList_ensures hinner.expression

lemma missingExpr_ensures (hn : 0 < n + kind.passed) :
    Ensures (Facing kind (Reached depth s₀ n good ps)) missingExpr
      fun e => Reached depth s₀ (n + kind.passed) good (ps ++ [Part.node (.ofExpr e)]) := by
  refine Ensures.bind errorExpected_facing fun _ => ?_
  refine lastStop_facing fun anchor => ?_
  refine currentKind_facing ?_
  by_cases hawaited : kind.isAwaited
  · rw [TokenKind.passed, if_pos hawaited] at hn ⊢
    rw [if_pos hawaited]
    refine Ensures.ret fun s ⟨_, hanchor, h⟩ => ?_
    exact (h.closeEmpty hn (.expr (.invalid none [] anchor)) (Nat.zero_le 1)
      rfl hanchor.symm trivial fun _ => False.elim).imp fun _ => False.elim
  · rw [if_neg hawaited, TokenKind.passed, if_neg hawaited]
    have heof : kind ≠ .eof := by
      rintro rfl
      exact hawaited rfl
    refine ((advance_ensures heof).weaken fun s h => ⟨h.1, h.2.2⟩).bindFact fun t _ => ?_
    refine Ensures.ret fun s h => ?_
    exact (h.close (.expr (.invalid none [t] anchor)) (Nat.le_refl 1)
      rfl (by simp [Node.parts, Expr.parts]) trivial fun _ => False.elim).imp fun _ => False.elim

/-! ### Tables -/

lemma tableField_ensures (hinner : inner.Good depth)
    (hkind : (kind.canBeginExpr || kind = .symbol .openBracket) = true) :
    Ensures (Facing kind (Reached depth s₀ n good ps)) (tableField inner)
      fun f => Reached depth s₀ (n + 1) good (ps ++ [Part.node (.tableField f)]) := by
  have hexpr := hinner.expression
  refine currentKind_facing ?_
  split
  · refine (advance_ensures (by decide)).bindFact fun opening hopening => ?_
    refine (hexpr _ _ _ _).bind fun key => ?_
    refine (expectClosing_ensures (by decide)).bindFact fun closing hclosing => ?_
    refine (expect_ensures (by decide)).bindFact fun eq heq => ?_
    refine (hexpr _ _ _ _).bind fun value => Ensures.ret fun s h => ?_
    exact h.close (.tableField (.keyed opening key closing eq value)) (Nat.zero_le 1)
      (by simp [Node.parts, TableField.parts]) (by simp [Node.parts, TableField.parts])
      ⟨hopening, hclosing, heq⟩ fun _ _ => trivial
  · refine nextKind_ensures fun next => ?_
    split
    · next hnext =>
      subst hnext
      refine (advance_facing (by decide)).bindFact fun name hname => ?_
      refine ((advance_ensures (by decide)).weaken fun s h =>
        ⟨h.1, reached_identifier hname h.2⟩).bindFact fun eq heq => ?_
      refine (hexpr _ _ _ _).bind fun value => Ensures.ret fun s h => ?_
      exact (h.close (.tableField (.named ⟨name⟩ eq value)) (Nat.zero_le 1)
        (by simp [Node.parts, TableField.parts]) (by simp [Node.parts, TableField.parts])
        heq fun _ _ => trivial).mono (by omega)
    · refine ((hinner.expr 0 _ _ _ _ _ (Nat.succ_pos n)).weaken fun s h => h.2).bind fun value => ?_
      refine Ensures.ret fun s h => ?_
      exact h.close (.tableField (.positional value)) (Nat.zero_le 1)
        rfl (by simp [Node.parts, TableField.parts]) trivial fun _ _ => trivial
  · next hbracket _ =>
    rw [Bool.or_eq_true, decide_eq_true_eq] at hkind
    have hlead : kind.lead = 1 := if_pos (hkind.resolve_right hbracket)
    refine (hinner.expr 0 _ _ _ _ _ (by omega)).bind fun value => Ensures.ret fun s h => ?_
    rw [hlead] at h
    exact h.close (.tableField (.positional value)) (Nat.zero_le 1)
      rfl (by simp [Node.parts, TableField.parts]) trivial fun _ _ => trivial

/-- Before each field all fields have a delimiter. -/
lemma tableFields_ensures (hinner : inner.Good depth) (bound : Nat) (fields : Separated TableField)
    (hfields : fields.Joined fun kind => kind = .symbol .comma ∨ kind = .symbol .semi)
    (hall : fields.Delimited) :
    Ensures (Reached depth s₀ n good (ps ++ fields.parts .tableField))
      (tableFields inner bound fields)
      fun l s => l.Joined (fun kind => kind = .symbol .comma ∨ kind = .symbol .semi)
        ∧ Reached depth s₀ n good (ps ++ l.parts .tableField) s := by
  induction bound generalizing fields with
  | zero => exact Ensures.ret fun s h => ⟨hfields, h⟩
  | succ bound ih =>
    refine currentKind_ensures fun kind => ?_
    split
    · next hkind =>
      refine (tableField_ensures hinner hkind).bind fun field => ?_
      have hpushed : (fields.push field).Joined _ := hfields.push hall
      have hlacks := Separated.lacksDelimiter_push fields field
      have hnext : ∀ sign : Symbol, (TokenKind.symbol sign = .symbol .comma
          ∨ TokenKind.symbol sign = .symbol .semi) →
          Ensures (Facing (.symbol sign) (Reached depth s₀ (n + 1) good
            (ps ++ fields.parts .tableField ++ [Part.node (.tableField field)])))
            (advance >>= fun t => tableFields inner bound ((fields.push field).delimit t))
            fun l s => l.Joined (fun kind => kind = .symbol .comma ∨ kind = .symbol .semi)
              ∧ Reached depth s₀ n good (ps ++ l.parts .tableField) s := by
        intro sign hsign
        refine (advance_ensures (by simp)).bindFact fun t ht => ?_
        obtain ⟨hjoined, hall⟩ := hpushed.delimit hlacks (ht ▸ hsign)
        refine (ih _ hjoined hall).weaken fun s h => ?_
        rw [Separated.parts_delimit _ hlacks]
        simpa using h.mono (Nat.le_add_right n 2)
      refine currentKind_ensures fun kind' => ?_
      split
      · exact hnext _ (.inl rfl)
      · exact hnext _ (.inr rfl)
      · exact Ensures.ret fun s h => ⟨hpushed, by simpa using (h.2.mono (Nat.le_succ n))⟩
    · exact Ensures.ret fun s h => ⟨hfields, h.2⟩

lemma allFields_ensures (hinner : inner.Good depth) {bound : Nat} {anchor : Offset} :
    Ensures (Reached depth s₀ n good ps) (tableFields inner bound (.empty anchor))
      fun l s => l.Joined (fun kind => kind = .symbol .comma ∨ kind = .symbol .semi)
        ∧ Reached depth s₀ n good (ps ++ l.parts .tableField) s := by
  have hnone : (Separated.empty anchor : Separated TableField).Delimited := by
    simp [Separated.Delimited, Separated.empty]
  refine (tableFields_ensures hinner bound _ Separated.joined_empty hnone).weaken fun s h => ?_
  simpa using h

lemma table_ensures (hinner : inner.Good depth) :
    Ensures (Facing (.symbol .openBrace) (Reached depth s₀ n good ps)) (table inner)
      fun t => Reached depth s₀ (n + 1) good (ps ++ [Part.node (.table t)]) := by
  refine (advance_ensures (by decide)).bindFact fun opening hopening => ?_
  refine remaining_ensures fun count => ?_
  refine ((allFields_ensures hinner).weaken fun s h => h.2).bindFact fun fields hfields => ?_
  refine (expectClosing_ensures (by decide)).bindFact fun closing hclosing => ?_
  refine Ensures.ret fun s h => ?_
  exact h.close (.table ⟨opening, fields, closing⟩) (Nat.zero_le 1)
    (by simp [Node.parts, Table.parts])
    (by simp [Node.parts, Table.parts]) ⟨hopening, hfields, hclosing⟩ fun _ _ => trivial

/-! ### Functions -/

lemma reached_vararg {t : Token} {s : ParseState} (ht : t.kind = .symbol .dotDotDot)
    (h : Reached depth s₀ n good (ps ++ [Part.token t]) s) :
    Reached depth s₀ n good (ps ++ [Part.node (.vararg ⟨t⟩)]) s :=
  h.close (.vararg ⟨t⟩) (Nat.zero_le 1) rfl (by simp [Node.parts]) ht fun _ _ => trivial

lemma reached_literal (kind : LiteralKind) {t : Token} {s : ParseState} (ht : t.kind = kind.token)
    (h : Reached depth s₀ n good (ps ++ [Part.token t]) s) :
    Reached depth s₀ n good (ps ++ [Part.node (.literal ⟨kind, t⟩)]) s :=
  h.close (.literal ⟨kind, t⟩) (Nat.zero_le 1) rfl (by simp [Node.parts]) ht fun _ _ => trivial

lemma ahead_le {s : ParseState} (h : Reached depth s₀ n good ps s) :
    s.cursor.ahead.length + n ≤ s₀.cursor.ahead.length + s₀.cursor.pos := by
  obtain ⟨l, hfront, hback, -⟩ := h.reads.exists_consumed
  have hpos := h.pos
  simp only [Cursor.pos, hback, List.length_append, List.length_reverse] at hpos
  rw [hfront, List.length_append, Cursor.pos]
  omega

/-- There are fewer tokens left than parameters may follow, so that none is left out. -/
lemma parameters_ensures (bound : Nat) (params : Separated Param)
    (hbound : s₀.cursor.ahead.length + s₀.cursor.pos < bound + n)
    (hjoined : params.Joined (· = .symbol .comma)) (hall : params.Delimited)
    (hnames : ∀ p ∈ params.items, p.isVararg = false) :
    Ensures (Reached depth s₀ n good (ps ++ params.parts .ofParam)) (parameters bound params)
      fun l s => (l.Joined (· = .symbol .comma) ∧ ∀ p ∈ l.items.dropLast, p.isVararg = false)
        ∧ Reached depth s₀ n (good ∧ l.endsDelimited = false) (ps ++ l.parts .ofParam) s := by
  induction bound generalizing params n with
  | zero =>
    intro s h
    have := ahead_le h
    omega
  | succ bound ih =>
    refine currentKind_ensures fun kind => ?_
    split
    · refine (advance_ensures (by decide)).bindFact fun t ht => ?_
      have hpushed : (params.push (.name ⟨t⟩)).Joined _ := hjoined.push hall
      have hlacks := Separated.lacksDelimiter_push params (.name ⟨t⟩)
      refine Ensures.bindFact ((take?_ensures (by decide)).weaken fun s h =>
        reached_identifier ht h) fun found hfound => ?_
      have hitems : ∀ p ∈ (params.push (.name ⟨t⟩)).items, p.isVararg = false := by
        simpa [or_imp, forall_and] using ⟨hnames, rfl⟩
      cases found with
      | none =>
        refine Ensures.ret fun s h => ⟨⟨hpushed, ?_⟩, ?_⟩
        · exact fun p hp => hitems p (List.dropLast_subset _ hp)
        · refine Reached.imp ?_ fun _ (hg : good) => ⟨hg, Separated.endsDelimited_push _ _⟩
          simpa [Node.ofParam] using h.mono (Nat.le_succ n)
      | some comma =>
        obtain ⟨hdelimited, hall⟩ := hpushed.delimit hlacks (hfound comma rfl)
        have hmore := ih (n := n + 1) _ (by omega) hdelimited hall (by simpa using hitems)
        refine hmore.consequence (fun s h => ?_) fun l s h => ⟨h.1, h.2.mono (Nat.le_succ n)⟩
        rw [Separated.parts_delimit _ hlacks]
        simpa [Node.ofParam] using h
    · refine (advance_ensures (by decide)).bindFact fun t ht =>
        Ensures.ret fun s h => ⟨⟨?_, ?_⟩, ?_⟩
      · exact hjoined.push hall
      · simpa using hnames
      · refine Reached.imp ?_ fun _ (hg : good) => ⟨hg, Separated.endsDelimited_push _ _⟩
        simpa [Node.ofParam] using (reached_vararg ht h).mono (Nat.le_succ n)
    · refine Ensures.bind (errorExpected_ensures.weaken fun s h => h.2) fun _ => ?_
      refine Ensures.ret fun s h => ⟨⟨hjoined, ?_⟩, h.imp fun _ => False.elim⟩
      exact fun p hp => hnames p (List.dropLast_subset _ hp)

lemma parameterList_ensures :
    Ensures (Reached depth s₀ n good ps) parameterList
      fun l s => (l.Joined (· = .symbol .comma) ∧ ∀ p ∈ l.items.dropLast, p.isVararg = false)
        ∧ Reached depth s₀ n (good ∧ l.endsDelimited = false) (ps ++ l.parts .ofParam) s := by
  refine lastStop_ensures fun anchor => ?_
  have hnone : (Separated.empty anchor : Separated Param).Delimited := by
    simp [Separated.Delimited, Separated.empty]
  have hnames : ∀ p ∈ (Separated.empty anchor : Separated Param).items, p.isVararg = false := by
    simp [Separated.empty, Separated.items]
  refine atKind_ensures ?_ ?_
  · refine Ensures.ret fun s h => ⟨⟨Separated.joined_empty, ?_⟩, ?_⟩
    · exact fun p hp => hnames p (List.dropLast_subset _ hp)
    · simpa using h.2.2.imp fun _ hg => ⟨hg, rfl⟩
  · rintro s ⟨-, -, h⟩
    have hstart : Reached depth s s.cursor.pos True
        ([] ++ (Separated.empty anchor).parts Node.ofParam) s := by
      simpa using h.depth_eq ▸ Reached.start h.valid (Nat.le_refl _)
    obtain ⟨hform, h'⟩ := parameters_ensures (s.cursor.ahead.length + 1) (.empty anchor)
      (by omega) Separated.joined_empty hnone hnames s hstart
    exact ⟨hform, ((h.trans h').mono h.pos).imp fun _ hg => ⟨hg.1, hg.2.2⟩⟩

lemma funcBody_ensures (hinner : inner.Good depth) {keyword : Token} :
    Ensures (Reached depth s₀ (n + 1) good ps) (funcBody inner keyword)
      fun f => Reached depth s₀ (n + 1) good (ps ++ [Part.node (.funcBody f)]) := by
  refine (expect_ensures (by decide)).bindFact fun opening hopening => ?_
  refine parameterList_ensures.bindFact fun params hparams => ?_
  refine (expect_ensures (by decide)).bindFact fun closing hclosing => ?_
  refine hinner.blockHere.bind fun block => ?_
  refine (expectClosing_ensures (by decide)).bindFact fun close hclose => Ensures.ret fun s h => ?_
  have hform : FuncBody.Form ⟨opening, params, closing, block, close⟩ :=
    ⟨hopening, hparams.1, hparams.2, hclosing, hclose⟩
  refine (h.close (.funcBody ⟨opening, params, closing, block, close⟩) (Nat.zero_le 1)
    (by simp [Node.parts, FuncBody.parts]) (by simp [Node.parts, FuncBody.parts]) hform
    fun _ hg => ?_).imp fun _ hg => hg.1
  exact hg.2

/-! ### Suffixes -/

lemma argList_ensures (hinner : inner.Good depth) :
    Ensures (Reached depth s₀ (n + 1) good ps) (argList inner)
      fun l s => l.Commas ∧ Reached depth s₀ (n + 1) good (ps ++ l.parts .ofExpr) s := by
  refine atKind_ensures ?_ ?_
  · refine lastStop_ensures fun anchor => Ensures.ret fun s h => ⟨Separated.commas_empty, ?_⟩
    simpa using h.2.2
  · exact hinner.exprList.consequence (fun s h => h.2) fun l s h => ⟨h.1.commas, h.2⟩

lemma callArgs_ensures (hinner : inner.Good depth) :
    Ensures (Reached depth s₀ (n + 1) good ps) (callArgs inner)
      fun args s => args.Form ∧ Reached depth s₀ (n + 1) good (ps ++ args.parts) s := by
  refine currentKind_ensures fun kind => ?_
  split
  · refine (advance_ensures (by decide)).bindFact fun t ht => Ensures.ret fun s h => ⟨rfl, ?_⟩
    exact (reached_literal .string ht h).mono (Nat.le_succ _)
  · refine (table_ensures hinner).bind fun t => Ensures.ret fun s h => ⟨trivial, ?_⟩
    exact h.mono (Nat.le_succ _)
  · refine (advance_ensures (by decide)).bindFact fun opening hopening => ?_
    refine (argList_ensures hinner).bindFact fun args hargs => ?_
    refine (expectClosing_ensures (by decide)).bindFact fun closing hclosing => ?_
    refine Ensures.ret fun s h => ⟨⟨hopening, hargs, hclosing⟩, ?_⟩
    simpa [CallArgs.parts] using h.mono (Nat.le_succ _)
  · refine Ensures.bind errorExpected_facing fun _ => ?_
    refine lastStop_ensures fun anchor => Ensures.ret fun s h => ?_
    obtain ⟨rfl, -, h⟩ := h
    refine ⟨⟨rfl, Separated.commas_empty, rfl⟩, ?_⟩
    have hopening : Reached depth s₀ (n + 1) False _ s :=
      h.missing (Nat.succ_pos n) (by decide : TokenKind.symbol .openParen ≠ .eof)
    have hclosing : Reached depth s₀ (n + 1) good _ s :=
      hopening.missing (Nat.succ_pos n) (by decide : TokenKind.symbol .closeParen ≠ .eof)
    simpa [CallArgs.parts] using hclosing

/-- A suffix takes the place of what it is put on. -/
lemma suffix_ensures (hinner : inner.Good depth) {base : Expr} :
    Ensures (Facing kind (Reached depth s₀ (n + 1) good (ps ++ [Part.node (.ofExpr base)])))
      (suffix inner base)
      fun e => Reached depth s₀ (n + 1) good (ps ++ [Part.node (.ofExpr e)]) := by
  refine currentKind_facing ?_
  split
  · refine (advance_ensures (by decide)).bindFact fun dot hdot => ?_
    refine (identifier_item _ _ _ _).bind fun name => Ensures.ret fun s h => ?_
    exact (h.close (.expr (.field base dot name)) (Nat.zero_le 1) (by simp [Node.parts, Expr.parts])
      (by simp [Node.parts, Expr.parts]) hdot fun _ _ => trivial).mono (Nat.le_succ _)
  · refine (advance_ensures (by decide)).bindFact fun opening hopening => ?_
    refine (hinner.expression _ _ _ _).bind fun key => ?_
    refine (expectClosing_ensures (by decide)).bindFact fun closing hclosing => ?_
    refine Ensures.ret fun s h => ?_
    exact (h.close (.expr (.index base opening key closing)) (Nat.zero_le 1)
      (by simp [Node.parts, Expr.parts])
      (by simp [Node.parts, Expr.parts]) ⟨hopening, hclosing⟩ fun _ _ => trivial).mono
      (Nat.le_succ _)
  · refine (advance_ensures (by decide)).bindFact fun colon hcolon => ?_
    refine (identifier_item _ _ _ _).bind fun name => ?_
    refine (callArgs_ensures hinner).bindFact fun args hargs => Ensures.ret fun s h => ?_
    exact (h.close (.expr (.methodCall base colon name args)) (Nat.zero_le 1)
      (by simp [Node.parts, Expr.parts])
      (by simp [Node.parts, Expr.parts]) ⟨hcolon, hargs⟩ fun _ _ => trivial).mono (Nat.le_succ _)
  · refine ((callArgs_ensures hinner).weaken fun s h => h.2).bindFact fun args hargs => ?_
    refine Ensures.ret fun s h => ?_
    exact h.close (.expr (.call base args)) (Nat.zero_le 1) (by simp [Node.parts, Expr.parts])
      (by simp [Node.parts, Expr.parts]) hargs fun _ _ => trivial

lemma primary_ensures (hinner : inner.Good depth) (hn : 0 < n + kind.passed) :
    Ensures (Facing kind (Reached depth s₀ n good ps)) (primary inner)
      fun e => Reached depth s₀ (n + kind.passed) good (ps ++ [Part.node (.ofExpr e)]) := by
  refine currentKind_facing ?_
  split
  · refine (advance_ensures (by decide)).bindFact fun t ht => Ensures.ret fun s h => ?_
    exact reached_identifier ht h
  · refine (advance_ensures (by decide)).bindFact fun opening hopening => ?_
    refine (hinner.expression _ _ _ _).bind fun e => ?_
    refine (expectClosing_ensures (by decide)).bindFact fun closing hclosing => ?_
    refine Ensures.ret fun s h => ?_
    exact h.close (.expr (.paren opening e closing)) (Nat.zero_le 1)
      (by simp [Node.parts, Expr.parts])
      (by simp [Node.parts, Expr.parts]) ⟨hopening, hclosing⟩ fun _ _ => trivial
  · refine (advance_ensures (by decide)).bindFact fun t ht => Ensures.ret fun s h => ?_
    refine h.close (.expr (.invalid none [t] t.span.start)) (Nat.le_refl 1)
      rfl (by simp [Node.parts, Expr.parts]) trivial fun hs _ => ?_
    exact absurd ht (h.complete hs (.token t) (by simp)).2
  · exact missingExpr_ensures hn

lemma suffixed_ensures (hinner : inner.Good depth) {calls : Bool} (hn : 0 < n + kind.passed) :
    Ensures (Facing kind (Reached depth s₀ n good ps)) (suffixed inner calls)
      fun e => Reached depth s₀ (n + kind.passed) good (ps ++ [Part.node (.ofExpr e)]) := by
  obtain ⟨m, hm⟩ := Nat.exists_eq_succ_of_ne_zero (Nat.ne_of_gt hn)
  refine (primary_ensures hinner hn).bind fun base => ?_
  rw [hm]
  exact hinner.suffixes calls base _ _ _ _

lemma suffixed_item (hinner : inner.Good depth) {calls : Bool} :
    Item depth .ofExpr (suffixed inner calls) := by
  intro s₀ n good ps
  refine Ensures.facing fun kind =>
    (suffixed_ensures hinner (by omega)).consequence (fun _ => id) ?_
  exact fun e s h => h.mono (Nat.le_add_right _ _)

/-! ### Operands -/

lemma literal_ensures (kind : LiteralKind) :
    Ensures (Facing kind.token (Reached depth s₀ n good ps)) (literal kind)
      fun e => Reached depth s₀ (n + 1) good (ps ++ [Part.node (.ofExpr e)]) := by
  have heof : kind.token ≠ .eof := by cases kind <;> decide
  refine (advance_ensures heof).bindFact fun t ht => Ensures.ret fun s h => ?_
  exact reached_literal kind ht h

lemma simpleExpr_ensures (hinner : inner.Good depth) (hkind : kind.unaryOp? = none)
    (hn : 0 < n + kind.lead) :
    Ensures (Facing kind (Reached depth s₀ n good ps)) (simpleExpr inner)
      fun e => Reached depth s₀ (n + kind.lead) good (ps ++ [Part.node (.ofExpr e)]) := by
  refine currentKind_facing ?_
  split
  · exact literal_ensures .nil_
  · exact literal_ensures .true_
  · exact literal_ensures .false_
  · exact literal_ensures .number
  · exact literal_ensures .string
  · refine (advance_ensures (by decide)).bindFact fun t ht => Ensures.ret fun s h => ?_
    exact reached_vararg ht h
  · exact (table_ensures hinner).bind fun t => Ensures.ret fun s h => h
  · refine (advance_ensures (by decide)).bindFact fun keyword hkeyword => ?_
    refine (funcBody_ensures hinner).bind fun body => Ensures.ret fun s h => ?_
    exact h.close (.expr (.function keyword body)) (Nat.zero_le 1)
      (by simp [Node.parts, Expr.parts])
      (by simp [Node.parts, Expr.parts]) hkeyword fun _ _ => trivial
  · have hlead : kind.lead ≤ kind.passed := by
      unfold TokenKind.lead TokenKind.passed
      split
      · next hbegins =>
        unfold TokenKind.canBeginExpr at hbegins
        split at hbegins <;> simp_all [TokenKind.unaryOp?, TokenKind.isAwaited]
      · exact Nat.zero_le _
    refine (suffixed_ensures hinner (by omega)).consequence (fun _ => id) fun e s h => ?_
    exact h.mono (Nat.add_le_add_left hlead n)

lemma operand_ensures (hinner : inner.Good depth) (hn : 0 < n + kind.lead) :
    Ensures (Facing kind (Reached depth s₀ n good ps)) (operand inner)
      fun e => Reached depth s₀ (n + kind.lead) good (ps ++ [Part.node (.ofExpr e)]) := by
  refine currentKind_facing ?_
  split
  · next hop => exact simpleExpr_ensures hinner hop hn
  · next op hop =>
    have heof : kind ≠ .eof := by
      rintro rfl
      cases hop
    have hlead : kind.lead ≤ 1 := by
      unfold TokenKind.lead
      split <;> omega
    refine (advance_ensures heof).bindFact fun sign hsign => ?_
    refine Ensures.facing fun kind' =>
      (hinner.expr op.power _ _ _ _ kind' (by omega)).bind fun e => ?_
    refine Ensures.ret fun s h => ?_
    exact (h.close (.expr (.unary op sign e)) (Nat.zero_le 1) (by simp [Node.parts, Expr.parts])
      (by simp [Node.parts, Expr.parts]) (by rwa [← hsign] at hop) fun _ _ => trivial).mono
      (by omega)

/-! ### The expressions of the next level out -/

section Around

lemma cutOff_ensures (hn : 0 < n) {kept : Option Expr} {tokens : List Token} :
    Ensures (Refused depth s₀ n (ps ++ kept.toList.map fun e => .node (.ofExpr e)) tokens)
      (cutOff kept tokens) fun e => Reached depth s₀ n good (ps ++ [Part.node (.ofExpr e)]) := by
  refine lastStop_ensures fun anchor => Ensures.ret fun s h => ?_
  obtain ⟨hanchor, h⟩ := h
  refine ⟨Progress.imp ?_ fun _ (hg : False) => hg.elim, h.pending _ ?_⟩
  · have hparts : (Node.expr (.invalid kept tokens anchor)).parts
        = (Expr.invalid kept tokens 0).parts := rfl
    have hprogress : Progress depth s₀ n False (ps ++ (Expr.invalid kept tokens 0).parts) s := by
      simpa [Expr.parts] using h.toProgress
    rcases hnil : (Expr.invalid kept tokens 0).parts with _ | ⟨p, rest⟩
    · rw [hnil, List.append_nil] at hprogress
      exact hprogress.closeEmpty hn (.expr (.invalid kept tokens anchor)) (hparts.trans hnil)
        hanchor.symm trivial fun _ => False.elim
    · exact hprogress.close (.expr (.invalid kept tokens anchor)) (by rw [hparts])
        (by simp [hparts, hnil]) trivial fun _ => False.elim
  · rw [List.append_assoc]
    exact Part.adds_node (n := .expr (.invalid kept tokens anchor)) (.inl rfl)

lemma exprAround_ensures (hinner : inner.Good (depth + 1)) {power : Nat}
    (hn : 0 < n + kind.lead) :
    Ensures (Facing kind (Reached depth s₀ n good ps)) (exprAround inner power)
      fun e => Reached depth s₀ (n + kind.lead) good (ps ++ [Part.node (.ofExpr e)]) := by
  obtain ⟨m, hm⟩ := Nat.exists_eq_succ_of_ne_zero (Nat.ne_of_gt hn)
  refine nested_ensures (Nat.le_refl _) (fun tokens => ?_) ?_
  · exact (cutOff_ensures hn).weaken fun s h => by simpa using h
  · refine (operand_ensures hinner hn).bind fun first => ?_
    rw [hm]
    exact (hinner.operators power first _ _ _ _).consequence (fun _ => id) fun e s => leave_reached

lemma operatorsAround_ensures (hinner : inner.Good (depth + 1)) {power : Nat} {first : Expr} :
    Ensures (Reached depth s₀ (n + 1) good (ps ++ [Part.node (.ofExpr first)]))
      (operatorsAround inner power first)
      fun e => Reached depth s₀ (n + 1) good (ps ++ [Part.node (.ofExpr e)]) := by
  refine currentKind_ensures fun kind => ?_
  split
  · exact Ensures.ret fun s h => h.2
  · next op hop =>
    have heof : kind ≠ .eof := by
      rintro rfl
      cases hop
    split
    · exact Ensures.ret fun s h => h.2
    · refine nested_ensures (Nat.le_add_right _ _) (fun tokens => ?_) ?_
      · exact (cutOff_ensures (Nat.succ_pos n)).weaken fun s h => by simpa using h
      · refine (advance_ensures heof).bindFact fun sign hsign => ?_
        refine Ensures.facing fun kind' =>
          (hinner.expr op.rightPower _ (n + 2) _ _ kind' (by omega)).bind fun e => ?_
        refine Ensures.consequence (hinner.operators power (.binary first op sign e) _ _ _ _)
          (fun s h => ?_) fun e s => leave_reached
        exact (h.close (.expr (.binary first op sign e)) (Nat.zero_le 1)
          (by simp [Node.parts, Expr.parts])
          (by simp [Node.parts, Expr.parts]) (by rwa [← hsign] at hop) fun _ _ => trivial).mono
          (by omega)

lemma suffixesAround_ensures (hinner : inner.Good (depth + 1)) {calls : Bool} {base : Expr} :
    Ensures (Reached depth s₀ (n + 1) good (ps ++ [Part.node (.ofExpr base)]))
      (suffixesAround inner calls base)
      fun e => Reached depth s₀ (n + 1) good (ps ++ [Part.node (.ofExpr e)]) := by
  refine currentKind_ensures fun kind => ?_
  split
  · refine nested_ensures (Nat.le_add_right _ _) (fun tokens => ?_) ?_
    · exact (cutOff_ensures (Nat.succ_pos n)).weaken fun s h => by simpa using h
    · refine (suffix_ensures hinner).bind fun e => ?_
      exact (hinner.suffixes calls e _ _ _ _).consequence (fun _ => id) fun e s => leave_reached
  · exact Ensures.ret fun s h => h.2

end Around

end Grammar

end LuaFront
