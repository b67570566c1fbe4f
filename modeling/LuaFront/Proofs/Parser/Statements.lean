import LuaFront.Grammar.Statement
import LuaFront.Proofs.Parser.Expressions
import LuaFront.Proofs.Parser.Steady

/-!
The parsers of statements and blocks. What a statement must not contain is reported before it is
closed.
-/

namespace LuaFront

/-- A name without a part that is not a name is dotted. -/
lemma Expr.isDotted_of_firstNonName? {e : Expr} (h : Grammar.firstNonName? e = none) :
    e.IsDotted := by
  fun_induction Grammar.firstNonName? e with
  | case1 => trivial
  | case2 base _ _ ih => exact ih h
  | case3 => simp at h

lemma Separated.mem_parts {α : Type} {node : α → Node} {l : Separated α} {item : α}
    (h : item ∈ l.items) : .node (node item) ∈ l.parts node := by
  simp only [items, List.mem_map] at h
  obtain ⟨pair, hpair, rfl⟩ := h
  exact List.mem_flatMap.2 ⟨pair, hpair, by simp⟩

/-- No invalid expression is complete. -/
lemma Expr.isInvalid_of_complete {e : Expr} (h : (Part.node (.ofExpr e)).Complete) :
    e.isInvalid = false := by
  cases e with
  | invalid => exact (h _ (Node.self_mem_preorder _)).sound.elim
  | _ => rfl

namespace Grammar

open Parse ParseState

variable {depth n : Nat} {s₀ : ParseState} {good : Prop} {ps : List Part} {kind : TokenKind}
  {inner : Level}

/-! ### Compound statements -/

lemma elseIfs_ensures (hinner : inner.Good depth) (bound : Nat) :
    Ensures (Reached depth s₀ (n + 1) good ps) (elseIfs inner bound)
      fun l => Reached depth s₀ (n + 1) good (ps ++ l.map fun c => Part.node (.elseIf c)) := by
  induction bound generalizing ps with
  | zero => exact Ensures.ret fun s h => by simpa using h
  | succ bound ih =>
    refine (take?_ensures (by decide)).bindFact fun found hfound => ?_
    cases found with
    | none => exact Ensures.ret fun s h => by simpa using h
    | some keyword =>
      refine (hinner.expression _ _ _ _).bind fun cond => ?_
      refine (expect_ensures (by decide)).bindFact fun opener hopener => ?_
      refine hinner.blockHere.bind fun block => ?_
      have hclose : ∀ s, Reached depth s₀ (n + 1) good (ps ++ [Part.token keyword]
          ++ [Part.node (.ofExpr cond)] ++ [Part.token opener] ++ [Part.node (.block block)]) s →
          Reached depth s₀ (n + 1) good
            (ps ++ [Part.node (.elseIf ⟨keyword, cond, opener, block⟩)]) s :=
        fun s h => h.close (.elseIf ⟨keyword, cond, opener, block⟩) (Nat.zero_le 1)
          (by simp [Node.parts])
          (by simp [Node.parts]) ⟨hfound keyword rfl, hopener⟩ fun _ _ => trivial
      refine (ih.weaken hclose).bind fun clauses => Ensures.ret fun s h => ?_
      simpa using h

lemma else_ensures (hinner : inner.Good depth) :
    Ensures (Reached depth s₀ (n + 1) good ps) (else_ inner)
      fun last => Reached depth s₀ (n + 1) good
        (ps ++ last.toList.map fun c => Part.node (.else_ c)) := by
  refine (take?_ensures (by decide)).bindFact fun found hfound => ?_
  cases found with
  | none => exact Ensures.ret fun s h => by simpa using h
  | some keyword =>
    refine hinner.blockHere.bind fun block => Ensures.ret fun s h => ?_
    exact h.close (.else_ ⟨keyword, block⟩) (Nat.zero_le 1)
      (by simp [Node.parts]) (by simp [Node.parts]) (hfound keyword rfl) fun _ _ => trivial

lemma ifStat_ensures (hinner : inner.Good depth) :
    Ensures (Facing (.keyword .if_) (Reached depth s₀ n good ps)) (ifStat inner)
      fun st => Reached depth s₀ (n + 1) good (ps ++ [Part.node (.stat st)]) := by
  refine (advance_ensures (by decide)).bindFact fun keyword hkeyword => ?_
  refine (hinner.expression _ _ _ _).bind fun cond => ?_
  refine (expect_ensures (by decide)).bindFact fun opener hopener => ?_
  refine hinner.blockHere.bind fun block => ?_
  refine remaining_ensures fun count => ?_
  refine ((elseIfs_ensures hinner count).weaken fun s h => h.2).bind fun clauses => ?_
  refine (else_ensures hinner).bind fun last => ?_
  refine (expectClosing_ensures (by decide)).bindFact fun close hclose => Ensures.ret fun s h => ?_
  have hform : IfStat.Form ⟨keyword, cond, opener, block, clauses, last, close⟩ :=
    ⟨hkeyword, hopener, hclose⟩
  exact h.close (.stat (.if_ ⟨keyword, cond, opener, block, clauses, last, close⟩)) (Nat.zero_le 1)
    (by simp [Node.parts, Stat.parts, IfStat.parts])
    (by simp [Node.parts, Stat.parts, IfStat.parts]) hform fun _ _ => trivial

lemma whileStat_ensures (hinner : inner.Good depth) :
    Ensures (Facing (.keyword .while_) (Reached depth s₀ n good ps)) (whileStat inner)
      fun st => Reached depth s₀ (n + 1) good (ps ++ [Part.node (.stat st)]) := by
  refine (advance_ensures (by decide)).bindFact fun keyword hkeyword => ?_
  refine (hinner.expression _ _ _ _).bind fun cond => ?_
  refine (expect_ensures (by decide)).bindFact fun opener hopener => ?_
  refine hinner.blockHere.bind fun block => ?_
  refine (expectClosing_ensures (by decide)).bindFact fun close hclose => Ensures.ret fun s h => ?_
  exact h.close (.stat (.while_ keyword cond opener block close)) (Nat.zero_le 1)
    (by simp [Node.parts, Stat.parts]) (by simp [Node.parts, Stat.parts])
    ⟨hkeyword, hopener, hclose⟩ fun _ _ => trivial

lemma doStat_ensures (hinner : inner.Good depth) :
    Ensures (Facing (.keyword .do_) (Reached depth s₀ n good ps)) (doStat inner)
      fun st => Reached depth s₀ (n + 1) good (ps ++ [Part.node (.stat st)]) := by
  refine (advance_ensures (by decide)).bindFact fun keyword hkeyword => ?_
  refine hinner.blockHere.bind fun block => ?_
  refine (expectClosing_ensures (by decide)).bindFact fun close hclose => Ensures.ret fun s h => ?_
  exact h.close (.stat (.do_ keyword block close)) (Nat.zero_le 1)
    (by simp [Node.parts, Stat.parts])
    (by simp [Node.parts, Stat.parts]) ⟨hkeyword, hclose⟩ fun _ _ => trivial

lemma repeatStat_ensures (hinner : inner.Good depth) :
    Ensures (Facing (.keyword .repeat_) (Reached depth s₀ n good ps)) (repeatStat inner)
      fun st => Reached depth s₀ (n + 1) good (ps ++ [Part.node (.stat st)]) := by
  refine (advance_ensures (by decide)).bindFact fun keyword hkeyword => ?_
  refine hinner.blockHere.bind fun block => ?_
  refine (expectClosing_ensures (by decide)).bindFact fun close hclose => ?_
  refine (hinner.expression _ _ _ _).bind fun cond => Ensures.ret fun s h => ?_
  exact h.close (.stat (.repeat_ keyword block close cond)) (Nat.zero_le 1)
    (by simp [Node.parts, Stat.parts])
    (by simp [Node.parts, Stat.parts]) ⟨hkeyword, hclose⟩ fun _ _ => trivial

lemma step_ensures (hinner : inner.Good depth) :
    Ensures (Reached depth s₀ (n + 1) good ps) (step inner)
      fun st s => (∀ t ∈ st, t.comma.kind = .symbol .comma)
        ∧ Reached depth s₀ (n + 1) good (ps ++ st.toList.flatMap Step.parts) s := by
  refine (take?_ensures (by decide)).bindFact fun found hfound => ?_
  cases found with
  | none => exact Ensures.ret fun s h => ⟨by simp, by simpa using h⟩
  | some comma =>
    refine (hinner.expression _ _ _ _).bind fun value => Ensures.ret fun s h => ⟨?_, ?_⟩
    · simpa using hfound comma rfl
    · simpa [Step.parts] using h

/-- Where a name is current, it is consumed. -/
lemma identifier_facing {next : TokenKind} :
    Ensures (fun s => s.cursor.next.kind = next ∧ Facing .ident (Reached depth s₀ n good ps) s)
      identifier
      fun id => Facing next (Reached depth s₀ n good (ps ++ [Part.node (.identifier id)])) := by
  rintro s ⟨hnext, hfacing, h⟩
  have hrun : identifier.run s = (⟨(advance.run s).1⟩, (advance.run s).2) := by
    simp [identifier, expect, take?, atKind, currentKind, current, hfacing]
    rfl
  obtain ⟨ht, hfacing', h'⟩ := advance_facing (by decide) s ⟨hnext, hfacing, h⟩
  rw [hrun]
  exact ⟨hfacing', reached_identifier ht (h'.mono (Nat.le_succ n))⟩

lemma numericFor_ensures (hinner : inner.Good depth) {keyword : Token}
    (hkeyword : keyword.kind = .keyword .for_) :
    Ensures (fun s => s.cursor.next.kind = .symbol .eq
        ∧ Facing .ident (Reached depth s₀ (n + 1) good (ps ++ [Part.token keyword])) s)
      (numericFor inner keyword)
      fun st => Reached depth s₀ (n + 1) good (ps ++ [Part.node (.stat st)]) := by
  refine identifier_facing.bind fun var => ?_
  refine (advance_ensures (by decide)).bindFact fun eq heq => ?_
  refine (hinner.expression _ _ _ _).bind fun start => ?_
  refine (expect_ensures (by decide)).bindFact fun comma hcomma => ?_
  refine (hinner.expression _ _ _ _).bind fun limit => ?_
  refine (step_ensures hinner).bindFact fun step hstep => ?_
  refine (expect_ensures (by decide)).bindFact fun opener hopener => ?_
  refine hinner.blockHere.bind fun block => ?_
  refine (expectClosing_ensures (by decide)).bindFact fun close hclose => Ensures.ret fun s h => ?_
  have hform : NumericFor.Form
      ⟨keyword, var, eq, start, comma, limit, step, opener, block, close⟩ :=
    ⟨hkeyword, heq, hcomma, hstep, hopener, hclose⟩
  exact (h.close
    (.stat (.numericFor ⟨keyword, var, eq, start, comma, limit, step, opener, block, close⟩))
      (Nat.zero_le 1)
    (by simp [Node.parts, Stat.parts, NumericFor.parts])
    (by simp [Node.parts, Stat.parts, NumericFor.parts]) hform fun _ _ => trivial).mono
    (Nat.le_succ _)

lemma genericFor_ensures (hinner : inner.Good depth) {keyword : Token}
    (hkeyword : keyword.kind = .keyword .for_) :
    Ensures (Reached depth s₀ (n + 1) good (ps ++ [Part.token keyword]))
      (genericFor inner keyword)
      fun st => Reached depth s₀ (n + 1) good (ps ++ [Part.node (.stat st)]) := by
  refine (commaList_ensures identifier_item).bindFact fun names hnames => ?_
  refine (expect_ensures (by decide)).bindFact fun in_ hin => ?_
  refine hinner.exprList.bindFact fun exprs hexprs => ?_
  refine (expect_ensures (by decide)).bindFact fun opener hopener => ?_
  refine hinner.blockHere.bind fun block => ?_
  refine (expectClosing_ensures (by decide)).bindFact fun close hclose => Ensures.ret fun s h => ?_
  have hform : GenericFor.Form ⟨keyword, names, in_, exprs, opener, block, close⟩ :=
    ⟨hkeyword, hnames, hin, hexprs, hopener, hclose⟩
  exact h.close (.stat (.genericFor ⟨keyword, names, in_, exprs, opener, block, close⟩))
    (Nat.zero_le 1) (by simp [Node.parts, Stat.parts, GenericFor.parts])
    (by simp [Node.parts, Stat.parts, GenericFor.parts]) hform fun _ _ => trivial

lemma forStat_ensures (hinner : inner.Good depth) :
    Ensures (Facing (.keyword .for_) (Reached depth s₀ n good ps)) (forStat inner)
      fun st => Reached depth s₀ (n + 1) good (ps ++ [Part.node (.stat st)]) := by
  refine (advance_ensures (by decide)).bindFact fun keyword hkeyword => ?_
  refine currentKind_ensures fun kind => ?_
  refine nextKind_ensures fun next => ?_
  split
  · next hnumeric =>
    simp only [Bool.and_eq_true, decide_eq_true_eq] at hnumeric
    obtain ⟨rfl, rfl⟩ := hnumeric
    exact numericFor_ensures hinner hkeyword
  · exact (genericFor_ensures hinner hkeyword).weaken fun s h => h.2.2

/-! ### Functions -/

lemma functionName_ensures (hinner : inner.Good depth) :
    Ensures (Reached depth s₀ (n + 1) good ps) (functionName inner)
      fun e => Reached depth s₀ (n + 1) good (ps ++ [Part.node (.ofExpr e)]) := by
  refine atKind_ensures ?_ ?_
  · exact (suffixed_item hinner _ _ _ _).weaken fun s h => h.2
  · refine ((identifier_item _ _ _ _).weaken fun s h => h.2).bind fun id => ?_
    exact Ensures.ret fun s h => h

lemma checkName_ensures {name : Expr} :
    Ensures (Reached depth s₀ n good ps) (checkName name)
      fun _ => Reached depth s₀ n (good ∧ name.IsDotted) ps := by
  unfold checkName
  split
  · refine (error_ensures (by decide)).consequence (fun _ => id) fun _ s h => h.imp fun _ => ?_
    exact False.elim
  · next hname =>
    exact Ensures.ret fun s h => h.imp fun _ hg => ⟨hg, Expr.isDotted_of_firstNonName? hname⟩

lemma methodName_ensures :
    Ensures (Reached depth s₀ (n + 1) good ps) methodName
      fun method s => (∀ m ∈ method, m.colon.kind = .symbol .colon)
        ∧ Reached depth s₀ (n + 1) good (ps ++ method.toList.flatMap MethodName.parts) s := by
  refine (take?_ensures (by decide)).bindFact fun found hfound => ?_
  cases found with
  | none => exact Ensures.ret fun s h => ⟨by simp, by simpa using h⟩
  | some colon =>
    refine (identifier_item _ _ _ _).bind fun name => Ensures.ret fun s h => ⟨?_, ?_⟩
    · simpa using hfound colon rfl
    · simpa [MethodName.parts] using h

lemma functionStat_ensures (hinner : inner.Good depth) :
    Ensures (Facing (.keyword .function_) (Reached depth s₀ n good ps)) (functionStat inner)
      fun st => Reached depth s₀ (n + 1) good (ps ++ [Part.node (.stat st)]) := by
  refine (advance_ensures (by decide)).bindFact fun keyword hkeyword => ?_
  refine (functionName_ensures hinner).bind fun name => ?_
  refine checkName_ensures.bind fun _ => ?_
  refine methodName_ensures.bindFact fun method hmethod => ?_
  refine (funcBody_ensures hinner).bind fun body => Ensures.ret fun s h => ?_
  refine (h.close (.stat (.function keyword name method body)) (Nat.zero_le 1)
    (by simp [Node.parts, Stat.parts])
    (by simp [Node.parts, Stat.parts]) ⟨hkeyword, hmethod⟩ fun _ hg => ?_).imp fun _ hg => hg.1
  exact hg.2

lemma localFunction_ensures (hinner : inner.Good depth) :
    Ensures (fun s => s.cursor.next.kind = .keyword .function_
        ∧ Facing (.keyword .local_) (Reached depth s₀ n good ps) s)
      (localFunction inner)
      fun st => Reached depth s₀ (n + 1) good (ps ++ [Part.node (.stat st)]) := by
  refine (advance_facing (by decide)).bindFact fun keyword hkeyword => ?_
  refine (advance_ensures (by decide)).bindFact fun second hsecond => ?_
  refine (identifier_item _ _ _ _).bind fun name => ?_
  refine (funcBody_ensures hinner).bind fun body => Ensures.ret fun s h => ?_
  exact (h.close (.stat (.localFunction keyword second name body)) (Nat.zero_le 1)
    (by simp [Node.parts, Stat.parts]) (by simp [Node.parts, Stat.parts])
    ⟨hkeyword, hsecond⟩ fun _ _ => trivial).mono (Nat.le_succ _)

/-! ### Assignments -/

/-- Values that were given up leave no trace but an error, and an invalid node in their place. -/
lemma assignedValues_ensures (hinner : inner.Good depth) {eq : Token} :
    Ensures (Reached depth s₀ (n + 1) good (ps ++ [Part.token eq])) (assignedValues inner eq)
      fun l s =>
        l.Listed ∧ Reached depth s₀ (n + 1) good (ps ++ [Part.token eq] ++ l.parts .ofExpr) s := by
  intro s h
  have hstart : Reached depth s (n + 1) True [] s := h.depth_eq ▸ Reached.start h.valid h.pos
  obtain ⟨hlisted, h'⟩ := hinner.exprList s hstart
  generalize hvalues : inner.exprList.run s = r at hlisted h'
  have hrun : (assignedValues inner eq).run s
      = (if !decide (r.2.cursor.current.kind = .symbol .eq) || eq.isMissing then return r.1
        else do
          restore ⟨s.cursor.pos, s.log.size⟩
          error (.empty eq.span.stop) "expected expression after '='" []
          return (Separated.empty eq.span.stop).push (.invalid none [] eq.span.stop) :
        Parse (Separated Expr)).run r.2 := by
    rw [← hvalues]
    rfl
  by_cases hkeep : (!decide (r.2.cursor.current.kind = .symbol .eq) || eq.isMissing) = true
  · rw [hrun, if_pos hkeep]
    exact ⟨hlisted, (h.trans h').imp fun _ hg => hg.1⟩
  · have hdeep : r.2.tooDeep = false := h'.valid.going fun heof => by simp [heof] at hkeep
    have hrestore := run_restore (.ofReached (h.depth_eq ▸ h')) hdeep
    have hmessage : "expected expression after '='" ≠ limitMessage := by decide
    obtain ⟨s', herror, hcursor, hfail⟩ := run_error h (.empty eq.span.stop) hmessage []
    rw [hrun, if_neg hkeep, run_bind hrestore, run_bind herror]
    have hstop : s'.cursor.lastStop = eq.span.stop := by
      have hreads := h.reads
      rw [List.flatMap_append] at hreads
      rw [hcursor]
      exact Cursor.Reads.lastStop_eq hreads
    have hclosed := hfail.closeEmpty (Nat.succ_pos n) (.expr (.invalid none [] eq.span.stop))
      (Nat.zero_le 1) rfl hstop.symm trivial fun _ => False.elim
    exact ⟨Separated.listed_singleton, hclosed.imp fun _ => False.elim⟩

lemma localStat_ensures (hinner : inner.Good depth) :
    Ensures (Facing (.keyword .local_) (Reached depth s₀ n good ps)) (localStat inner)
      fun st => Reached depth s₀ (n + 1) good (ps ++ [Part.node (.stat st)]) := by
  refine (advance_ensures (by decide)).bindFact fun keyword hkeyword => ?_
  refine (commaList_ensures identifier_item).bindFact fun names hnames => ?_
  refine (take?_ensures (by decide)).bindFact fun found hfound => ?_
  cases found with
  | none =>
    refine lastStop_ensures fun anchor => Ensures.ret fun s h => ?_
    exact h.2.close (.stat (.local_ keyword names none (.empty anchor))) (Nat.zero_le 1)
      (by simp [Node.parts, Stat.parts]) (by simp [Node.parts, Stat.parts])
      ⟨hkeyword, hnames, hfound, Separated.commas_empty⟩ fun _ _ => trivial
  | some eq =>
    refine (assignedValues_ensures hinner).bindFact fun values hvalues => Ensures.ret fun s h => ?_
    exact h.close (.stat (.local_ keyword names (some eq) values)) (Nat.zero_le 1)
      (by simp [Node.parts, Stat.parts]) (by simp [Node.parts, Stat.parts])
      ⟨hkeyword, hnames, hfound, hvalues.commas⟩ fun _ _ => trivial

lemma checkTargets_ensures (targets : List Expr) :
    Ensures (Reached depth s₀ n good ps) (checkTargets targets)
      fun _ => Reached depth s₀ n
        (good ∧ ∀ e ∈ targets, e.isInvalid = false → e.isAssignable = true) ps := by
  induction targets generalizing good with
  | nil => exact Ensures.ret fun s h => h.imp fun _ hg => ⟨hg, by simp⟩
  | cons e targets ih =>
    refine (errorIf_ensures (by decide)).bind fun _ => ?_
    refine ih.consequence (fun _ => id) fun _ s h => h.imp fun _ hg => ⟨hg.1.1, ?_⟩
    have hright := hg.1.2
    simp only [Bool.and_eq_false_iff, Bool.not_eq_false'] at hright
    simp only [List.mem_cons, forall_eq_or_imp]
    refine ⟨fun hvalid => ?_, hg.2⟩
    exact hright.resolve_right (by simp [hvalid])

lemma assignment_ensures (hinner : inner.Good depth) {first : Expr} :
    Ensures (Reached depth s₀ (n + 1) good (ps ++ [Part.node (.ofExpr first)]))
      (assignment inner first)
      fun st => Reached depth s₀ (n + 1) good (ps ++ [Part.node (.stat st)]) := by
  refine (itemsAfter_ensures (suffixed_item hinner)).bindFact fun targets htargets => ?_
  refine (checkTargets_ensures targets.items).bind fun _ => ?_
  refine (expect_ensures (by decide)).bindFact fun eq heq => ?_
  refine (assignedValues_ensures hinner).bindFact fun values hvalues => Ensures.ret fun s h => ?_
  refine (h.close (.stat (.assign targets eq values)) (Nat.zero_le 1)
    (by simp [Node.parts, Stat.parts])
    (by simp [Node.parts, Stat.parts]) ⟨htargets, heq, hvalues⟩ fun hs hg e he => ?_).imp
    fun _ hg => hg.1
  refine hg.2 e he (Expr.isInvalid_of_complete (h.complete hs _ ?_))
  simp [Separated.mem_parts he]

/-! ### Expressions as statements -/

lemma notAStatement_ensures {e : Expr} :
    Ensures (Reached depth s₀ n good (ps ++ [Part.node (.ofExpr e)])) (notAStatement e)
      fun st => Reached depth s₀ n good (ps ++ [Part.node (.stat st)]) := by
  refine (error_ensures (by decide)).bind fun _ => Ensures.ret fun s h => ?_
  exact (h.close (.stat (.invalid (some e) [] (Node.ofExpr e).span.start)) (Nat.zero_le 1)
    (by simp [Node.parts, Stat.parts]) (by simp [Node.parts, Stat.parts]) trivial
    fun _ => False.elim).imp fun _ => False.elim

lemma exprStat_ensures (hinner : inner.Good depth) (hkind : kind.passed = 1) :
    Ensures (Facing kind (Reached depth s₀ n good ps)) (exprStat inner)
      fun st => Reached depth s₀ (n + 1) good (ps ++ [Part.node (.stat st)]) := by
  refine (suffixed_ensures hinner (by omega)).bind fun e => ?_
  rw [hkind]
  refine currentKind_ensures fun kind' => ?_
  split
  · exact (assignment_ensures hinner).weaken fun s h => h.2
  · exact (assignment_ensures hinner).weaken fun s h => h.2
  · split
    · next hcall =>
      refine Ensures.ret fun s h => ?_
      exact h.2.close (.stat (.call e)) (Nat.zero_le 1) rfl (by simp [Node.parts, Stat.parts]) hcall
        fun _ _ => trivial
    · exact notAStatement_ensures.weaken fun s h => h.2

/-! ### Statements -/

lemma returnValues_ensures (hinner : inner.Good depth) :
    Ensures (Reached depth s₀ (n + 1) good ps) (returnValues inner)
      fun l s => l.Commas ∧ Reached depth s₀ (n + 1) good (ps ++ l.parts .ofExpr) s := by
  refine currentKind_ensures fun kind => ?_
  split
  · refine lastStop_ensures fun anchor => Ensures.ret fun s h => ⟨Separated.commas_empty, ?_⟩
    simpa using h.2.2
  · exact hinner.exprList.consequence (fun s h => h.2) fun l s h => ⟨h.1.commas, h.2⟩

lemma returnStat_ensures (hinner : inner.Good depth) :
    Ensures (Facing (.keyword .return_) (Reached depth s₀ n good ps)) (returnStat inner)
      fun st => Reached depth s₀ (n + 1) good (ps ++ [Part.node (.stat st)]) := by
  refine (advance_ensures (by decide)).bindFact fun keyword hkeyword => ?_
  refine (returnValues_ensures hinner).bindFact fun values hvalues => ?_
  refine (take?_ensures (by decide)).bindFact fun semi hsemi => Ensures.ret fun s h => ?_
  exact h.close (.stat (.return_ keyword values semi)) (Nat.zero_le 1)
    (by simp [Node.parts, Stat.parts])
    (by simp [Node.parts, Stat.parts]) ⟨hkeyword, hvalues, hsemi⟩ fun _ _ => trivial

lemma labelStat_ensures :
    Ensures (Facing (.symbol .colonColon) (Reached depth s₀ n good ps)) labelStat
      fun st => Reached depth s₀ (n + 1) good (ps ++ [Part.node (.stat st)]) := by
  refine (advance_ensures (by decide)).bindFact fun opening hopening => ?_
  refine (identifier_item _ _ _ _).bind fun name => ?_
  refine (expect_ensures (by decide)).bindFact fun closing hclosing => Ensures.ret fun s h => ?_
  exact h.close (.stat (.label opening name closing)) (Nat.zero_le 1)
    (by simp [Node.parts, Stat.parts])
    (by simp [Node.parts, Stat.parts]) ⟨hopening, hclosing⟩ fun _ _ => trivial

/-- What is skipped was reported, by the parser or by the lexer. -/
lemma skipToken_ensures (hkind : kind ≠ .eof) (hgood : good → kind = .invalid) :
    Ensures (Facing kind (Reached depth s₀ n good ps)) skipToken
      fun st => Reached depth s₀ (n + 1) False (ps ++ [Part.node (.stat st)]) := by
  refine (advance_ensures hkind).bindFact fun t ht => Ensures.ret fun s h => ?_
  have hfail : s.Clean → good → False := fun hs hg =>
    absurd (ht.trans (hgood hg)) (h.complete hs (.token t) (by simp)).2
  exact (h.close (.stat (.invalid none [t] t.span.start)) (Nat.le_refl 1)
    rfl (by simp [Node.parts, Stat.parts]) trivial fun hs hg => (hfail hs hg).elim).imp hfail

/-- A statement takes at least one token. -/
lemma statement_ensures (hinner : inner.Good depth) (hkind : kind.endsBlock = false) :
    Ensures (Facing kind (Reached depth s₀ n good ps)) (statement inner)
      fun st => Reached depth s₀ (n + 1) good (ps ++ [Part.node (.stat st)]) := by
  refine currentKind_facing ?_
  split
  · refine (advance_ensures (by decide)).bindFact fun t ht => Ensures.ret fun s h => ?_
    exact h.close (.stat (.empty t)) (Nat.zero_le 1)
      rfl (by simp [Node.parts, Stat.parts]) ht fun _ _ => trivial
  · exact ifStat_ensures hinner
  · exact whileStat_ensures hinner
  · exact doStat_ensures hinner
  · exact forStat_ensures hinner
  · exact repeatStat_ensures hinner
  · exact functionStat_ensures hinner
  · refine nextKind_ensures fun next => ?_
    split
    · next hnext =>
      subst hnext
      exact localFunction_ensures hinner
    · exact (localStat_ensures hinner).weaken fun s h => h.2
  · exact labelStat_ensures
  · exact returnStat_ensures hinner
  · refine (advance_ensures (by decide)).bindFact fun t ht => Ensures.ret fun s h => ?_
    exact h.close (.stat (.break_ t)) (Nat.zero_le 1)
      rfl (by simp [Node.parts, Stat.parts]) ht fun _ _ => trivial
  · refine (advance_ensures (by decide)).bindFact fun keyword hkeyword => ?_
    refine (identifier_item _ _ _ _).bind fun name => Ensures.ret fun s h => ?_
    exact h.close (.stat (.goto_ keyword name)) (Nat.zero_le 1) (by simp [Node.parts, Stat.parts])
      (by simp [Node.parts, Stat.parts]) hkeyword fun _ _ => trivial
  · exact exprStat_ensures hinner rfl
  · exact exprStat_ensures hinner rfl
  · refine (skipToken_ensures (by decide) fun _ => rfl).consequence (fun _ => id) fun st s h => ?_
    exact h.imp fun _ => False.elim
  · split
    · next hbegins =>
      have hlead : kind.lead = 1 := if_pos hbegins
      refine (hinner.expr 0 _ _ _ _ kind (by omega)).bind fun e => ?_
      rw [hlead]
      exact notAStatement_ensures
    · have heof : kind ≠ .eof := by
        rintro rfl
        cases hkind
      refine errorExpected_facing.bind fun _ => ?_
      refine (skipToken_ensures heof False.elim).consequence (fun _ => id) fun st s h => ?_
      exact h.imp fun _ => False.elim

/-! ### Blocks -/

/-- Nothing comes after a return statement, not even after one read before. -/
def ReturnsLast (afterReturn : Bool) (l : List Stat) : Prop :=
  (afterReturn = true → l = []) ∧ ∀ st ∈ l.dropLast, st.isReturn = false

lemma ReturnsLast.cons {st : Stat} {l : List Stat} (h : ReturnsLast st.isReturn l) :
    ReturnsLast false (st :: l) := by
  refine ⟨by simp, ?_⟩
  cases l with
  | nil => simp
  | cons st' l =>
    have hreturn : st.isReturn = false := by
      cases hst : st.isReturn with
      | false => rfl
      | true => exact absurd (h.1 hst) (by simp)
    simpa [hreturn] using h.2

lemma statements_ensures (hinner : inner.Good depth) (bound : Nat) (afterReturn : Bool) :
    Ensures (Reached depth s₀ n good ps) (statements inner bound afterReturn)
      fun l => Reached depth s₀ n (good ∧ ReturnsLast afterReturn l)
        (ps ++ l.map fun st => .node (.stat st)) := by
  induction bound generalizing n good ps afterReturn with
  | zero =>
    exact Ensures.ret fun s h => by simpa [ReturnsLast] using h
  | succ bound ih =>
    refine currentKind_ensures fun kind => ?_
    split
    · exact Ensures.ret fun s h => by simpa [ReturnsLast] using h.2
    · next hends =>
      refine (statement_ensures hinner (by simpa using hends)).bind fun st => ?_
      refine (errorIf_ensures (by decide)).bind fun _ => ?_
      refine (ih st.isReturn).bind fun l => Ensures.ret fun s h => ?_
      refine Reached.imp (by simpa using h.mono (Nat.le_succ n)) fun _ hg => ?_
      obtain ⟨⟨hgood, rfl⟩, hlast⟩ := hg
      exact ⟨hgood, hlast.cons⟩

lemma cutOffBlock_ensures {anchor : Offset} {tokens : List Token} :
    Ensures (Refused depth s₀ n ps tokens) (cutOffBlock anchor tokens)
      fun b s => b.anchor = anchor
        ∧ Reached depth s₀ n (good ∧ (Node.block b).Sound) (ps ++ (Node.block b).parts) s := by
  refine Ensures.ret fun s h => ⟨rfl, Reached.imp ?_ fun _ => False.elim⟩
  cases tokens with
  | nil =>
    exact ⟨h.toProgress, h.pending _ (Part.adds_of_kept_eq (by simp [Node.parts]))⟩
  | cons t rest =>
    exact ⟨h.toProgress.close (.stat (.invalid none (t :: rest) anchor)) rfl
      (by simp [Node.parts, Stat.parts]) trivial fun _ => False.elim,
      h.pending _ (Part.adds_node (n := .stat (.invalid none (t :: rest) anchor)) (.inl rfl))⟩

lemma blockAround_ensures (hinner : inner.Good (depth + 1)) {anchor : Offset} :
    Ensures (Reached depth s₀ n good ps) (blockAround inner anchor)
      fun b s => b.anchor = anchor
        ∧ Reached depth s₀ n (good ∧ (Node.block b).Sound) (ps ++ (Node.block b).parts) s := by
  refine Ensures.facing fun kind => nested_ensures (Nat.le_add_right n _)
    (fun tokens => cutOffBlock_ensures) ?_
  refine (remaining_ensures fun count => ?_)
  refine ((statements_ensures hinner count false).weaken fun s h => h.2.2).bind fun l => ?_
  refine Ensures.ret fun s h => ⟨rfl, leave_reached (h.imp fun _ hg => ⟨hg.1, hg.2.2⟩)⟩

end Grammar

end LuaFront
