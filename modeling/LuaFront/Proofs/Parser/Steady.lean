import LuaFront.Grammar.Chunk
import LuaFront.Proofs.Parser.Reached
import LuaFront.Proofs.Parser.Running

/-!
What a parser can do to its state, step by step, and what no parser does. A parser never goes back
behind the place where it began, takes no report back that was made before, and leaves each level
that it enters; and once the rest of the input was given up, that is final. That a parser takes only
such steps is a class, so that it is found for what follows a step from the way the rest of the
parser is put together.
-/

namespace LuaFront

/-- The second state is the first one or a later one, on the same level. -/
structure ParseState.Onward (s s' : ParseState) : Prop where
  cursor : s.cursor.Onward s'.cursor
  depth : s'.depth = s.depth
  tooDeep : s.tooDeep = true → s'.tooDeep = true
  log : s.log.entries <+: s'.log.entries
  valid : s.Valid → s'.Valid

namespace ParseState.Onward

variable {s s' s'' : ParseState}

lemma refl (s : ParseState) : s.Onward s := ⟨.refl _, rfl, id, List.prefix_refl _, id⟩

lemma trans (h : s.Onward s') (h' : s'.Onward s'') : s.Onward s'' where
  cursor := h.cursor.trans h'.cursor
  depth := h'.depth.trans h.depth
  tooDeep := h'.tooDeep ∘ h.tooDeep
  log := h.log.trans h'.log
  valid := h'.valid ∘ h.valid

/-- Giving up is final, so that it did not happen before. -/
lemma going (h : s.Onward s') (hdeep : s'.tooDeep = false) : s.tooDeep = false :=
  Bool.eq_false_iff.2 fun hgave => Bool.eq_false_iff.1 hdeep (h.tooDeep hgave)

/-- Where the limit is exceeded. -/
lemma refuse (s : ParseState) : s.Onward
    { s with
      cursor := s.cursor.finish
      log := Parse.told s (refusal s.cursor.current)
      tooDeep := true } where
  cursor := .finish s.cursor
  depth := rfl
  tooDeep _ := rfl
  log := Parse.told_onward ..
  valid hs := by
    refine ⟨hs.eof, hs.depth, fun _ => ⟨Cursor.current_finish hs.eof, ?_⟩, fun d hd => ?_⟩
    · exact Parse.told_ne_nil (fun hgave => (hs.gaveUp hgave).2) _
    · rcases Parse.mem_told hd with hd | rfl
      · exact hs.severity d hd
      · rfl

/-- What happens one level further in leads on from outside. -/
lemma leave (hdepth : s.depth < maxDepth)
    (h : { s with depth := s.depth + 1 : ParseState }.Onward s') :
    s.Onward (Parse.leave.run s').2 := by
  have hback : s'.depth - 1 = s.depth := Nat.sub_eq_of_eq_add h.depth
  have hrun : (Parse.leave.run s').2 = { s' with depth := s'.depth - 1 } := rfl
  rw [hrun, hback]
  refine ⟨h.cursor, rfl, h.tooDeep, h.log, fun hs => ?_⟩
  exact (h.valid (hs.atDepth hdepth)).atDepth hs.depth

lemma advance (s : ParseState) : s.Onward { s with cursor := s.cursor.advance } := by
  refine ⟨.advance s.cursor, rfl, id, List.prefix_refl _, fun hs => ?_⟩
  have heof : s.cursor.advance.eof = s.cursor.eof := by
    obtain ⟨l, -, -, heof⟩ := Cursor.Onward.advance s.cursor
    exact heof
  refine ⟨heof ▸ hs.eof, hs.depth, fun hgave => ?_, hs.severity⟩
  obtain ⟨hcurrent, hlog⟩ := hs.gaveUp hgave
  have hcursor : s.cursor.advance = s.cursor := Cursor.advance_of_eof hcurrent
  exact ⟨hcursor.symm ▸ hcurrent, hlog⟩

lemma report (s : ParseState) (span : Span) (message : String) (labels : List Label) :
    s.Onward { s with log := Parse.told s (.error span message labels) } := by
  refine ⟨.refl _, rfl, id, Parse.told_onward .., fun hs =>
    ⟨hs.eof, hs.depth, fun hgave => ?_, ?_⟩⟩
  · obtain ⟨hcurrent, hlog⟩ := hs.gaveUp hgave
    exact ⟨hcurrent, Parse.told_ne_nil (fun _ => hlog) _⟩
  · intro d hd
    rcases Parse.mem_told hd with hd | rfl
    · exact hs.severity d hd
    · rfl

/-- To what is reached by reading parts. -/
lemma ofReached {n : Nat} {good : Prop} {ps : List Part} (h : Reached s.depth s n good ps s') :
    s.Onward s' := ⟨h.reads.onward, h.depth_eq, h.tooDeep, h.log, fun _ => h.valid⟩

/-- Going back to the first state, with what is known about giving up. -/
lemma retry (h : s.Onward s') (hkind : s'.cursor.current.kind ≠ .eof) :
    s.Onward { s with tooDeep := s'.tooDeep } := by
  refine ⟨.refl _, rfl, h.tooDeep, List.prefix_refl _, fun hs => { hs with gaveUp := ?_ }⟩
  exact fun hgave => absurd ((h.valid hs).gaveUp hgave).1 hkind

end ParseState.Onward

namespace ParseState

/-- The reports about what has been passed: the checks of whole statements and of their targets,
and that of values from which the parser has gone back. -/
def lookingBack : List String :=
  ["'return' must be the last statement in a block", "function name must be a dotted name",
    "cannot assign to this expression", "syntax error: expected '=' or a function call",
    "expected expression after '='"]

/-- What the steps of a parser do to its state. All other reports are about the current token, or
about a stray token that is skipped. -/
inductive Walk : ParseState → ParseState → Prop
  | refl (s : ParseState) : Walk s s
  | trans {s s' s'' : ParseState} : Walk s s' → Walk s' s'' → Walk s s''
  | advance (s : ParseState) : Walk s { s with cursor := s.cursor.advance }
  | report (s : ParseState) {span : Span} {message : String} (labels : List Label) :
    (message ∈ lookingBack ∨ span = s.cursor.current.span) →
    Walk s { s with log := Parse.told s (.error span message labels) }
  | stray (s : ParseState) (message : String) :
    Walk s { s with
      cursor := s.cursor.advance
      log := Parse.told s (.error s.cursor.current.span message []) }
  | refuse (s : ParseState) : Walk s
      { s with
        cursor := s.cursor.finish
        log := Parse.told s (refusal s.cursor.current)
        tooDeep := true }
  | level {s s' : ParseState} : s.depth < maxDepth →
    Walk { s with depth := s.depth + 1 } s' → Walk s { s' with depth := s'.depth - 1 }
  | retry {s s' : ParseState} : Walk s s' → s'.cursor.current.kind ≠ .eof →
    Walk s { s with tooDeep := s'.tooDeep }

lemma Walk.onward {s s' : ParseState} (h : s.Walk s') : s.Onward s' := by
  induction h with
  | refl s => exact .refl s
  | trans _ _ ih ih' => exact ih.trans ih'
  | advance s => exact .advance s
  | report s labels _ => exact .report s ..
  | stray s message =>
    have hreport := Onward.report { s with cursor := s.cursor.advance } s.cursor.current.span
      message []
    exact (Onward.advance s).trans hreport
  | refuse s => exact .refuse s
  | level hdepth _ ih => exact .leave hdepth ih
  | retry _ hkind ih => exact ih.retry hkind

/-- At the end of input a parser stays there. -/
lemma Walk.cursor_eq {s s' : ParseState} (h : s.Walk s') (hs : s.Valid)
    (heof : s.cursor.current.kind = .eof) : s'.cursor = s.cursor := by
  induction h with
  | refl s => rfl
  | trans h _ ih ih' =>
    have hfirst := ih hs heof
    exact (ih' (h.onward.valid hs) (hfirst.symm ▸ heof)).trans hfirst
  | advance s | stray s _ => exact Cursor.advance_of_eof heof
  | report s labels _ => rfl
  | refuse s => exact Cursor.finish_of_eof heof
  | level hdepth _ ih => exact ih (hs.atDepth hdepth) heof
  | retry _ _ _ => rfl

end ParseState

namespace Parse

open ParseState

variable {α β : Type}

/-- A parser that takes such steps only. -/
class Steady (p : Parse α) : Prop where
  walk : ∀ s : ParseState, s.Walk (p.run s).2

namespace Steady

lemma onward {p : Parse α} [self : Steady p] (s : ParseState) : s.Onward (p.run s).2 :=
  (walk s).onward

lemma keeps (p : Parse α) [h : Steady p] (s : ParseState) (hs : s.tooDeep = true) :
    (p.run s).2.tooDeep = true := (h.onward s).tooDeep hs

lemma log_ne_nil (p : Parse α) [h : Steady p] {s : ParseState} (hs : s.log.entries ≠ []) :
    (p.run s).2.log.entries ≠ [] :=
  fun hlog => hs (List.prefix_nil.1 (hlog ▸ (h.onward s).log))

instance ret {a : α} : Steady (pure a : Parse α) := ⟨Walk.refl⟩

instance bind {p : Parse α} {f : α → Parse β} [hp : Steady p] [hf : ∀ a, Steady (f a)] :
    Steady (p >>= f) :=
  ⟨fun s => (hp.walk s).trans ((hf _).walk _)⟩

instance ite {c : Prop} [Decidable c] {p q : Parse α} [Steady p] [Steady q] :
    Steady (if c then p else q) := by
  split <;> infer_instance

/-- The rule for a step whose result is then told apart by cases. -/
lemma cases {p : Parse α} {f : α → Parse β} [Steady p] (hf : ∀ a, Steady (f a)) :
    Steady (p >>= f) := bind

end Steady

/-! ### Steps -/

instance current_steady : Steady current := ⟨Walk.refl⟩

instance currentKind_steady : Steady currentKind := ⟨Walk.refl⟩

instance nextKind_steady : Steady nextKind := ⟨Walk.refl⟩

instance atKind_steady {kind : TokenKind} : Steady (atKind kind) := ⟨Walk.refl⟩

instance lastStop_steady : Steady lastStop := ⟨Walk.refl⟩

instance remaining_steady : Steady remaining := ⟨Walk.refl⟩

instance advance_steady : Steady advance := ⟨Walk.advance⟩

instance take?_steady {kind : TokenKind} : Steady (take? kind) := by
  unfold take?
  infer_instance

class LooksBack (message : String) : Prop where
  mem : message ∈ lookingBack

instance looksBack_return : LooksBack "'return' must be the last statement in a block" :=
  ⟨by decide⟩

instance looksBack_name : LooksBack "function name must be a dotted name" := ⟨by decide⟩

instance looksBack_target : LooksBack "cannot assign to this expression" := ⟨by decide⟩

instance looksBack_statement : LooksBack "syntax error: expected '=' or a function call" :=
  ⟨by decide⟩

instance looksBack_values : LooksBack "expected expression after '='" := ⟨by decide⟩

instance error_steady {span : Span} {message : String} [h : LooksBack message]
    {labels : List Label} : Steady (error span message labels) := by
  refine ⟨fun s => ?_⟩
  rw [run_error_eq]
  exact .report s labels (.inl h.mem)

instance errorIf_steady {wrong : Bool} {span : Span} {message : String} [LooksBack message] :
    Steady (errorIf wrong span message) := by
  unfold errorIf
  infer_instance

instance errorExpected_steady {what : String} {labels : List Label} :
    Steady (errorExpected what labels) := by
  refine ⟨fun s => ?_⟩
  have hrun : (errorExpected what labels).run s
      = (error s.cursor.current.span ("expected " ++ what ++ ", found "
        ++ s.cursor.current.kind.describe) labels).run s := rfl
  rw [hrun, run_error_eq]
  exact .report s labels (.inr rfl)

/-- After a report there is one to the end. -/
lemma run_error_ne_nil {span : Span} {message : String} {labels : List Label} {f : Unit → Parse β}
    [hf : ∀ a, Steady (f a)] {s : ParseState} (hs : s.tooDeep = true → s.log.entries ≠ []) :
    ((error span message labels >>= f).run s).2.log.entries ≠ [] := by
  rw [run_bind (run_error_eq s span message labels)]
  exact Steady.log_ne_nil (f ()) (told_ne_nil hs _)

lemma run_errorExpected_ne_nil {what : String} {labels : List Label} {f : Unit → Parse β}
    [hf : ∀ a, Steady (f a)] {s : ParseState} (hs : s.tooDeep = true → s.log.entries ≠ []) :
    ((errorExpected what labels >>= f).run s).2.log.entries ≠ [] :=
  run_error_ne_nil hs

instance expect_steady {kind : TokenKind} : Steady (expect kind) := by
  unfold expect
  refine Steady.cases fun found => ?_
  cases found <;> infer_instance

instance expectClosing_steady {kind : TokenKind} {opener : Token} :
    Steady (expectClosing kind opener) := by
  unfold expectClosing
  refine Steady.cases fun found => ?_
  cases found <;> infer_instance

instance nested_steady {refused : List Token → Parse α} {inner : Parse α}
    [h : ∀ tokens, Steady (refused tokens)] [hinner : Steady inner] :
    Steady (nested refused inner) := by
  refine ⟨fun s => ?_⟩
  cases hdeep : s.tooDeep with
  | true =>
    rw [run_nested_gaveUp hdeep]
    exact (h []).walk s
  | false =>
    by_cases hdepth : maxDepth ≤ s.depth
    · rw [run_nested_refused hdeep hdepth]
      exact (Walk.refuse s).trans ((h _).walk _)
    · have hdepth := Nat.not_le.1 hdepth
      rw [run_nested_entered hdeep hdepth]
      exact .level hdepth (hinner.walk _)

/-- Going back to an earlier state undoes what was done since then, unless the parser gave up. -/
lemma run_restore_onward {s s' : ParseState} (h : s.Onward s') :
    (restore ⟨s.cursor.pos, s.log.size⟩).run s' = ((), { s with tooDeep := s'.tooDeep }) := by
  have hrun : (restore ⟨s.cursor.pos, s.log.size⟩).run s'
      = ((), { s' with
          cursor := s'.cursor.goTo s.cursor.pos
          log := s'.log.truncate s.log.size }) := rfl
  have htruncate : s'.log.truncate s.log.size = s.log := by
    rw [Log.truncate, Log.size, ← List.prefix_iff_eq_take.1 h.log]
  rw [hrun, h.cursor.goTo_pos, htruncate, h.depth]

/-- Going back leaves no trace, if the rest of the input was not given up. -/
lemma run_restore {s s' : ParseState} (h : s.Onward s') (hdeep : s'.tooDeep = false) :
    (restore ⟨s.cursor.pos, s.log.size⟩).run s' = ((), s) := by
  rw [run_restore_onward h, hdeep, ← h.going hdeep]

end Parse

/-! ### Parsers -/

namespace Grammar

open Parse

class Level.Steady (l : Level) : Prop where
  expr : ∀ power, Parse.Steady (l.expr power)
  operators : ∀ power first, Parse.Steady (l.operators power first)
  suffixes : ∀ calls base, Parse.Steady (l.suffixes calls base)
  block : ∀ anchor, Parse.Steady (l.block anchor)

attribute [instance] Level.Steady.expr Level.Steady.operators Level.Steady.suffixes
  Level.Steady.block

instance Level.bottom_steady : Level.bottom.Steady :=
  ⟨fun _ => .ret, fun _ _ => .ret, fun _ _ => .ret, fun _ => .ret⟩

variable {inner : Level} [inner.Steady] {keyword : Token}

instance identifier_steady : Steady identifier := by
  unfold identifier
  infer_instance

section Lists

variable {α : Type} {item : Parse α} [Steady item]

instance moreItems_steady {bound : Nat} {list : Separated α} :
    Steady (moreItems item bound list) := by
  induction bound generalizing list with
  | zero => exact .ret
  | succ bound ih =>
    refine Steady.cases fun found => ?_
    cases found <;> infer_instance

instance itemsAfter_steady {anchor : Offset} {first : α} :
    Steady (itemsAfter item anchor first) := by
  unfold itemsAfter
  infer_instance

instance commaList_steady : Steady (commaList item) := by
  unfold commaList
  infer_instance

end Lists

instance nameList_steady : Steady nameList := commaList_steady

instance blockHere_steady : Steady inner.blockHere := by
  unfold Level.blockHere
  infer_instance

/-! #### Expressions -/

instance expression_steady : Steady inner.expression := Level.Steady.expr 0

instance exprList_steady : Steady inner.exprList := commaList_steady

instance missingExpr_steady : Steady missingExpr := by
  unfold missingExpr
  infer_instance

instance tableField_steady : Steady (tableField inner) := by
  refine Steady.cases fun kind => ?_
  split <;> infer_instance

instance tableFields_steady {bound : Nat} {fields : Separated TableField} :
    Steady (tableFields inner bound fields) := by
  induction bound generalizing fields with
  | zero => exact .ret
  | succ bound ih =>
    refine Steady.cases fun kind => ?_
    split
    · refine Steady.cases fun field => Steady.cases fun next => ?_
      split <;> infer_instance
    · exact .ret

instance parameters_steady {bound : Nat} {params : Separated Param} :
    Steady (parameters bound params) := by
  induction bound generalizing params with
  | zero => exact .ret
  | succ bound ih =>
    refine Steady.cases fun kind => ?_
    split
    · refine Steady.cases fun t => Steady.cases fun found => ?_
      cases found <;> infer_instance
    · infer_instance
    · infer_instance

instance parameterList_steady : Steady parameterList := by
  unfold parameterList
  infer_instance

instance table_steady : Steady (table inner) := by
  unfold table
  infer_instance

instance funcBody_steady : Steady (funcBody inner keyword) := by
  unfold funcBody
  infer_instance

instance argList_steady : Steady (argList inner) := by
  unfold argList
  infer_instance

instance callArgs_steady : Steady (callArgs inner) := by
  refine Steady.cases fun kind => ?_
  split <;> infer_instance

instance suffix_steady {base : Expr} : Steady (suffix inner base) := by
  refine Steady.cases fun kind => ?_
  split <;> infer_instance

instance primary_steady : Steady (primary inner) := by
  refine Steady.cases fun kind => ?_
  split <;> infer_instance

instance suffixed_steady {calls : Bool} : Steady (suffixed inner calls) := by
  unfold suffixed
  infer_instance

instance literal_steady {kind : LiteralKind} : Steady (literal kind) := by
  unfold literal
  infer_instance

instance simpleExpr_steady : Steady (simpleExpr inner) := by
  refine Steady.cases fun kind => ?_
  split <;> infer_instance

instance operand_steady : Steady (operand inner) := by
  refine Steady.cases fun kind => ?_
  split <;> infer_instance

instance cutOff_steady {kept : Option Expr} {tokens : List Token} :
    Steady (cutOff kept tokens) := by
  unfold cutOff
  infer_instance

/-! #### Statements -/

instance elseIfs_steady {bound : Nat} : Steady (elseIfs inner bound) := by
  induction bound with
  | zero => exact .ret
  | succ bound ih =>
    refine Steady.cases fun found => ?_
    cases found <;> infer_instance

instance else_steady : Steady (else_ inner) := by
  refine Steady.cases fun found => ?_
  cases found <;> infer_instance

instance step_steady : Steady (step inner) := by
  refine Steady.cases fun found => ?_
  cases found <;> infer_instance

instance methodName_steady : Steady methodName := by
  refine Steady.cases fun found => ?_
  cases found <;> infer_instance

instance functionName_steady : Steady (functionName inner) := by
  unfold functionName
  infer_instance

instance checkName_steady {name : Expr} : Steady (checkName name) := by
  unfold checkName
  split <;> infer_instance

/-- What stands in for the values where the parser goes back. -/
def noValues (anchor : Offset) : Separated Expr :=
  (Separated.empty anchor).push (.invalid none [] anchor)

/-- The values are read, or else the state is as before but for the error. -/
lemma run_assignedValues (eq : Token) (s : ParseState) :
    (assignedValues inner eq).run s
      = if (inner.exprList.run s).2.cursor.current.kind = .symbol .eq ∧ eq.isMissing = false then
          (error (.empty eq.span.stop) "expected expression after '='" []
            >>= fun _ => return noValues eq.span.stop : Parse (Separated Expr)).run
              { s with tooDeep := (inner.exprList.run s).2.tooDeep }
        else inner.exprList.run s := by
  have hrun : (assignedValues inner eq).run s
      = (if !decide ((inner.exprList.run s).2.cursor.current.kind = .symbol .eq) || eq.isMissing
          then return (inner.exprList.run s).1
          else do
            restore ⟨s.cursor.pos, s.log.size⟩
            error (.empty eq.span.stop) "expected expression after '='" []
            return noValues eq.span.stop : Parse (Separated Expr)).run
              (inner.exprList.run s).2 := rfl
  rw [hrun]
  by_cases hback : (inner.exprList.run s).2.cursor.current.kind = .symbol .eq
      ∧ eq.isMissing = false
  · rw [if_pos hback, hback.1, hback.2]
    exact run_bind (run_restore_onward (Steady.onward s))
  · rw [if_neg hback, if_pos]
    · rfl
    · simpa [imp_iff_not_or] using hback

instance assignedValues_steady {eq : Token} : Steady (assignedValues inner eq) := by
  refine ⟨fun s => ?_⟩
  have hvalues := Steady.walk (p := inner.exprList) s
  rw [run_assignedValues]
  split
  · next hback =>
    exact (hvalues.retry (by simp [hback.1])).trans (Steady.bind.walk _)
  · exact hvalues

instance checkTargets_steady {targets : List Expr} : Steady (checkTargets targets) := by
  induction targets with
  | nil => exact .ret
  | cons e targets ih => exact .bind

instance assignment_steady {first : Expr} : Steady (assignment inner first) := by
  unfold assignment
  infer_instance

instance notAStatement_steady {e : Expr} : Steady (notAStatement e) := by
  unfold notAStatement
  infer_instance

instance exprStat_steady : Steady (exprStat inner) := by
  refine Steady.cases fun e => Steady.cases fun kind => ?_
  split <;> infer_instance

instance ifStat_steady : Steady (ifStat inner) := by
  unfold ifStat
  infer_instance

instance whileStat_steady : Steady (whileStat inner) := by
  unfold whileStat
  infer_instance

instance doStat_steady : Steady (doStat inner) := by
  unfold doStat
  infer_instance

instance repeatStat_steady : Steady (repeatStat inner) := by
  unfold repeatStat
  infer_instance

instance numericFor_steady : Steady (numericFor inner keyword) := by
  unfold numericFor
  infer_instance

instance genericFor_steady : Steady (genericFor inner keyword) := by
  unfold genericFor
  infer_instance

instance forStat_steady : Steady (forStat inner) := by
  unfold forStat
  infer_instance

instance functionStat_steady : Steady (functionStat inner) := by
  unfold functionStat
  infer_instance

instance localFunction_steady : Steady (localFunction inner) := by
  unfold localFunction
  infer_instance

instance localStat_steady : Steady (localStat inner) := by
  refine Steady.cases fun keyword => Steady.cases fun names => Steady.cases fun found => ?_
  cases found <;> infer_instance

instance returnValues_steady : Steady (returnValues inner) := by
  unfold returnValues
  infer_instance

instance returnStat_steady : Steady (returnStat inner) := by
  unfold returnStat
  infer_instance

instance labelStat_steady : Steady labelStat := by
  unfold labelStat
  infer_instance

instance skipToken_steady : Steady skipToken := by
  unfold skipToken
  infer_instance

instance statement_steady : Steady (statement inner) := by
  refine Steady.cases fun kind => ?_
  split <;> infer_instance

instance statements_steady {bound : Nat} {afterReturn : Bool} :
    Steady (statements inner bound afterReturn) := by
  induction bound generalizing afterReturn with
  | zero => exact .ret
  | succ bound ih => exact .bind

/-! #### The parsers of the next level out -/

instance exprAround_steady {power : Nat} : Steady (exprAround inner power) := by
  unfold exprAround
  infer_instance

instance operatorsAround_steady {power : Nat} {first : Expr} :
    Steady (operatorsAround inner power first) := by
  refine Steady.cases fun kind => ?_
  split <;> infer_instance

instance suffixesAround_steady {calls : Bool} {base : Expr} :
    Steady (suffixesAround inner calls base) := by
  unfold suffixesAround
  infer_instance

instance cutOffBlock_steady {anchor : Offset} {tokens : List Token} :
    Steady (cutOffBlock anchor tokens) := .ret

instance blockAround_steady {anchor : Offset} : Steady (blockAround inner anchor) := by
  unfold blockAround
  infer_instance

instance Level.around_steady : inner.around.Steady where
  expr _ := exprAround_steady
  operators _ _ := operatorsAround_steady
  suffixes _ _ := suffixesAround_steady
  block _ := blockAround_steady

instance level_steady {k : Nat} : (level k).Steady := by
  induction k with
  | zero => exact Level.bottom_steady
  | succ k ih => exact Level.around_steady

instance outermost_steady : outermost.Steady := level_steady

/-- What is skipped is reported right away. -/
lemma skipStray_steady {β : Type} {f : Token → Parse β} [hf : ∀ stray, Steady (f stray)] :
    Steady (advance >>= fun stray => do
      error stray.span ("unexpected " ++ stray.kind.describe) []
      f stray : Parse β) := by
  refine ⟨fun s => ?_⟩
  rw [run_bind (run_advance s), run_bind (run_error_eq ..)]
  exact (ParseState.Walk.stray s _).trans ((hf _).walk _)

instance strays_steady {bound : Nat} : Parse.Steady (strays bound) := by
  induction bound with
  | zero => exact .ret
  | succ bound ih =>
    refine Steady.cases fun found => ?_
    split
    · exact .ret
    · exact skipStray_steady

instance chunk_steady : Parse.Steady chunk := by
  unfold chunk
  infer_instance

end Grammar

end LuaFront
