import LuaFront.Proofs.Parser.Bounds
import LuaFront.Proofs.Parser.Chunks
import LuaFront.Proofs.Parser.Floor
import LuaFront.Proofs.Parser.Outermost

/-!
Why parsers end. From whatever state a parser can come to, a statement and a table field take at
least one token, also where the parser goes back from values that are none, and no parser ends
before the place where it began. Thus each loop comes to the end of its tokens or ends before that,
and its bound is never met; and each level in the recursion is one of those that the nesting limit
allows.
-/

namespace LuaFront

open Parse Grammar

namespace ParseState

variable {tokens : List Token} {s s' : ParseState}

/-! ### The states of a parser -/

lemma ofTokens_valid (tokens : List Token) : (ofTokens tokens).Valid where
  eof := by
    simp only [ofTokens, Cursor.ofTokens]
    split
    · rfl
    · split
      · assumption
      · rfl
  depth := Nat.zero_le _
  gaveUp hgave := by cases hgave
  severity := List.forall_mem_nil _

/-- The states that a parser can come to from a state. It takes steps, goes further in where it
enters a level, and further out where it leaves one. -/
inductive Later (s : ParseState) : ParseState → Prop
  | now : s.Later s
  | walk {t u : ParseState} : s.Later t → t.Walk u → s.Later u
  | inside {t : ParseState} : s.Later t → (enter.run t).1 = none → s.Later (enter.run t).2
  | outside {t : ParseState} : s.Later t → s.Later (leave.run t).2

namespace Later

variable {t u : ParseState}

lemma trans (h : s.Later t) (h' : t.Later u) : s.Later u := by
  induction h' with
  | now => exact h
  | walk _ hwalk ih => exact ih.walk hwalk
  | inside _ hnone ih => exact ih.inside hnone
  | outside _ ih => exact ih.outside

lemma valid (h : s.Later t) (hs : s.Valid) : t.Valid := by
  induction h with
  | now => exact hs
  | walk _ hwalk ih => exact hwalk.onward.valid ih
  | inside _ hnone ih =>
    obtain ⟨-, hdepth, henter⟩ := enter_eq_none hnone
    exact henter ▸ ih.atDepth hdepth
  | outside _ ih => exact ih.outward

end Later

/-- The states that a parser of some tokens can come to. -/
def Reachable (tokens : List Token) (s : ParseState) : Prop := (ofTokens tokens).Later s

lemma Reachable.valid (h : Reachable tokens s) : s.Valid := Later.valid h (ofTokens_valid tokens)

/-- All parsers lead from such states to such states. -/
lemma Reachable.run {α : Type} (h : Reachable tokens s) (p : Parse α) [hp : Steady p] :
    Reachable tokens (p.run s).2 := Later.walk h (hp.walk s)

/-- The parsers of what is nested at a state: as many levels are left as the limit allows. -/
def further (s : ParseState) : Level := level (maxDepth + 1 - s.depth)

instance further_steady : s.further.Steady := level_steady

lemma Valid.further_good (h : s.Valid) : s.further.Good s.depth := by
  have hdepth := h.depth
  have hgood := level_good (Nat.sub_le (maxDepth + 1) s.depth)
  rwa [Nat.sub_sub_self (by omega)] at hgood

end ParseState

namespace Grammar

/-! ### The parsers -/

/-- The parsers of the grammar, where what is nested is read by those of a level. -/
inductive Level.Parser (l : Level) : {α : Type} → Parse α → Prop
  | expr (power : Nat) : l.Parser (l.expr power)
  | operators (power : Nat) (first : Expr) : l.Parser (l.operators power first)
  | suffixes (calls : Bool) (base : Expr) : l.Parser (l.suffixes calls base)
  | block (anchor : Offset) : l.Parser (l.block anchor)
  | expression : l.Parser l.expression
  | exprList : l.Parser l.exprList
  | blockHere : l.Parser l.blockHere
  | identifier : l.Parser identifier
  | nameList : l.Parser nameList
  | missingExpr : l.Parser missingExpr
  | tableField : l.Parser (tableField l)
  | table : l.Parser (table l)
  | parameterList : l.Parser parameterList
  | funcBody (keyword : Token) : l.Parser (funcBody l keyword)
  | argList : l.Parser (argList l)
  | callArgs : l.Parser (callArgs l)
  | suffix (base : Expr) : l.Parser (suffix l base)
  | primary : l.Parser (primary l)
  | suffixed (calls : Bool) : l.Parser (suffixed l calls)
  | simpleExpr : l.Parser (simpleExpr l)
  | operand : l.Parser (operand l)
  | exprAround (power : Nat) : l.Parser (exprAround l power)
  | operatorsAround (power : Nat) (first : Expr) : l.Parser (operatorsAround l power first)
  | suffixesAround (calls : Bool) (base : Expr) : l.Parser (suffixesAround l calls base)
  | ifStat : l.Parser (ifStat l)
  | whileStat : l.Parser (whileStat l)
  | doStat : l.Parser (doStat l)
  | repeatStat : l.Parser (repeatStat l)
  | forStat : l.Parser (forStat l)
  | functionName : l.Parser (functionName l)
  | functionStat : l.Parser (functionStat l)
  | localFunction : l.Parser (localFunction l)
  | assignedValues (eq : Token) : l.Parser (assignedValues l eq)
  | localStat : l.Parser (localStat l)
  | assignment (first : Expr) : l.Parser (assignment l first)
  | notAStatement (e : Expr) : l.Parser (notAStatement e)
  | exprStat : l.Parser (exprStat l)
  | returnStat : l.Parser (returnStat l)
  | labelStat : l.Parser labelStat
  | statement : l.Parser (statement l)
  | blockAround (anchor : Offset) : l.Parser (blockAround l anchor)
  | chunk : l.Parser chunk

lemma Level.Parser.steady {α : Type} {l : Level} [l.Steady] {p : Parse α} (h : l.Parser p) :
    Parse.Steady p := by
  cases h <;> infer_instance

/-! ### Loops -/

/-- With a bound of at least the number of tokens ahead, a loop ends before the bound is met. -/
def EndsFrom {α : Type} (s : ParseState) (loop : Nat → Parse α) : Prop :=
  ∀ bound, s.cursor.ahead.length ≤ bound → (loop bound).run s = (loop s.cursor.ahead.length).run s

/-- Each step takes the stray token that it begins with. -/
lemma strays_ample : Ample 0 strays := by
  intro n
  induction n with
  | zero =>
    intro s hs hdepth hn
    have heof := current_of_done hs hn
    rw [run_strays_end heof, run_strays_end heof]
  | succ n ih =>
    intro s hs hdepth hn
    by_cases heof : s.cursor.current.kind = .eof
    · rw [run_strays_end heof, run_strays_end heof]
    · have hstray := ParseState.Walk.stray s ("unexpected " ++ s.cursor.current.kind.describe)
      have hlt := Nat.lt_of_lt_of_le (ahead_lt_of_advance hs heof) hn
      rw [run_strays_succ, run_strays_succ, if_neg heof, if_neg heof, skipStray, skipStray,
        run_bind (run_advance s), run_bind (run_advance s), run_bind (run_error_eq ..),
        run_bind (run_error_eq ..)]
      refine Agree.run_bind (fun rest s hs hdepth hn => ?_) (hstray.onward.valid hs) hdepth
        (Nat.le_trans (Steady.onward _).cursor.length_le (Nat.le_of_lt_succ hlt))
      rw [StateT.run_bind, StateT.run_bind, ih s hs hdepth hn]

/-- The loops of the parsers end by themselves. -/
structure LoopsEnd (s : ParseState) : Prop where
  items : ∀ {α : Type} {item : Parse α}, s.further.Parser item → ∀ list,
    EndsFrom s fun bound => moreItems item bound list
  fields : ∀ fields, EndsFrom s fun bound => tableFields s.further bound fields
  parameters : ∀ params, EndsFrom s fun bound => parameters (bound + 1) params
  clauses : EndsFrom s (elseIfs s.further)
  statements : ∀ afterReturn, EndsFrom s fun bound => statements s.further bound afterReturn
  strays : s.depth = 0 → EndsFrom s strays

lemma loops_end {s : ParseState} (hs : s.Valid) : LoopsEnd s where
  items hitem list _ hbound := by
    have := hitem.steady
    exact moreItems_ample.run_eq hs rfl hbound
  fields fields _ hbound := (tableFields_ample hs.further_good).run_eq hs rfl hbound
  parameters params _ hbound := parameters_ample.run_eq hs rfl hbound
  clauses _ hbound := elseIfs_ample.run_eq hs rfl hbound
  statements afterReturn _ hbound := (statements_ample hs.further_good).run_eq hs rfl hbound
  strays hdepth _ hbound := strays_ample.run_eq hs hdepth hbound

/-- The recursion of the parsers ends by itself: each level calls the one in it, of which there are
as many as the nesting limit allows, and below the deepest one nothing is read. -/
structure RecursionEnds (s : ParseState) : Prop where
  inner : s.further = { s with depth := s.depth + 1 : ParseState }.further.around
  floor : ∀ floor, Level.Alike s.depth s.further (levelOver floor (maxDepth + 1 - s.depth))

lemma recursion_ends {s : ParseState} (hs : s.Valid) : RecursionEnds s where
  inner := by
    have hdepth := hs.depth
    rw [ParseState.further, show maxDepth + 1 - s.depth = maxDepth + 1 - (s.depth + 1) + 1 by omega]
    rfl
  floor floor := by
    have hdepth := hs.depth
    have halike := level_alike floor (Nat.sub_le (maxDepth + 1) s.depth)
    rwa [Nat.sub_sub_self (by omega)] at halike

/-- **Parsers get on and end.** From every state that a parser of any tokens can come to:

* a statement takes at least one token where no block ends, also if its values are given back;
* so does a table field where one begins;
* no parser ends before the place where it began, and all end in such a state again;
* the loops end before their bounds are met, and nothing is read below the deepest level that the
  nesting limit allows, so that no run is cut short;
* and a chunk is read to the end of input. -/
theorem parsers_end {tokens : List Token} {s : ParseState} (hs : s.Reachable tokens) :
    (s.cursor.current.kind.endsBlock = false →
      s.cursor.pos < ((statement s.further).run s).2.cursor.pos)
    ∧ (s.cursor.current.kind.canBeginExpr = true ∨ s.cursor.current.kind = .symbol .openBracket →
      s.cursor.pos < ((tableField s.further).run s).2.cursor.pos)
    ∧ (∀ {α : Type} {p : Parse α}, s.further.Parser p →
      s.cursor.pos ≤ (p.run s).2.cursor.pos ∧ (p.run s).2.Reachable tokens)
    ∧ LoopsEnd s ∧ RecursionEnds s
    ∧ (s.depth = 0 → (chunk.run s).2.cursor.current.kind = .eof) := by
  have hvalid := hs.valid
  refine ⟨fun hkind => ?_, fun hkind => ?_, fun hp => ?_, loops_end hvalid, recursion_ends hvalid,
    fun hdepth => (chunk_reached hvalid hdepth).2.1⟩
  · exact (Steady.onward s).cursor.pos_lt (statement_shortens hvalid.further_good hvalid rfl hkind)
  · refine (Steady.onward s).cursor.pos_lt (tableField_shortens hvalid.further_good hvalid rfl ?_)
    simpa using hkind
  · have := hp.steady
    exact ⟨(Steady.onward s).cursor.pos_le, hs.run _⟩

/-- In `a = b = c` the value of the first assignment is given back. -/
theorem parsers_end_given_back :
    let word : Token := ⟨.ident, "a", ⟨0, 1⟩, []⟩
    let eq : Token := ⟨.symbol .eq, "=", ⟨2, 3⟩, []⟩
    let s : ParseState := { ParseState.ofTokens [word, eq, word, eq, word] with depth := 1 }
    0 < ((statement s.further).run s).2.cursor.pos
      ∧ ((statement s.further).run s).2.cursor.pos = 2 := by
  intro word eq s
  have hs : s.Reachable [word, eq, word, eq, word] := .inside .now rfl
  exact ⟨(parsers_end hs).1 rfl, by decide +kernel⟩

end Grammar

end LuaFront
