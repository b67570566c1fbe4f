import LuaFront.Proofs.Chunk.Outcome
import LuaFront.Proofs.Parser.Steady
import Mathlib.Data.List.Chain

/-!
Where the parser reports something twice. An error is held back only if the last one begins at the
same offset. That is enough as long as the reports move on with the tokens; after a report that
looks back, one at the offset of an earlier report is not held back any more.
-/

namespace LuaFront

open ParseState

/-- The diagnostic is about something that had been passed when it was reported. -/
def Diagnostic.looksBack (d : Diagnostic) : Bool := d.message ∈ lookingBack

namespace Log

/-- The entries that do not look back, in the order in which they were reported. -/
def forward (l : Log) : List Diagnostic := l.entries.filter fun d => !d.looksBack

lemma forward_push (l : Log) (d : Diagnostic) :
    (l.push d).forward = l.forward ++ if d.looksBack then [] else [d] := by
  rw [forward, push, List.filter_append]
  cases hback : d.looksBack <;> simp [forward, hback]

end Log

namespace ParseState

/-- The tokens ahead and the reports so far stand in the order of the text, except for the reports
that look back; and no report begins where the one before it does. -/
structure InTurn (s : ParseState) : Prop where
  ahead : (s.cursor.ahead ++ [s.cursor.eof]).Pairwise fun t u => t.span.start ≤ u.span.start
  passed : ∀ d ∈ s.log.forward, d.span.start ≤ s.cursor.current.span.start
  forward : s.log.forward.Pairwise fun d e => d.span.start ≤ e.span.start
  apart : s.log.entries.IsChain fun d e => d.span.start ≠ e.span.start

namespace InTurn

variable {s s' : ParseState} {c : Cursor}

lemma congr (h : s.InTurn) (hcursor : s'.cursor = s.cursor) (hlog : s'.log = s.log) :
    s'.InTurn := by
  obtain ⟨hahead, hpassed, hforward, hapart⟩ := h
  rw [← hlog] at hpassed hforward hapart
  rw [← hcursor] at hahead hpassed
  exact ⟨hahead, hpassed, hforward, hapart⟩

/-- Later tokens begin later. -/
lemma start_le_of_onward (h : s.InTurn) (hc : s.cursor.Onward c) :
    s.cursor.current.span.start ≤ c.current.span.start
      ∧ (c.ahead ++ [c.eof]).Pairwise fun t u => t.span.start ≤ u.span.start := by
  obtain ⟨l, hahead, -, heof⟩ := hc
  have hordered := h.ahead
  rw [hahead, ← heof, List.append_assoc] at hordered
  refine ⟨?_, (List.pairwise_append.1 hordered).2.1⟩
  have hcurrent : c.current ∈ c.ahead ++ [c.eof] := by
    rcases hrest : c.ahead with _ | ⟨t, rest⟩ <;> simp [Cursor.current, hrest]
  rcases l with _ | ⟨t, l⟩
  · have heq : s.cursor.current = c.current := by simp [Cursor.current, hahead, heof]
    rw [heq]
  · have hfirst : s.cursor.current = t := by simp [Cursor.current, hahead]
    rw [hfirst]
    exact (List.pairwise_cons.1 hordered).1 _ (List.mem_append_right l hcurrent)

lemma move (h : s.InTurn) (hc : s.cursor.Onward c) : { s with cursor := c : ParseState }.InTurn :=
  have hle := h.start_le_of_onward hc
  ⟨hle.2, fun d hd => Nat.le_trans (h.passed d hd) hle.1, h.forward, h.apart⟩

/-- A report that does not look back has to be about the current token. -/
lemma told (h : s.InTurn) {d : Diagnostic}
    (hd : d.looksBack = true ∨ d.span = s.cursor.current.span) :
    { s with log := Parse.told s d : ParseState }.InTurn := by
  unfold Parse.told
  split
  · exact h
  next hnew =>
  rw [Bool.or_eq_true, not_or] at hnew
  have hlast : ∀ e ∈ s.log.entries.getLast?, e.span.start ≠ d.span.start := by
    intro e he
    rw [Option.mem_def.1 he] at hnew
    simpa using hnew.2
  refine ⟨h.ahead, ?_, ?_, List.isChain_append.2 ⟨h.apart, .singleton _, by simpa using hlast⟩⟩
  · intro e he
    rw [Log.forward_push, List.mem_append] at he
    rcases he with he | he
    · exact h.passed e he
    · split at he
      · cases he
      next hforward =>
      rw [List.mem_singleton.1 he, hd.resolve_left hforward]
  · rw [Log.forward_push]
    split
    · rw [List.append_nil]
      exact h.forward
    next hforward =>
    refine List.pairwise_append.2 ⟨h.forward, List.pairwise_singleton _ _, fun e he f hf => ?_⟩
    rw [List.mem_singleton.1 hf, hd.resolve_left hforward]
    exact h.passed e he

/-- No step of a parser changes that. -/
lemma walk (hwalk : s.Walk s') (h : s.InTurn) : s'.InTurn := by
  induction hwalk with
  | refl => exact h
  | trans _ _ ih ih' => exact ih' (ih h)
  | advance s => exact h.move (.advance s.cursor)
  | report s labels hspan =>
    exact h.told (hspan.imp_left fun hmessage => decide_eq_true hmessage)
  | stray s message =>
    have htold := h.told (d := .error s.cursor.current.span message []) (.inr rfl)
    exact htold.move (.advance s.cursor)
  | refuse s =>
    have htold := h.told (d := refusal s.cursor.current) (.inr rfl)
    exact (htold.move (.finish s.cursor)).congr rfl rfl
  | level _ _ ih => exact (ih (h.congr rfl rfl)).congr rfl rfl
  | retry _ _ _ => exact h.congr rfl rfl

lemma pairwise_lt {ds : List Diagnostic} (hne : ds.IsChain fun d e => d.span.start ≠ e.span.start)
    (hle : ds.Pairwise fun d e => d.span.start ≤ e.span.start) :
    ds.Pairwise fun d e => d.span.start < e.span.start := by
  induction ds with
  | nil => exact .nil
  | cons d rest ih =>
    obtain ⟨hfirst, hrest⟩ := List.pairwise_cons.1 hle
    refine List.pairwise_cons.2 ⟨fun e he => ?_, ih hne.tail hrest⟩
    rcases rest with _ | ⟨f, tail⟩
    · cases he
    have hlt : d.span.start < f.span.start :=
      Nat.lt_of_le_of_ne (hfirst f List.mem_cons_self) (List.isChain_cons_cons.1 hne).1
    rcases List.mem_cons.1 he with rfl | he
    · exact hlt
    · exact Nat.lt_of_lt_of_le hlt ((List.pairwise_cons.1 hrest).1 e he)

/-- Where no report looks back, each begins behind the one before it. -/
lemma stretch_ordered (h : s.InTurn) {stretch : List Diagnostic}
    (hstretch : stretch <:+: s.log.entries) (hforward : ∀ d ∈ stretch, d.looksBack = false) :
    stretch.Pairwise fun d e => d.span.start < e.span.start := by
  have hkept : stretch.filter (fun d => !d.looksBack) = stretch :=
    List.filter_eq_self.2 fun d hd => by simp [hforward d hd]
  have hle : stretch.Pairwise fun d e => d.span.start ≤ e.span.start := by
    rw [← hkept]
    exact h.forward.sublist (hstretch.sublist.filter _)
  have hne := List.IsChain.infix h.apart hstretch
  exact pairwise_lt hne hle

end InTurn

/-- Before the first token of a text everything is in its turn. -/
lemma before_inTurn {source : String} {read : List Token} {eof : Token}
    (h : Lexed.Splits source read eof) : (before read eof).InTurn := by
  obtain ⟨stop, hlaid, hle⟩ := h.laid
  have hordered : read.Pairwise fun t u => t.span.stop ≤ u.span.start := by
    simpa [List.filterMap_map, Function.comp_def, Mark.token?] using hlaid.tokens_ordered
  refine ⟨List.pairwise_append.2 ⟨?_, List.pairwise_singleton _ _, fun t ht u hu => ?_⟩,
    by simp [before, Log.forward, Log.empty], .nil, .nil⟩
  · exact hordered.imp_of_mem fun ht _ htu => Nat.le_trans (Nat.le_of_lt (h.width _ ht)) htu
  · obtain ⟨-, hwidth, hend⟩ := hlaid.encloses (List.mem_map_of_mem ht)
    have heof : u.span = .empty (Text.byteSize source.toList) := by
      rw [List.mem_singleton.1 hu]
      exact h.eof_span
    rw [heof]
    exact Nat.le_trans hwidth (Nat.le_trans hend hle)

end ParseState

namespace Parsed

/-- **Which reports are apart**: no two reports of the parser that follow each other begin at the
same offset; those that do not look back stand in the order of the text; and two of them begin at
the same offset only if one that looks back comes between them. -/
theorem reports_apart (source : String) :
    let ds := (ending source).log.entries
    ds.IsChain (fun d e => d.span.start ≠ e.span.start)
      ∧ (ds.filter fun d => !d.looksBack).Pairwise (fun d e => d.span.start ≤ e.span.start)
      ∧ ∀ stretch, stretch <:+: ds → (∀ d ∈ stretch, d.looksBack = false) →
        stretch.Pairwise fun d e => d.span.start < e.span.start := by
  intro ds
  obtain ⟨read, eof, hsplits⟩ := Lexed.exists_splits source
  have hstart : ofTokens (Lexed.ofSource source).tokens = before read eof := by
    rw [hsplits.tokens, ofTokens_eq hsplits.eof_kind]
  have hturn : (ending source).InTurn := by
    rw [ending, hstart]
    exact (before_inTurn hsplits).walk (Grammar.chunk_steady.walk _)
  exact ⟨hturn.apart, hturn.forward, fun stretch hstretch => hturn.stretch_ordered hstretch⟩

/-- The name that is missing is reported at the end of the text, then the expression that is no
statement where it begins, and then what closes the block at the end of the text again. -/
theorem reported_twice :
    (ending "do x.").log.entries.map (fun d => (d.span.start, d.message))
      = [(5, "expected identifier, found end of input"),
        (3, "syntax error: expected '=' or a function call"),
        (5, "expected 'end', found end of input")] := by
  decide +kernel

end Parsed

end LuaFront
