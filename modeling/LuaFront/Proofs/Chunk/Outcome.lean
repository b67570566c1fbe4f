import LuaFront.Proofs.Lexeme.Tokens
import LuaFront.Proofs.Parser.Chunks

/-!
What is known of every parsed text: how its tokens stand in it, and the state in which its parser
ends.
-/

namespace LuaFront

/-- The tokens of a text: those that have characters, and one for its end. -/
structure Lexed.Splits (source : String) (read : List Token) (eof : Token) : Prop where
  tokens : (ofSource source).tokens = read ++ [eof]
  kind : ∀ t ∈ read, t.kind ≠ .eof
  text : ∀ t ∈ read, t.text ≠ ""
  width : ∀ t ∈ read, t.span.start < t.span.stop
  error : ∀ t ∈ read, t.kind = .invalid → ∃ d ∈ (ofSource source).diagnostics, d.severity = .error
  laid : ∃ stop, Laid 0 (read.map .token) stop ∧ stop ≤ Text.byteSize source.toList
  eof_kind : eof.kind = .eof
  eof_span : eof.span = .empty (Text.byteSize source.toList)

/-- The kinds of the tokens of a text, without its end. -/
def Lexed.word (source : String) : List TokenKind :=
  (ofSource source).tokens.dropLast.map (·.kind)

lemma Lexed.exists_splits (source : String) : ∃ read eof, Splits source read eof := by
  obtain ⟨read, last, stop, heq, hread, hlaid, hle, heof, -, hspan⟩ :=
    Scanned.ofChars_laid 0 source.toList
  rw [Nat.zero_add] at hle hspan
  refine ⟨read.map (·.token), last.token, ?_⟩
  have hdiagnostics : ∀ x ∈ read, ∀ d ∈ x.diagnostics, d ∈ (ofSource source).diagnostics := by
    intro x hx d hd
    refine List.mem_flatMap.2 ⟨x, ?_, hd⟩
    rw [heq]
    exact List.mem_append_left _ hx
  refine ⟨by simp [ofSource, heq], ?_, ?_, ?_, ?_, ?_, heof, hspan⟩
  · simpa using fun x hx => (hread x hx).kind
  · simpa using fun x hx => (hread x hx).text
  · simpa using fun x hx => (hread x hx).width
  · simp only [List.forall_mem_map]
    intro x hx hkind
    obtain ⟨d, hd, herror⟩ := (hread x hx).error hkind
    exact ⟨d, hdiagnostics x hx d hd, herror⟩
  · exact ⟨stop, by simpa [Function.comp_def] using hlaid, hle⟩

lemma Lexed.Splits.present {source : String} {read : List Token} {eof t : Token}
    (h : Splits source read eof) (ht : t ∈ read) : t.isMissing = false := by
  simp [Token.isMissing, h.text t ht]

lemma Lexed.Splits.stop_le {source : String} {read : List Token} {eof t : Token}
    (h : Splits source read eof) (ht : t ∈ read) :
    t.span.stop ≤ Text.byteSize source.toList := by
  obtain ⟨stop, hlaid, hle⟩ := h.laid
  exact Nat.le_trans (hlaid.encloses (List.mem_map_of_mem ht)).2.2 hle

namespace ParseState

/-- Before the first token of a text. -/
def before (read : List Token) (eof : Token) : ParseState := ⟨⟨[], read, eof⟩, .empty, 0, false⟩

lemma ofTokens_eq {read : List Token} {eof : Token} (h : eof.kind = .eof) :
    ofTokens (read ++ [eof]) = before read eof := by
  simp [ofTokens, before, Cursor.ofTokens, h]

lemma before_valid {read : List Token} {eof : Token} (h : eof.kind = .eof) :
    (before read eof).Valid :=
  ⟨h, Nat.zero_le _, fun hdeep => absurd hdeep (by simp [before]), by simp [before, Log.empty]⟩

end ParseState

namespace Parsed

open ParseState

/-- The whole tree of a parsed text. -/
def root (p : Parsed) : Node := .block p.block

/-- The state in which the parser of a text ends. -/
def ending (source : String) : ParseState :=
  (Grammar.chunk.run (.ofTokens (Lexed.ofSource source).tokens)).2

/-- What is reported about a text is what the lexer reports and the log of the parser. -/
lemma diagnostics_eq (source : String) : (ofSource source).diagnostics
    = Diagnostic.sorted ((Lexed.ofSource source).diagnostics ++ (ending source).log.entries) := rfl

/-- How the parser of a text ends: at the end of its tokens, all of them read. -/
structure Outcome (source : String) (read : List Token) (eof : Token) (s : ParseState) : Prop where
  splits : Lexed.Splits source read eof
  anchor : (ofSource source).root.anchor = (read.head?.getD eof).span.start
  reached : Reached 0 (before read eof) 0 (ofSource source).root.Sound
    (ofSource source).root.parts s
  ahead : s.cursor.ahead = []
  behind : s.cursor.behind = read.reverse
  diagnostics : ∀ d, d ∈ (ofSource source).diagnostics ↔
    d ∈ (Lexed.ofSource source).diagnostics ∨ d ∈ s.log.entries

/-- The state in which the parser ends is of that kind. -/
theorem ending_outcome (source : String) : ∃ read eof, Outcome source read eof (ending source) := by
  obtain ⟨read, eof, hsplits⟩ := Lexed.exists_splits source
  have hrun : ParseState.ofTokens (Lexed.ofSource source).tokens = before read eof := by
    rw [hsplits.tokens, ofTokens_eq hsplits.eof_kind]
  have hblock : (ofSource source).block = (Grammar.chunk.run (before read eof)).1 := by
    rw [← hrun]
    rfl
  have hending : ending source = (Grammar.chunk.run (before read eof)).2 := by
    rw [← hrun]
    rfl
  obtain ⟨hanchor, heof, hreached⟩ :=
    Grammar.chunk_reached (before_valid hsplits.eof_kind : (before read eof).Valid) rfl
  rw [← hblock] at hanchor hreached
  rw [← hending] at heof hreached
  obtain ⟨l, hfront, hback, -⟩ := hreached.reads.exists_consumed
  have hfront' : read = l ++ (ending source).cursor.ahead := hfront
  have hahead : (ending source).cursor.ahead = [] := by
    rcases hrest : (ending source).cursor.ahead with _ | ⟨t, rest⟩
    · rfl
    · have ht : t ∈ read := by simp [hfront', hrest]
      have hcurrent : (ending source).cursor.current = t := by simp [Cursor.current, hrest]
      exact absurd (hcurrent ▸ heof) (hsplits.kind t ht)
  refine ⟨read, eof, hsplits, hanchor, hreached, hahead, ?_, ?_⟩
  · rw [hback, hfront', hahead, List.append_nil]
    exact List.append_nil _
  · intro d
    rw [diagnostics_eq, Diagnostic.sorted, List.mem_mergeSort, List.mem_append]

theorem exists_outcome (source : String) : ∃ read eof s, Outcome source read eof s := by
  obtain ⟨read, eof, h⟩ := ending_outcome source
  exact ⟨read, eof, ending source, h⟩

end Parsed

end LuaFront
