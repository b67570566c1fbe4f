import LuaFront.Proofs.Chunk.Displaced
import LuaFront.Proofs.Lexeme.Shifted
import LuaFront.Proofs.Parser.Outermost

/-!
Texts within others. The tokens of a text about which nothing is reported are read as its statements
also where they stand within another text, up to a token that ends the block, or to the end.
-/

namespace LuaFront

open ParseState

/-! ### What is left where it is -/

namespace Displacement

lemma cursor_still (c : Cursor) : still.cursor c = c := by
  have htoken : still.token = id := funext token_still
  simp [cursor, htoken]

lemma log_still (l : Log) : still.log l = l := by
  have hlabel : still.label = id := rfl
  have hdiagnostic : still.diagnostic = id := funext fun d => by
    simp only [diagnostic, hlabel, List.map_id]
    rfl
  simp [log, hdiagnostic]

end Displacement

/-- What a parser reads is left as it is where the tokens are left where they are. -/
lemma Parse.Moves.still {α : Type} {act : α → α} {p : Parse α}
    (h : Parse.Moves .still act p p) {s : ParseState}
    (hs : ∀ t ∈ s.cursor.tokens, t.span.start ≤ t.span.stop) (hlog : s.log.entries = []) :
    act (p.run s).1 = (p.run s).1 := by
  have hfollows : Follows .still s s :=
    ⟨(Displacement.cursor_still _).symm, rfl, rfl, fun _ => (Displacement.log_still _).symm, hs,
      by simp [hlog]⟩
  exact (h s s hfollows).1.symm

namespace Lexed

lemma upright (source : String) : ∀ t ∈ (ofSource source).tokens, t.span.start ≤ t.span.stop := by
  obtain ⟨read, eof, h⟩ := exists_splits source
  rw [h.tokens]
  exact h.upright

end Lexed

namespace Parsed

variable {source : String}

/-- A text is parsed from its tokens. -/
lemma run_chunk_before {read : List Token} {eof : Token}
    (htokens : (Lexed.ofSource source).tokens = read ++ [eof]) (heof : eof.kind = .eof) :
    Grammar.chunk.run (before read eof) = ((ofSource source).block, ending source) := by
  rw [← ofTokens_eq heof, ← htokens]
  rfl

lemma block_still (source : String) :
    Displacement.still.stats (ofSource source).block.stats = (ofSource source).block.stats := by
  obtain ⟨read, eof, h⟩ := Lexed.exists_splits source
  have hblock := Parse.Moves.still (Grammar.chunk_moves (m := .still)) (s := before read eof)
    h.upright rfl
  rw [run_chunk_before h.tokens h.eof_kind] at hblock
  exact (Displacement.stats_block _).symm.trans (congrArg Block.stats hblock)

/-! ### Texts about which nothing is reported -/

lemma quiet (h : (ofSource source).diagnostics = []) :
    (Lexed.ofSource source).diagnostics = [] ∧ (ending source).log.entries = [] := by
  have hlength := congrArg List.length h
  rw [diagnostics_eq, Diagnostic.sorted, List.length_mergeSort] at hlength
  exact List.append_eq_nil_iff.1 (List.eq_nil_of_length_eq_zero hlength)

/-- Read from displaced tokens, too, such a text gives rise to no report. -/
lemma chunk_quiet {read : List Token} {eof : Token} (hsplits : Lexed.Splits source read eof)
    (h : (ofSource source).diagnostics = []) {m : Displacement} (hm : StrictMono m.offset) :
    (Grammar.chunk.run (before (read.map m.token) (m.token eof))).1
        = m.block (ofSource source).block
      ∧ (Grammar.chunk.run (before (read.map m.token) (m.token eof))).2.log.entries = [] := by
  obtain ⟨hblock, hfollows⟩ := chunk_displaced hsplits m
  have hstart : ParseState.ofTokens ((Lexed.ofSource source).tokens.map m.token)
      = before (read.map m.token) (m.token eof) := by
    rw [hsplits.tokens, List.map_append]
    exact ofTokens_eq hsplits.eof_kind
  rw [hstart] at hblock hfollows
  refine ⟨hblock, ?_⟩
  rw [hfollows.log hm, Displacement.log, (quiet h).2]
  rfl

/-- Where the parser is at the end of the displaced tokens of a text, all of them are read. -/
lemma ahead_of_eof {read : List Token} {eof : Token} (hsplits : Lexed.Splits source read eof)
    {m : Displacement} {c : Cursor}
    (h : (before (read.map m.token) (m.token eof)).cursor.Onward c)
    (heof : c.current.kind = .eof) : c.ahead = [] := by
  refine Cursor.ahead_eq_nil (fun token htoken => ?_) heof
  obtain ⟨l, hl, -, -⟩ := h
  have hmem : token ∈ read.map m.token := by
    change read.map m.token = _ at hl
    rw [hl]
    exact List.mem_append_right _ htoken
  obtain ⟨u, hu, rfl⟩ := List.mem_map.1 hmem
  exact hsplits.kind u hu

open Grammar Parse in
/-- The statements of such a text are read without a report. -/
lemma chunk_statements {read : List Token} {eof : Token} (hsplits : Lexed.Splits source read eof)
    (h : (ofSource source).diagnostics = []) {m : Displacement} (hm : StrictMono m.offset) :
    ∃ u, Quiet (statements (level maxDepth) read.length false)
        { before (read.map m.token) (m.token eof) with depth := 1 }
        (m.stats (ofSource source).block.stats) u ∧ u.cursor.ahead = [] := by
  obtain ⟨hblock, hlog⟩ := chunk_quiet hsplits h hm
  obtain ⟨t, ht⟩ : ∃ t, t = before (read.map m.token) (m.token eof) := ⟨_, rfl⟩
  rw [← ht] at hblock hlog ⊢
  have hvalid : t.Valid := ht ▸ before_valid hsplits.eof_kind
  have hlength : t.cursor.ahead.length = read.length := by rw [ht]; exact List.length_map _
  obtain ⟨hrun, heof⟩ := run_chunk_quiet hvalid hlog
  rw [hrun, run_outermost (ht ▸ rfl) (ht ▸ rfl), hlength] at hblock hlog heof
  obtain ⟨r, hr⟩ : ∃ r, (statements (level maxDepth) read.length false).run
    { t with depth := 1 } = r := ⟨_, rfl⟩
  rw [hr] at hblock hlog heof
  have hstats : r.1 = m.stats (ofSource source).block.stats :=
    (congrArg Block.stats hblock).trans (Displacement.stats_block _)
  have hquiet : Quiet (statements (level maxDepth) read.length false) { t with depth := 1 }
      (m.stats (ofSource source).block.stats) r.2 :=
    ⟨hvalid.inside, by rw [hr, ← hstats]; rfl, hlog⟩
  exact ⟨r.2, hquiet, ahead_of_eof hsplits (ht ▸ hquiet.onward.cursor) heof⟩

/-- What is known of the outermost block where a text is read within another one. -/
structure Within (source : String) (m move : Displacement) (rest : List Token) (s : ParseState)
    (b : Block) (s' : ParseState) : Prop where
  stats : move.stats b.stats = m.stats (ofSource source).block.stats
  valid : s'.Valid
  ahead : s'.cursor.ahead = rest
  depth : s'.depth = 0
  tooDeep : s'.tooDeep = false
  log : s'.log = s.log

open Grammar in
/-- **A text is read within another one** as it is by itself, if nothing is reported about it. -/
theorem read_within {read : List Token} {eof : Token} (hsplits : Lexed.Splits source read eof)
    (h : (ofSource source).diagnostics = []) {m move : Displacement} (hm : StrictMono m.offset)
    {s : ParseState} (hs : s.Valid) (hdepth : s.depth = 0) (hdeep : s.tooDeep = false)
    {front rest : List Token} (hahead : s.cursor.ahead = front ++ rest)
    (hfront : front.map move.token = read.map m.token)
    (hrest : (Token.frontKind rest).endsBlock = true)
    (hstop : move.offset s.cursor.lastStop = 0) (anchor : Offset) :
    Within source m move rest s ((outermost.block anchor).run s).1
      ((outermost.block anchor).run s).2 := by
  let x : Excerpt :=
    { move, rest, close := [], log := s.log, gap := 0, limited := False
      ends := .inr ⟨rfl, by simp [TokenKind.follows, hrest]⟩
      gate := by simp
      deeper := fun hgap => absurd hgap (Nat.lt_irrefl 0)
      quiet := False.elim }
  obtain ⟨hblock, hlog⟩ := chunk_quiet hsplits h hm
  have hecho : x.Echo 0 s (before (read.map m.token) (m.token eof)) :=
    { whole := hs
      part := before_valid hsplits.eof_kind
      ahead := ⟨front, hahead, by rw [hfront, List.append_nil]; rfl⟩
      lastStop := hstop.symm
      depth_whole := hdepth
      depth_part := rfl
      tooDeep := hdeep
      log_whole := rfl
      log_part := rfl }
  have hkinds : ∀ a ∈ read.map m.token, a.kind ≠ .eof := by
    rw [List.forall_mem_map]
    exact fun t ht => hsplits.kind t ht
  obtain ⟨hstats, hahead', hecho'⟩ :=
    chunk_within (x := x) rfl id rfl (TokenKind.beginsStat_of_ends hrest) hecho hkinds hlog anchor
  refine ⟨?_, hecho'.whole, hahead', hecho'.depth_whole, hecho'.tooDeep, hecho'.log_whole⟩
  rw [← hstats, hblock, Displacement.stats_block]

end Parsed

end LuaFront
