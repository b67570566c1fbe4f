import LuaFront.Proofs.Chunk.Open
import LuaFront.Proofs.Chunk.Spans
import LuaFront.Proofs.Chunk.Within
import LuaFront.Proofs.Parser.Heads
import LuaFront.Proofs.Scope.Visible

/-!
How chunks that are still being written are read, and what is visible at their end. What is written
of a chunk is read one level further in for each head of a statement in it, up to the end of the
text; so the search for bindings comes from block to block, and finds what each of them declares.
-/

namespace LuaFront

namespace Parsed

open Parse ParseState

/-! ### Before what is left of a text -/

/-- Some tokens are all that is ahead, and `k` levels are left. -/
structure Poised (k : Nat) (tokens : List Token) (stop : Offset) (s : ParseState) : Prop where
  valid : s.Valid
  depth : s.depth + k = maxDepth + 1
  tooDeep : s.tooDeep = false
  log : s.log.entries = []
  ahead : s.cursor.ahead = tokens
  lastStop : s.cursor.lastStop ≤ stop

section Poised

variable {k : Nat} {tokens front rest close : List Token} {eof : Token} {stop further : Offset}
  {distance : Nat} {s s' u : ParseState}

lemma Poised.mono (h : Poised k tokens stop s) (hle : stop ≤ further) : Poised k tokens further s :=
  { h with lastStop := Nat.le_trans h.lastStop hle }

lemma Poised.current (h : Poised k tokens stop s) :
    s.cursor.current.kind = Token.frontKind tokens := by
  rw [Cursor.current_eq h.valid.eof, h.ahead]

lemma Poised.good (h : Poised k tokens stop s) : (Grammar.level k).Good s.depth := by
  have hdepth := h.depth
  have hlevel := Grammar.level_good (k := k) (by omega)
  rwa [← hdepth, Nat.add_sub_cancel] at hlevel

/-- A text that begins at a distance, as a part of what is ahead: what comes after it there, and
where it is read by itself, one level deep. -/
def excerpt (s : ParseState) (hlog : s.log.entries = []) (distance : Nat) (rest close : List Token)
    (ends : TokenKind.Alike (Token.frontKind rest) (Token.frontKind close))
    (gate : ∀ t ∈ close.head?, t.kind.looksAhead = false) : Excerpt where
  move := .plain distance
  rest := rest
  close := close
  log := s.log
  gap := s.depth - 1
  limited := True
  ends := ends
  gate := gate
  deeper _ := trivial
  quiet _ := hlog

lemma Poised.echo (h : Poised k (front ++ rest) distance s) (hdepth : 1 ≤ s.depth)
    (heof : eof.kind = .eof)
    (ends : TokenKind.Alike (Token.frontKind rest) (Token.frontKind close))
    (gate : ∀ t ∈ close.head?, t.kind.looksAhead = false) :
    (excerpt s h.log distance rest close ends gate).Echo 1 s
      { before (front.map (Displacement.plain distance).token ++ close) eof with depth := 1 } where
  whole := h.valid
  part := (before_valid heof).inside
  ahead := ⟨front, h.ahead, rfl⟩
  lastStop := (Nat.sub_eq_zero_of_le h.lastStop).symm
  depth_whole := by simp only [excerpt]; omega
  depth_part := rfl
  tooDeep := h.tooDeep
  log_whole := rfl
  log_part := rfl

variable {hlog : s.log.entries = []}
  {ends : TokenKind.Alike (Token.frontKind rest) (Token.frontKind close)}
  {gate : ∀ t ∈ close.head?, t.kind.looksAhead = false}

lemma Poised.levels (h : Poised k tokens stop s) (hdepth : 1 ≤ s.depth) :
    1 + (excerpt s hlog distance rest close ends gate).gap + k = maxDepth + 1
      ∧ k + (excerpt s hlog distance rest close ends gate).gap = maxDepth := by
  have hlevels := h.depth
  simp only [excerpt]
  omega

/-- Behind the text what is left of the tokens is all that is ahead. -/
lemma Poised.behind (h : Poised k tokens stop s) (hdepth : 1 ≤ s.depth)
    (hecho : (excerpt s hlog distance rest close ends gate).Echo 1 s' u)
    (hahead : s'.cursor.ahead = rest) {size : Nat} (hsize : u.cursor.lastStop ≤ size) :
    Poised k rest (distance + size) s' ∧ 1 ≤ s'.depth := by
  have hback : s'.depth = s.depth := by
    rw [hecho.depth_whole]
    exact Nat.add_sub_cancel' hdepth
  have hstop : u.cursor.lastStop = s'.cursor.lastStop - distance := hecho.lastStop
  rw [hstop] at hsize
  exact ⟨⟨hecho.whole, hback ▸ h.depth, hecho.tooDeep, hecho.log_whole ▸ hlog, hahead,
    Nat.sub_le_iff_le_add'.1 hsize⟩, hback ▸ hdepth⟩

end Poised

/-- The nesting limit was met and reported. -/
def Limited (s : ParseState) : Prop := ∃ d ∈ s.log.entries, d.message = limitMessage

lemma Limited.mono {s s' : ParseState} (h : Limited s) (hlog : s.log.entries <+: s'.log.entries) :
    Limited s' := by
  obtain ⟨d, hd, hmessage⟩ := h
  exact ⟨d, hlog.subset hd, hmessage⟩

/-- Where the nesting limit is met, nothing more is read. -/
lemma Limited.of_gave {x : Excerpt} {s : ParseState} (h : x.Gave s) (hs : s.Valid) :
    s.Ended ∧ Limited s := ⟨⟨hs, (hs.gaveUp h.tooDeep).1⟩, h.reported⟩

/-- A block has been read up to the end of the text. It is still being written, and names are
declared at these places; or the nesting limit was met. -/
structure Unfolds (places : List Site) (b : Block) (s : ParseState) : Prop where
  ended : s.Ended
  declares : Limited s
    ∨ ∃ bindings, b.Unfinished bindings ∧ bindings.map Binding.site = places

/-- What is read of the statements of a block, up to the end of the text. -/
def UnfoldsAt (k : Nat) (places : List Site) (s : ParseState) : Prop :=
  ∀ anchor, Unfolds places
    ⟨((Grammar.statements (Grammar.level k) s.cursor.ahead.length false).run s).1, anchor⟩
    ((Grammar.statements (Grammar.level k) s.cursor.ahead.length false).run s).2

open Grammar in
/-- A block is read up to the end of the text if its statements are, one level further in. -/
lemma Poised.unfolds {k : Nat} {tokens : List Token} {stop : Offset} {places : List Site}
    {s : ParseState} (hs : Poised k tokens stop s)
    (h : ∀ k s, Poised k tokens stop s → 1 ≤ s.depth → UnfoldsAt k places s) (anchor : Offset) :
    Unfolds places (((level k).block anchor).run s).1 (((level k).block anchor).run s).2 := by
  have hdepth := hs.depth
  have hlimit := hs.valid.depth
  obtain ⟨k, rfl⟩ : ∃ n, k = n + 1 := ⟨k - 1, by omega⟩
  have hrun : ((level (k + 1)).block anchor).run s = (nested (cutOffBlock anchor) (do
      return ⟨← statements (level k) (← remaining) false, anchor⟩)).run s := rfl
  rw [hrun]
  by_cases hdeep : maxDepth ≤ s.depth
  · rw [run_nested_refused hs.tooDeep hdeep]
    have hvalid := (Steady.onward (p := (level (k + 1)).block anchor) s).valid hs.valid
    rw [hrun, run_nested_refused hs.tooDeep hdeep] at hvalid
    refine ⟨⟨hvalid, (hvalid.gaveUp rfl).1⟩, .inl ⟨refusal s.cursor.current, ?_, rfl⟩⟩
    change refusal s.cursor.current ∈ (told s (refusal s.cursor.current)).entries
    rw [told_first hs.tooDeep hs.log]
    exact List.mem_singleton_self _
  · have hdeep := Nat.lt_of_not_le hdeep
    rw [run_nested_entered hs.tooDeep hdeep]
    have hinside : Poised k tokens stop { s with depth := s.depth + 1 } :=
      ⟨hs.valid.atDepth hdeep, by simp only; omega, hs.tooDeep, hs.log, hs.ahead, hs.lastStop⟩
    obtain ⟨hended, hdeclares⟩ := h k _ hinside (Nat.le_add_left 1 _) anchor
    have hidle := hended.leave
    exact ⟨hidle.ended, hdeclares.imp_left fun hlimited => hlimited.mono hidle.log⟩

open Grammar in
/-- A statement that is read up to the end of the text is the last one of its block. -/
lemma run_statements_last {k : Nat} {s : ParseState} (hs : s.Valid)
    (hbegins : s.cursor.current.kind.beginsStat = true)
    (hended : ((statement (level k)).run s).2.Ended) :
    (statements (level k) s.cursor.ahead.length false).run s
      = ([((statement (level k)).run s).1], ((statement (level k)).run s).2) := by
  obtain ⟨others, hahead⟩ := ahead_of_facing hs rfl fun heof => by
    rw [heof] at hbegins
    cases hbegins
  have hbound : s.cursor.ahead.length = others.length + 1 := congrArg List.length hahead
  rw [hbound, run_statements_succ (TokenKind.endsBlock_of_begins hbegins)]
  simp only [run_statements_ends (congrArg TokenKind.endsBlock hended.eof)]

open Grammar in
/-- The tokens of a statement that is read are as far on as all tokens ahead are. -/
lemma Poised.span_of_statements {k distance bound : Nat} {tokens : List Token} {stop : Offset}
    {s : ParseState} (hs : Poised k tokens stop s)
    (hspan : ∀ t ∈ tokens, ((Displacement.plain distance).span t.span).shift distance = t.span)
    {a : Stat} (ha : a ∈ ((statements (level k) bound false).run s).1) :
    ∀ t ∈ (Node.stat a).tokens, t.isMissing = false →
      ((Displacement.plain distance).span t.span).shift distance = t.span := fun t ht hpresent =>
  hspan t (hs.ahead ▸ mem_ahead_of_statements hs.good hs.valid ha ht hpresent)

namespace Finished

variable {p : String}

open Grammar in
/-- The statements of a chunk are read in front of others, or the nesting limit is met. -/
lemma read_before (h : Finished p) {k distance : Nat} {front rest : List Token} {s : ParseState}
    (hs : Poised k (front ++ rest) distance s) (hdepth : 1 ≤ s.depth)
    (hfront : Token.Further distance (Lexed.ofSource p).tokens.dropLast front)
    (hrest : TokenKind.Alike (Token.frontKind rest) .eof) :
    (((statements (level k) s.cursor.ahead.length false).run s).2.Ended
        ∧ Limited ((statements (level k) s.cursor.ahead.length false).run s).2)
      ∨ ∃ l s', l.map (Displacement.plain distance).stat
            = (ofSource p).block.stats.map (Displacement.plain 0).stat
        ∧ Poised k rest (distance + Text.byteSize p.toList) s' ∧ 1 ≤ s'.depth
        ∧ (statements (level k) s.cursor.ahead.length false).run s
          = (let r := (statements (level k) rest.length false).run s'
            (l ++ r.1, r.2)) := by
  obtain ⟨read, eof, hsplits⟩ := Lexed.exists_splits p
  obtain ⟨u, hquiet, hu⟩ := chunk_statements hsplits h.clean Displacement.plain_strictMono
  have hstop : u.cursor.lastStop ≤ Text.byteSize p.toList := by
    refine hquiet.onward.cursor.lastStop_le (Nat.zero_le _) fun t ht => ?_
    obtain ⟨token, htoken, rfl⟩ := List.mem_map.1 ht
    have hstop := hsplits.stop_le htoken
    exact hstop
  rw [hsplits.tokens, List.dropLast_concat] at hfront
  rw [← hfront.plain, ← List.append_nil (front.map _)] at hquiet
  have hends : TokenKind.Alike (Token.frontKind rest) (Token.frontKind []) := hrest
  have hgate : ∀ t ∈ ([] : List Token).head?, t.kind.looksAhead = false := by simp
  let x : Excerpt := excerpt s hs.log distance rest [] hends hgate
  have heof : ((Displacement.plain 0).token eof).kind = .eof := hsplits.eof_kind
  have hecho := hs.echo hdepth heof hends hgate
  obtain ⟨hk, hlevel⟩ : 1 + x.gap + k = maxDepth + 1 ∧ k + x.gap = maxDepth := hs.levels hdepth
  have hreturn : ∀ a ∈ (Displacement.plain 0).stats (ofSource p).block.stats,
      a.isReturn = false := by
    simpa using h.not_return
  rcases statements_within hk rfl hecho (hlevel ▸ hquiet) hu hreturn with
    hgave | ⟨l, s', hl, hecho', hahead, hrun⟩
  · have hvalid := (Steady.onward (p := statements (level k) s.cursor.ahead.length false) s).valid
      hs.valid
    exact .inl (Limited.of_gave hgave hvalid)
  · obtain ⟨hpoised, hdepth'⟩ := hs.behind hdepth hecho' hahead hstop
    exact .inr ⟨l, s', hl.symm.trans (Displacement.stats_eq _), hpoised, hdepth', hrun⟩

open Grammar in
/-- The statements of a chunk are read up to the end of the text if nothing comes after them. -/
lemma unfolds (h : Finished p) {k distance : Nat} {tokens : List Token} {s : ParseState}
    (hs : Poised k tokens distance s) (hdepth : 1 ≤ s.depth)
    (hfurther : Token.Further distance (Lexed.ofSource p).tokens.dropLast tokens) :
    UnfoldsAt k ((sites p).map (·.shift distance)) s := by
  intro anchor
  have hnone : TokenKind.Alike (Token.frontKind []) .eof := .inl rfl
  have hread := h.read_before (by rwa [List.append_nil]) hdepth hfurther hnone
  rcases hread with ⟨hended, hlimited⟩ | ⟨l, s', hl, hs', -, hrun⟩
  · exact ⟨hended, .inl hlimited⟩
  · have hend : s'.cursor.current.kind = .eof := hs'.current
    simp only [run_statements_ends (congrArg TokenKind.endsBlock hend), List.append_nil] at hrun
    have hspan := fun a ha => hs.span_of_statements hfurther.span (a := a) (by rw [hrun]; exact ha)
    rw [hrun]
    exact ⟨⟨hs'.valid, hend⟩, .inr ⟨_, .closed (h.whole hl), h.declares hl hspan⟩⟩

end Finished

open Grammar in
/-- A text that is one statement, about which nothing is reported: all its tokens are read as the
statement, and nothing is missing. -/
lemma chunk_statement {source : String} {read : List Token} {eof : Token}
    (hsplits : Lexed.Splits source read eof) (h : (ofSource source).diagnostics = []) {a : Stat}
    (hstats : (ofSource source).block.stats = [a]) {m : Displacement} (hm : StrictMono m.offset) :
    ∃ u, Parse.Quiet (statement (level maxDepth))
          { before (read.map m.token) (m.token eof) with depth := 1 } (m.stat a) u
      ∧ u.cursor.ahead = [] ∧ (Node.stat (m.stat a)).All Node.Complete
      ∧ (Node.stat (m.stat a)).tokens = read.map m.token := by
  obtain ⟨hblock, hlog⟩ := chunk_quiet hsplits h hm
  have hvalid : (before (read.map m.token) (m.token eof)).Valid := before_valid hsplits.eof_kind
  have hstats : (chunk.run (before (read.map m.token) (m.token eof))).1.stats = [m.stat a] := by
    rw [hblock, Displacement.stats_block, hstats]
    rfl
  obtain ⟨u, hrun, hulog, hend⟩ := chunk_first hvalid rfl rfl hlog hstats
  have hq : Parse.Quiet (statement (level maxDepth))
      { before (read.map m.token) (m.token eof) with depth := 1 } (m.stat a) u :=
    ⟨hvalid.inside, hrun, hulog⟩
  have hahead := ahead_of_eof hsplits hq.onward.cursor (hend rfl)
  have hsound : ∀ t ∈ read.map m.token, t.isMissing = false ∧ t.kind ≠ .invalid := by
    rw [List.forall_mem_map]
    refine fun t ht =>
      ⟨(Displacement.isMissing_token t).trans (hsplits.present ht), fun hkind => ?_⟩
    obtain ⟨d, hd, -⟩ := hsplits.error t ht hkind
    simp [(Parsed.quiet h).1] at hd
  have hends := ends_of_stats hvalid rfl rfl hlog hstats
  obtain ⟨hcomplete, hall⟩ := complete_of_statement (level_good (by decide)) hq hends
    (List.forall_mem_nil _) hsound
  rw [hahead, List.append_nil] at hall
  exact ⟨u, hq, hahead, hcomplete, hall.symm⟩

namespace Head

variable {head closer : String} {a : Stat} {front close : List Token} {gate eof : Token}
  {u : ParseState}

/-- How the head of a statement is read together with what closes the statement: the gate is the
last token of the head. -/
structure Read (head closer : String) (a : Stat) (front : List Token) (gate : Token)
    (close : List Token) (eof : Token) (u : ParseState) : Prop where
  tokens : (Lexed.ofSource head).tokens.dropLast.map (Displacement.plain 0).token = front ++ [gate]
  looksAhead : gate.kind.looksAhead = false
  kind : gate.kind ≠ .eof
  length : (gate :: close).length = (Lexed.ofSource closer).tokens.length
  ends : eof.kind = .eof
  quiet : Parse.Quiet (Grammar.statement (Grammar.level maxDepth))
    { before (front ++ gate :: close) eof with depth := 1 } ((Displacement.plain 0).stat a) u
  ahead : u.cursor.ahead = []
  complete : (Node.stat ((Displacement.plain 0).stat a)).All Node.Complete
  all : (Node.stat ((Displacement.plain 0).stat a)).tokens = front ++ gate :: close

lemma exists_read (h : Head head closer a) :
    ∃ front gate close eof u, Read head closer a front gate close eof u := by
  obtain ⟨read, eof, hsplits⟩ := Lexed.exists_splits (head ++ "\n" ++ closer)
  have hstacked : Text.Stacked head closer _ (head ++ "\n" ++ closer) := .line
  obtain ⟨back, htokens, hback⟩ := hstacked.tokens_eq h.lexed
  rw [hsplits.tokens, List.dropLast_concat] at htokens
  obtain ⟨u, hq, hahead, hcomplete, hall⟩ :=
    chunk_statement hsplits h.clean h.stats Displacement.plain_strictMono
  obtain ⟨front, gate, close, hgated, hclose, hlooks⟩ :=
    h.shut.displaced.1.gated fun n hn => (hcomplete n hn).form
  rw [hgated] at hall
  -- What closes the statement stands behind the head, and so the gate is the last token of it.
  have hlength : (back.map (Displacement.plain 0).token).length = close.length := by
    have hlength := congrArg List.length hback.plain
    simp only [List.length_map, List.length_dropLast] at hlength ⊢
    omega
  have hjoined : (Lexed.ofSource head).tokens.dropLast.map (Displacement.plain 0).token
      ++ back.map (Displacement.plain 0).token = (front ++ [gate]) ++ close := by
    rw [← List.map_append, ← htokens, ← hall]
    simp
  obtain ⟨hhead, -⟩ := List.append_inj' hjoined hlength
  have hkind : gate.kind ≠ .eof := by
    have hmem : gate ∈ read.map (Displacement.plain 0).token := by simp [← hall]
    obtain ⟨t, ht, rfl⟩ := List.mem_map.1 hmem
    exact hsplits.kind t ht
  have hcount : (gate :: close).length = (Lexed.ofSource closer).tokens.length := by
    have hpos : 0 < (Lexed.ofSource closer).tokens.length := by
      obtain ⟨_, _, hcloser⟩ := Lexed.exists_splits closer
      simp [hcloser.tokens]
    rw [List.length_cons, hclose]
    omega
  rw [← hall] at hq
  exact ⟨front, gate, close, (Displacement.plain 0).token eof, u, hhead, hlooks, hkind, hcount,
    hsplits.eof_kind, hq, hahead, hcomplete, hgated⟩

/-- Wherever the head of a statement stands, it begins with a token that begins a statement. -/
lemma begins (h : Head head closer a) {distance : Nat} {further : List Token} (rest : List Token)
    (hfurther : Token.Further distance (Lexed.ofSource head).tokens.dropLast further) :
    (Token.frontKind (further ++ rest)).beginsStat = true := by
  obtain ⟨front, gate, close, eof, u, hread⟩ := h.exists_read
  have hbegins := h.shut.displaced.1.begins fun n hn => (hread.complete n hn).form
  have hplain := hfurther.plain
  rw [hread.tokens] at hplain
  rw [hread.all, List.append_cons, ← hplain] at hbegins
  cases further with
  | nil => simp at hplain
  | cons t further => exact hbegins

open Grammar in
/-- How the head of a statement is read in front of what is written of the last block. -/
lemma opens (h : Head head closer a) {k distance : Nat} {further rest : List Token}
    {s : ParseState} (hs : Poised k (further ++ rest) distance s) (hdepth : 1 ≤ s.depth)
    (hfurther : Token.Further distance (Lexed.ofSource head).tokens.dropLast further) :
    (((statement (level k)).run s).2.Ended ∧ Limited ((statement (level k)).run s).2)
      ∨ ∃ k' s', Poised k' rest (distance + Text.byteSize head.toList) s'
        ∧ (((level k').blockHere.run s').2.Ended →
          ((level k').blockHere.run s').2.Idle ((statement (level k)).run s).2
            ∧ ((statement (level k)).run s).1.Bears ((level k').blockHere.run s').1
            ∧ ((statement (level k)).run s).1.lent.map (Displacement.plain distance).binding
              = a.lent.map (Displacement.plain 0).binding) := by
  obtain ⟨front, gate, close, eof, u, hread⟩ := h.exists_read
  have hplain := hfurther.plain
  rw [hread.tokens] at hplain
  obtain ⟨lead, last, rfl, rfl, hlast⟩ := List.map_eq_append_iff.1 hplain
  obtain ⟨whole, rfl, rfl⟩ := List.map_eq_singleton_iff.1 hlast
  have hpresent : ∀ t ∈ (Node.stat ((Displacement.plain 0).stat a)).tokens,
      t.isMissing = false := fun t => Node.present_of_complete hread.complete
  let x : Excerpt := excerpt s hs.log distance (whole :: rest)
    ((Displacement.plain distance).token whole :: close) (.inl rfl) (by
      rintro t ⟨⟩
      exact hread.looksAhead)
  have hecho : x.Echo 1 s { before (lead.map (Displacement.plain distance).token
      ++ (Displacement.plain distance).token whole :: close) eof with depth := 1 } :=
    Poised.echo (by rwa [List.append_cons]) hdepth hread.ends _ _
  obtain ⟨hk, hlevel⟩ : 1 + x.gap + k = maxDepth + 1 ∧ k + x.gap = maxDepth := hs.levels hdepth
  have hmeets := statement_meets hk hecho h.shut.displaced.1 (hlevel ▸ hread.quiet) hread.ahead
    hread.all.symm (fun n hn => (hread.complete n hn).form) hpresent hread.length hread.kind (by
      rintro t ⟨⟩
      exact hpresent ((Displacement.plain distance).token whole) (by simp [hread.all]))
  rcases hmeets with hgave | ⟨k', s', hbehind, hopens⟩
  · exact .inl (Limited.of_gave hgave ((Steady.onward (p := statement (level k)) s).valid hs.valid))
  · refine .inr ⟨k', s', ⟨hbehind.valid, hbehind.depth, hbehind.tooDeep, ?_, hbehind.ahead, ?_⟩, ?_⟩
    · rw [hbehind.log]
      exact hs.log
    · obtain ⟨t, ht, -, -, hspan⟩ := hfurther.exists_eq (t := whole) (by simp)
      obtain ⟨read, _, hsplits⟩ := Lexed.exists_splits head
      rw [hsplits.tokens, List.dropLast_concat] at ht
      rw [hbehind.lastStop whole rfl, hspan]
      exact (Nat.add_comm _ _).trans_le (Nat.add_le_add_left (hsplits.stop_le ht) distance)
    · intro hended
      obtain ⟨hidle, hbears, hlent⟩ := hopens hended
      exact ⟨hidle, hbears, hlent.trans h.shut.displaced.2⟩

open Grammar in
/-- Where the last block goes on up to the end of the text, so does the statement, as one that is
not closed. -/
lemma unfolds (h : Head head closer a) {k distance : Nat} {further rest : List Token}
    {stop : Offset} {places : List Site} {s : ParseState}
    (hs : Poised k (further ++ rest) distance s) (hdepth : 1 ≤ s.depth)
    (hfurther : Token.Further distance (Lexed.ofSource head).tokens.dropLast further)
    (hstop : distance + Text.byteSize head.toList ≤ stop)
    (hrest : ∀ k s, Poised k rest stop s → 1 ≤ s.depth → UnfoldsAt k places s) :
    ((statement (level k)).run s).2.Ended ∧ (Limited ((statement (level k)).run s).2
      ∨ ∃ inner bindings, ((statement (level k)).run s).1.Bears inner
        ∧ inner.Unfinished bindings ∧ bindings.map Binding.site = places
        ∧ ((statement (level k)).run s).1.lent.map (Displacement.plain distance).binding
          = a.lent.map (Displacement.plain 0).binding) := by
  rcases h.opens hs hdepth hfurther with ⟨hended, hlimited⟩ | ⟨k', s', hs', hblock⟩
  · exact ⟨hended, .inl hlimited⟩
  · obtain ⟨hended, hdeclares⟩ := (hs'.mono hstop).unfolds hrest s'.cursor.lastStop
    obtain ⟨hidle, hbears, hlent⟩ := hblock hended
    refine ⟨hidle.ended, hdeclares.imp (fun hlimited => hlimited.mono hidle.log) ?_⟩
    rintro ⟨bindings, hunfinished, hsites⟩
    exact ⟨_, bindings, hbears, hunfinished, hsites, hlent⟩

end Head

/-! ### Open chunks -/

namespace Open

variable {source : String} {places : List Site}

open Grammar in
/-- **What is written of a chunk** is read up to the end of the text, further in, too. -/
theorem unfolds (h : Open source places) : ∀ {k distance : Nat} {tokens : List Token}
    {s : ParseState}, Poised k tokens distance s → 1 ≤ s.depth →
    Token.Further distance (Lexed.ofSource source).tokens.dropLast tokens →
    UnfoldsAt k (places.map (·.shift distance)) s := by
  induction h with
  | @closed p hp => exact fun hs hdepth hfurther => hp.unfolds hs hdepth hfurther
  | @opened p head closer upper body source a above below more hp hhead hbody hupper hsource ih =>
    intro k distance tokens s hs hdepth hfurther anchor
    have hquiet := Parsed.quiet hp.clean
    obtain ⟨middle, hmiddle, habove⟩ := hupper.tokens_eq hquiet.1
    obtain ⟨last, hlast, hbelow⟩ := hsource.tokens_eq (hupper.lexed hquiet.1 hhead.lexed)
    rw [hlast, hmiddle, List.append_assoc] at hfurther
    obtain ⟨front, rest, rfl, hfront, hrest⟩ := hfurther.split
    obtain ⟨middle', last', rfl, hmiddle', hlast'⟩ := hrest.split
    have habove := habove.trans hmiddle'
    have hbelow := hbelow.trans hlast'
    have hbegins := hhead.begins last' habove
    -- First the statements before the head are read.
    have hread := hp.read_before hs hdepth hfront
      (.inr ⟨rfl, by rw [TokenKind.follows, hbegins, Bool.or_true]⟩)
    rcases hread with ⟨hended, hlimited⟩ | ⟨l, s', hl, hs', hdepth', hrun⟩
    · exact ⟨hended, .inl hlimited⟩
    rw [← hs'.current] at hbegins
    -- Then the statement that the head begins is read up to the end of the text.
    have hstop : distance + above + Text.byteSize head.toList ≤ distance + below := by
      rw [Nat.add_assoc, ← hupper.size_eq]
      exact Nat.add_le_add_left hsource.size_le distance
    have habove' := hs'.mono (Nat.add_le_add_left hupper.size_le distance)
    obtain ⟨hended, hdeclares⟩ := hhead.unfolds habove' hdepth' habove hstop
      fun k s hs hdepth => ih hs hdepth hbelow
    have hstats := run_statements_last hs'.valid hbegins hended
    rw [hs'.ahead] at hstats
    obtain ⟨r, hr⟩ : ∃ r, (statement (level k)).run s' = r := ⟨_, rfl⟩
    rw [hr] at hended hdeclares hstats
    have hrun : (statements (level k) s.cursor.ahead.length false).run s = (l ++ [r.1], r.2) := by
      rw [hrun, hstats]
    rw [hrun]
    refine ⟨hended, hdeclares.imp_right ?_⟩
    rintro ⟨inner, bindings, hbears, hunfinished, hsites, hlent⟩
    refine ⟨_, .opened rfl (hp.whole hl) hbears hunfinished, ?_⟩
    have hdone := hp.declares hl fun a ha => hs.span_of_statements hfurther.span (by
      rw [hrun]
      exact List.mem_append_left _ ha)
    have hspan : ∀ t ∈ middle' ++ last',
        ((Displacement.plain (distance + above)).span t.span).shift (distance + above) = t.span := by
      intro t ht
      rcases List.mem_append.1 ht with ht | ht
      · exact habove.span t ht
      · exact hbelow.span_of_le (Nat.le_trans (Nat.le_add_right _ _) hstop) t ht
    have hlast := hhead.sites_eq hlent (hs'.span_of_statements hspan (by
      rw [hstats]
      exact List.mem_singleton_self _))
    rw [List.map_append, List.map_append, hdone, hlast, hsites]
    simp [Site.shift_shift, Function.comp_def]

open Grammar in
/-- What is read of such a chunk ends in unclosed statements, unless the nesting limit is met. -/
theorem unfinished (h : Open source places)
    (hlimit : ∀ d ∈ (ofSource source).diagnostics, d.message ≠ limitMessage) :
    ∃ bindings, (ofSource source).block.Unfinished bindings
      ∧ bindings.map Binding.site = places := by
  obtain ⟨read, eof, hsplits⟩ := Lexed.exists_splits source
  obtain ⟨s, hs⟩ : ∃ s, s = before read eof := ⟨_, rfl⟩
  have hvalid : s.Valid := hs ▸ before_valid hsplits.eof_kind
  have hpoised : Poised maxDepth read 0 { s with depth := 1 } :=
    ⟨hvalid.inside, Nat.add_comm _ _, hs ▸ rfl, hs ▸ rfl, hs ▸ rfl, hs ▸ Nat.le_refl 0⟩
  have hfurther : Token.Further 0 (Lexed.ofSource source).tokens.dropLast read := by
    rw [hsplits.tokens, List.dropLast_concat]
    exact .refl read
  have hunfolds := h.unfolds hpoised (Nat.le_refl 1) hfurther s.cursor.current.span.start
  obtain ⟨r, hr⟩ : ∃ r, (statements (level maxDepth) s.cursor.ahead.length false).run
    { s with depth := 1 } = r := ⟨_, rfl⟩
  obtain ⟨hended, hdeclares⟩ : Unfolds (places.map (·.shift 0)) ⟨r.1, s.cursor.current.span.start⟩
    r.2 := hr ▸ hunfolds
  have hidle := hended.leave
  have hrun : chunk.run s = (⟨r.1, s.cursor.current.span.start⟩, (leave.run r.2).2) := by
    have hrun : chunk.run s = (let r := (outermost.block s.cursor.current.span.start).run s
        let l := (strays r.2.cursor.ahead.length).run r.2
        ({ r.1 with stats := r.1.stats ++ l.1 }, l.2)) := rfl
    rw [hrun, run_outermost (hs ▸ rfl) (hs ▸ rfl), hr]
    simp only [run_strays_end hidle.ended.eof, List.append_nil]
  rw [hs, run_chunk_before hsplits.tokens hsplits.eof_kind, ← hs] at hrun
  obtain ⟨hblock, hending⟩ := Prod.mk.inj hrun
  rcases hdeclares with ⟨d, hd, hmessage⟩ | ⟨bindings, hunfinished, hsites⟩
  · refine absurd hmessage (hlimit d ?_)
    rw [diagnostics_eq, Diagnostic.sorted, List.mem_mergeSort, hending]
    exact List.mem_append_right _ (hidle.log.subset hd)
  · exact ⟨bindings, hblock ▸ hunfinished, hsites.trans (List.map_id _)⟩

end Open

/-! ### The end of the text -/

/-- The text of the tree of a text ends where the text does. -/
lemma root_endsBy (source : String) :
    (ofSource source).root.EndsBy (Text.byteSize source.toList) := by
  obtain ⟨read, eof, s, hout⟩ := exists_outcome source
  refine ⟨root_inOrder source, (spans_nested source).1, fun t ht hpresent => ?_⟩
  rcases hout.mem_read ht with hread | ⟨kind, offset, hkind, rfl⟩
  · exact hout.splits.width t hread
  · rw [Token.isMissing_missing hkind] at hpresent
    cases hpresent

/-- The function that a chunk declares, if the chunk is that declaration and the body is empty. -/
def emptyFunction? (b : Block) : Option Stat :=
  match b.stats with
  | [.function keyword name method f] =>
    if f.block.stats.isEmpty then some (.function keyword name method f) else none
  | _ => none

lemma shut_of_emptyFunction? {b : Block} {a : Stat} (h : emptyFunction? b = some a) :
    b.stats = [a] ∧ a.Shut "end" := by
  unfold emptyFunction? at h
  split at h
  · next keyword name method f hstats =>
    obtain ⟨hempty, ha⟩ := Option.ite_none_right_eq_some.1 h
    cases ha
    exact ⟨hstats, .function (List.isEmpty_iff.1 hempty)⟩
  · cases h

/-- **At the end of a chunk that is still being written** just the names are visible that are
declared where it is still open, each as its innermost and latest declaration. -/
theorem visible_open {source : String} {places : List Site} (h : Open source places)
    (hlimit : ∀ d ∈ (ofSource source).diagnostics, d.message ≠ limitMessage)
    (hsize : Text.byteSize source.toList ≤ unbounded) :
    let found := (ofSource source).block.visible (Text.byteSize source.toList)
    (found.map (·.name)).Nodup ∧ ∀ place : Site, place ∈ found.map Binding.site
      ↔ places.reverse.find? (·.name = place.name) = some place := by
  intro found
  obtain ⟨bindings, hunfinished, rfl⟩ := h.unfinished hlimit
  have hnamed : ∀ b ∈ bindings, b.name ≠ "" := fun b hb =>
    h.named b.site (List.mem_map_of_mem hb)
  have hfound : found = Binding.distinct bindings := by
    have henclosing := hunfinished.enclosing_eq (root_endsBy source) hsize
    rw [List.filter_eq_self.2 (by simpa using hnamed)] at henclosing
    exact congrArg Binding.distinct henclosing
  rw [hfound]
  exact ⟨Binding.names_nodup bindings, fun place => Binding.mem_sites_distinct⟩

/-- In the body of a method its parameters hide what is declared outside. -/
theorem visible_open_method :
    let source := "local a, b" ++ "\n" ++ "function t:m(a)" ++ "\n" ++ "local b"
    let places : List Site := [⟨"a", .local_, ⟨6, 7⟩⟩, ⟨"b", .local_, ⟨9, 10⟩⟩,
      ⟨"self", .parameter, ⟨22, 23⟩⟩, ⟨"a", .parameter, ⟨24, 25⟩⟩, ⟨"b", .local_, ⟨33, 34⟩⟩]
    let found := (ofSource source).block.visible (Text.byteSize source.toList)
    Open source places ∧ (∀ d ∈ (ofSource source).diagnostics, d.message ≠ limitMessage)
      ∧ Text.byteSize source.toList ≤ unbounded ∧ (found.map (·.name)).Nodup
      ∧ ∀ place : Site, place ∈ found.map Binding.site
        ↔ places.reverse.find? (·.name = place.name) = some place := by
  intro source places found
  have hlimit : ∀ d ∈ (ofSource source).diagnostics, d.message ≠ limitMessage := by decide +kernel
  have hsize : Text.byteSize source.toList ≤ unbounded := by decide +kernel
  have hmethod : (emptyFunction? (ofSource ("function t:m(a)" ++ "\n" ++ "end")).block).any
      (·.lent.map Binding.site
        = [⟨"self", .parameter, ⟨11, 12⟩⟩, ⟨"a", .parameter, ⟨13, 14⟩⟩]) = true := by
    decide +kernel
  obtain ⟨a, ha, hlent⟩ := (Option.any_eq_true ..).1 hmethod
  obtain ⟨hstats, hshut⟩ := shut_of_emptyFunction? ha
  have hhead : Head "function t:m(a)" "end" a :=
    ⟨by decide +kernel, by decide +kernel, hstats, hshut⟩
  have hopened := Open.opened (p := "local a, b") ⟨by decide +kernel, by decide +kernel⟩ hhead
    (.closed (p := "local b") ⟨by decide +kernel, by decide +kernel⟩) .line .line
  have hplaces : places = sites "local a, b"
      ++ ((a.lent.map Binding.site).map (·.shift (Text.byteSize ("local a, b" ++ "\n").toList))
      ++ (sites "local b").map (·.shift (Text.byteSize
        ("local a, b" ++ "\n" ++ "function t:m(a)" ++ "\n").toList))) := by
    rw [of_decide_eq_true hlent]
    decide +kernel
  have hopen : Open source places := by
    rw [List.map_map] at hplaces
    rw [hplaces]
    exact hopened
  exact ⟨hopen, hlimit, hsize, visible_open hopen hlimit hsize⟩

end Parsed

end LuaFront
