import LuaFront.Proofs.Chunk.Within
import LuaFront.Proofs.Parser.Targets

/-!
Assignments that are cut off behind their equals sign.
-/

namespace LuaFront

def Stat.isAssign : Stat → Bool
  | .assign .. => true
  | _ => false

namespace Grammar

open Parse ParseState

/-- Of a value that is one literal, one token is read. -/
lemma ahead_of_literal {s u : ParseState} {eq : Token} {value : Literal} {anchor : Offset}
    (hs : s.Valid) (hdepth : s.depth = 1) (hpos : 1 ≤ s.cursor.pos)
    (hkept : ∀ t ∈ s.cursor.ahead, t.isMissing = false)
    (hrun : (assignedValues (level maxDepth) eq).run s
      = (⟨[⟨.literal value, none⟩], anchor⟩, u))
    (hahead : u.cursor.ahead = []) : s.cursor.ahead.length ≤ 1 := by
  have hvalues : (level maxDepth).exprList.run s = (⟨[⟨.literal value, none⟩], anchor⟩, u) := by
    rw [run_assignedValues] at hrun
    split at hrun
    · next hback =>
      rw [run_bind (run_error_eq ..)] at hrun
      cases (Prod.mk.inj hrun).1
    · exact hrun
  have hgood : (level maxDepth).Good 1 := level_good (by decide)
  have hstart := Reached.start hs hpos
  rw [hdepth] at hstart
  have hread := (hgood.exprList s hstart).2
  rw [hvalues] at hread
  obtain ⟨l, hl, -, -, -, hmarks⟩ := hread.reads.exists_consumed
  rw [hahead, List.append_nil] at hl
  have hkept' : l.filter (!·.isMissing) = l :=
    List.filter_eq_self.2 fun t ht => by simp [hkept t (hl ▸ ht)]
  have htoken : (([] ++ Separated.parts Node.ofExpr ⟨[⟨.literal value, none⟩], anchor⟩).flatMap
      Part.marks).filterMap Mark.token? = [value.token] := by
    have hmarks : (Node.literal value).marks = [.token value.token] :=
      Node.marks_of_parts (List.cons_ne_nil _ _)
    simp [Separated.parts, Part.marks, Node.ofExpr, hmarks, Mark.token?]
  rw [hl, ← hkept', ← hmarks, htoken]
  exact List.length_filter_le _ _

/-- A statement that is a number behind an equals sign: before the number the equals sign is
reached. -/
lemma signed_of_literal {read : List Token} {number eof eq : Token} {targets : Targets}
    {value : Literal} {anchor : Offset} (heof : eof.kind = .eof)
    (hread : ∀ t ∈ read ++ [number], t.kind ≠ .eof ∧ t.isMissing = false)
    (hnumber : number.kind = .number)
    (hlog : (chunk.run (before (read ++ [number]) eof)).2.log.entries = [])
    (hstats : (chunk.run (before (read ++ [number]) eof)).1.stats
      = [targets.stat eq ⟨[⟨.literal value, none⟩], anchor⟩]) :
    ∃ front c, read = front ++ [eq]
      ∧ Signed (level maxDepth) { before (read ++ [number]) eof with depth := 1 } targets c
      ∧ c.cursor.ahead = [eq, number] := by
  have hvalid : (before (read ++ [number]) eof).Valid := before_valid heof
  obtain ⟨u, hu, hulog, hend⟩ := chunk_first hvalid rfl rfl hlog hstats
  obtain ⟨c, hsigned, heq, hvalues⟩ := statement_parts hvalid.inside hu hulog
  have honward := (targets_steady (l := level maxDepth)).onward
    { before (read ++ [number]) eof with depth := 1 }
  rw [hsigned.run] at honward
  obtain ⟨front, hfront, -, -⟩ := honward.cursor
  have hfront : read ++ [number] = front ++ c.cursor.ahead := hfront
  obtain ⟨rest, hahead⟩ := ahead_of_facing hsigned.valid hsigned.sign (by decide)
  rw [heq] at hahead
  have hadvance := Cursor.advance_of_ahead hahead (by rw [← heq, hsigned.sign]; decide)
  rw [hahead] at hfront
  have hrest : ∀ t ∈ rest, t.kind ≠ .eof ∧ t.isMissing = false := fun t ht =>
    hread t (by rw [hfront]; simp [ht])
  have hbehind : ({ c with cursor := c.cursor.advance } : ParseState).Valid :=
    (advance_steady.onward c).valid hsigned.valid
  rw [hadvance] at hvalues hbehind
  have hreached := Steady.onward (p := assignedValues (level maxDepth) eq)
    { c with cursor := ⟨eq :: c.cursor.behind, rest, c.cursor.eof⟩ }
  rw [hvalues] at hreached
  obtain ⟨l, hl, -, -⟩ := hreached.cursor
  have hl : rest = l ++ u.cursor.ahead := hl
  have hdone : u.cursor.ahead = [] :=
    Cursor.ahead_eq_nil (fun t ht => (hrest t (by rw [hl]; simp [ht])).1) (hend rfl)
  have hone := ahead_of_literal hbehind hsigned.depth (Nat.le_add_left _ _)
    (fun t ht => (hrest t ht).2) hvalues hdone
  rcases rest with _ | ⟨last, _ | ⟨other, rest⟩⟩
  · obtain ⟨-, hnumber'⟩ := List.append_inj' hfront rfl
    rw [List.singleton_inj.1 hnumber', ← heq, hsigned.sign] at hnumber
    cases hnumber
  · have hfront : read ++ [number] = (front ++ [eq]) ++ [last] := by simpa using hfront
    obtain ⟨hread', hlast⟩ := List.append_inj' hfront rfl
    exact ⟨front, c, hread', hsigned, List.singleton_inj.1 hlast ▸ hahead⟩
  · exact absurd hone (by simp)

/-- Before what comes after the equals sign the targets are read as they are before a number. -/
lemma Signed.joined {front rest : List Token} {eq number eof last : Token} {targets : Targets}
    {c : ParseState} (heof : eof.kind = .eof) (hlast : last.kind = .eof)
    (h : Signed (level maxDepth)
      { before (front ++ [eq, number]) eof with depth := 1 } targets c)
    (hahead : c.cursor.ahead = [eq, number]) (heq : eq.kind = .symbol .eq) :
    ∃ whole c', Signed (level maxDepth)
        { before (front ++ eq :: rest) last with depth := 1 } whole c'
      ∧ Displacement.still.targets whole = targets ∧ c'.cursor.ahead = eq :: rest
      ∧ c'.tooDeep = false := by
  let x : Excerpt :=
    { move := .still, rest := eq :: rest, close := [eq, number], log := .empty, gap := 0
      limited := False
      ends := .inl rfl
      gate := by simp [heq, TokenKind.looksAhead]
      deeper := fun hgap => absurd hgap (Nat.lt_irrefl 0)
      quiet := False.elim }
  have hecho : x.Echo 1 { before (front ++ eq :: rest) last with depth := 1 }
      { before (front ++ [eq, number]) eof with depth := 1 } :=
    { whole := (before_valid hlast).inside
      part := (before_valid heof).inside
      ahead := by
        have hstill : Displacement.still.token = id := funext Displacement.token_still
        exact ⟨front, rfl, by simp [x, before, hstill]⟩
      lastStop := rfl
      depth_whole := rfl
      depth_part := rfl
      tooDeep := rfl
      log_whole := rfl
      log_part := rfl }
  have hechoes : (level maxDepth).Echoes x 1 (level maxDepth) := level_echoes (k := maxDepth) rfl
  obtain ⟨whole, c', hwhole, htargets, hahead', hecho'⟩ := h.within hechoes hecho id rfl hahead
  exact ⟨whole, c', hwhole, htargets, hahead', hecho'.tooDeep⟩

/-- Behind its first statement a chunk goes on like one that begins there. -/
lemma run_chunk_signed {s c u s' : ParseState} {targets : Targets} {values : Separated Expr}
    {b : Block} (hs : s.Valid) (hdeep : s.tooDeep = false) (hdepth : s.depth = 0)
    (h : Signed (level maxDepth) { s with depth := 1 } targets c)
    (hvalues : (assignedValues (level maxDepth) c.cursor.current).run
      { c with cursor := c.cursor.advance } = (values, u))
    (hu : u.Valid) (hdeep' : u.tooDeep = false) (hdepth' : u.depth = 1)
    (hrest : (outermost.block 0).run { u with depth := 0 } = (b, s'))
    (hend : s'.cursor.current.kind = .eof) :
    (chunk.run s).1.stats = targets.stat c.cursor.current values :: b.stats
      ∧ (chunk.run s).2 = s' := by
  have hends : s.cursor.current.kind.endsBlock = false := h.begins.not_ends
  have hgood : (level maxDepth).Good 1 := level_good (by decide)
  have hstat : (statement (level maxDepth)).run { s with depth := 1 }
      = (targets.stat c.cursor.current values, u) := by
    rw [run_statement_signed h.begins (by rw [h.run, h.sign]), run_signed h.run, hvalues]
  have hshort := statement_shortens hgood hs.inside rfl hends
  rw [hstat] at hshort
  have hshort : u.cursor.ahead.length < s.cursor.ahead.length := hshort
  obtain ⟨bound, hbound⟩ := Nat.exists_eq_add_of_lt hshort
  obtain ⟨m, hm⟩ : ∃ m, (statements (level maxDepth) u.cursor.ahead.length false).run u = m :=
    ⟨_, rfl⟩
  have hample : (statements (level maxDepth) (u.cursor.ahead.length + bound) false).run u = m :=
    ((statements_ample hgood).run_eq hu hdepth' (Nat.le_add_right _ _)).trans hm
  have hback : { u with depth := 1 } = u := by rw [← hdepth']
  rw [run_outermost (s := { u with depth := 0 }) hdeep' rfl, hback, hm] at hrest
  obtain ⟨rfl, rfl⟩ := Prod.mk.inj hrest
  rw [run_chunk_cons hdeep hdepth hends hbound, hstat]
  simp only [Targets.isReturn_stat, hample, run_strays_end hend, List.append_nil, and_self]

end Grammar

namespace Parsed

open Parse ParseState

variable {p : String} {read : List Token} {eof : Token}

/-- The first statement of a text is an assignment. -/
def Assigns (source : String) : Prop := (ofSource source).block.stats.head?.any (·.isAssign)

instance (source : String) : Decidable (Assigns source) := inferInstanceAs (Decidable (_ = true))

lemma Assigns.exists_assign {source : String} (h : Assigns source) :
    ∃ targets eq values rest,
      (ofSource source).block.stats = .assign targets eq values :: rest := by
  unfold Assigns at h
  cases hstats : (ofSource source).block.stats with
  | nil => simp [hstats] at h
  | cons first rest =>
    cases first with
    | assign targets eq values => exact ⟨targets, eq, values, rest, rfl⟩
    | _ => simp [hstats, Stat.isAssign] at h

open Grammar in
/-- The targets of the first statement, read where the text stands by itself. -/
lemma targetList_first (hsplits : Lexed.Splits p read eof) (hp : (ofSource p).diagnostics = [])
    (hassigns : Assigns p) {m : Displacement} (hm : StrictMono m.offset) {s : ParseState}
    (hs : s = { before (read.map m.token) (m.token eof) with depth := 1 }) :
    ((targetList (level maxDepth)).run s).2.log.entries = []
      ∧ ((targetList (level maxDepth)).run s).2.cursor.current.kind = .symbol .eq := by
  obtain ⟨targets, eq, values, rest, hstats⟩ := hassigns.exists_assign
  obtain ⟨hblock, hlog⟩ := chunk_quiet hsplits hp hm
  have hstats' : (chunk.run (before (read.map m.token) (m.token eof))).1.stats
      = (Targets.assigned (m.list m.expr targets)).stat (m.token eq) (m.list m.expr values)
        :: m.stats rest := by
    rw [hblock, Displacement.stats_block, hstats]
    simp [Displacement.stats, Displacement.stat, Targets.stat]
  have hvalid : (before (read.map m.token) (m.token eof)).Valid := before_valid hsplits.eof_kind
  obtain ⟨u, hu, hulog, -⟩ := chunk_first hvalid rfl rfl hlog hstats'
  rw [← hs] at hu
  obtain ⟨c, hsigned, -, -⟩ := statement_parts (hs ▸ hvalid.inside) hu hulog
  exact hsigned.targetList

open Grammar in
/-- Behind an equals sign the text is taken for values, up to the first equals sign of its own. -/
lemma run_assignedValues_cutOff (hsplits : Lexed.Splits p read eof)
    (hp : (ofSource p).diagnostics = []) (hassigns : Assigns p) {s : ParseState} {eq : Token}
    {distance : Nat} (hs : s.Valid) (hdepth : s.depth = 1) (hdeep : s.tooDeep = false)
    (hlog : s.log.entries = [])
    (hahead : s.cursor.ahead.map (Displacement.back distance).token
      = read.map (Displacement.back 0).token)
    (hstop : s.cursor.lastStop ≤ distance) (heq : eq.isMissing = false)
    (hlimit : ∀ d ∈ ((assignedValues (level maxDepth) eq).run s).2.log.entries,
      d.message ≠ limitMessage) :
    (assignedValues (level maxDepth) eq).run s = (noValues eq.span.stop,
      { s with
        log := told s (.error (.empty eq.span.stop) "expected expression after '='" []) }) := by
  let x : Excerpt :=
    { move := .back distance, rest := [], close := [], log := s.log, gap := 0, limited := True
      ends := .inl rfl
      gate := by simp
      deeper := fun _ => trivial
      quiet := fun _ => hlog }
  obtain ⟨t, ht⟩ : ∃ t, t = { before (read.map (Displacement.back 0).token)
    ((Displacement.back 0).token eof) with depth := 1 : ParseState } := ⟨_, rfl⟩
  obtain ⟨hlist, hsign⟩ := targetList_first hsplits hp hassigns Displacement.back_strictMono ht
  have hvalid : (before (read.map (Displacement.back 0).token)
    ((Displacement.back 0).token eof)).Valid := before_valid hsplits.eof_kind
  have hecho : x.Echo 1 s t :=
    { whole := hs
      part := ht ▸ hvalid.inside
      ahead := ⟨s.cursor.ahead, by simp [x], by simp [x, ht, before, hahead]⟩
      lastStop := ht ▸ (Nat.sub_eq_zero_of_le hstop).symm
      depth_whole := hdepth
      depth_part := ht ▸ rfl
      tooDeep := hdeep
      log_whole := rfl
      log_part := ht ▸ rfl }
  have htried : Tried x 1 (level maxDepth).expression (suffixed (level maxDepth) true) :=
    expression_tried (k := 199) rfl trivial rfl
  exact run_assignedValues_tried htried rfl hecho hlist hsign heq hlimit

open Grammar in
/-- From one state on, targets and an equals sign have been read and no values: that is all that has
been reported, and what comes behind the equals sign is still ahead. -/
structure Resumed (s : ParseState) (targets : Targets) (eq : Token) (rest : List Token)
    (stop : Offset) (c u : ParseState) : Prop where
  signed : Signed (level maxDepth) { s with depth := 1 } targets c
  current : c.cursor.current = eq
  values : (assignedValues (level maxDepth) eq).run { c with cursor := c.cursor.advance }
    = (noValues eq.span.stop, u)
  valid : u.Valid
  depth : u.depth = 1
  tooDeep : u.tooDeep = false
  log : u.log.entries = [.error (.empty eq.span.stop) "expected expression after '='" []]
  ahead : u.cursor.ahead = rest
  lastStop : u.cursor.lastStop ≤ stop

section CutOff

variable {front rest : List Token} {eq number eof' last : Token} {targets : Targets}
  {c : ParseState} {distance : Nat}

open Grammar in
/-- Targets that are read in front of a number are read in front of a text, which is then taken for
their values in vain. -/
lemma exists_resumed (hsplits : Lexed.Splits p read eof) (hp : (ofSource p).diagnostics = [])
    (hassigns : Assigns p) (heof' : eof'.kind = .eof) (hlast : last.kind = .eof)
    (hsigned : Signed (level maxDepth)
      { before (front ++ [eq, number]) eof' with depth := 1 } targets c)
    (hahead : c.cursor.ahead = [eq, number]) (heq : eq.isMissing = false)
    (hstop : eq.span.stop ≤ distance)
    (hrest : rest.map (Displacement.back distance).token = read.map (Displacement.back 0).token)
    (hlimit : ∀ d ∈ (chunk.run (before (front ++ eq :: rest) last)).2.log.entries,
      d.message ≠ limitMessage) :
    ∃ whole c' u, Displacement.still.targets whole = targets
      ∧ Resumed (before (front ++ eq :: rest) last) whole eq rest distance c' u := by
  have hsign : eq.kind = .symbol .eq := by
    have hsign := hsigned.sign
    rwa [Cursor.current, hahead] at hsign
  obtain ⟨whole, c', hwhole, htargets, hahead', hdeep⟩ :=
    hsigned.joined heof' hlast hahead hsign
  obtain ⟨s, hs⟩ : ∃ s, s = before (front ++ eq :: rest) last := ⟨_, rfl⟩
  rw [← hs] at hwhole hlimit ⊢
  have hcurrent : c'.cursor.current = eq := by simp [Cursor.current, hahead']
  have hadvance := Cursor.advance_of_ahead hahead' (by rw [hsign]; decide)
  -- After the equals sign.
  obtain ⟨d, hd⟩ : ∃ d, d = { c' with cursor := c'.cursor.advance } := ⟨_, rfl⟩
  have hdvalid : d.Valid := hd ▸ (advance_steady.onward c').valid hwhole.valid
  have hstat : (statement (level maxDepth)).run { s with depth := 1 }
      = (let r := (assignedValues (level maxDepth) eq).run d
        (whole.stat eq r.1, r.2)) := by
    rw [run_statement_signed hwhole.begins (by rw [hwhole.run, hwhole.sign]),
      run_signed hwhole.run, hcurrent, ← hd]
  have hbound : s.cursor.ahead.length = (front.length + rest.length) + 1 := by
    simp [hs, before, Nat.add_assoc]
  have hkept := statement_log (s := s) (hs ▸ rfl) (hs ▸ rfl) hwhole.begins.not_ends hbound
  rw [hstat] at hkept
  have hdahead : d.cursor.ahead = rest := by rw [hd, hadvance]
  have hdstop : d.cursor.lastStop ≤ distance := by
    rw [hd, hadvance]
    exact hstop
  have hvalues := run_assignedValues_cutOff hsplits hp hassigns hdvalid (hd ▸ hwhole.depth)
    (hd ▸ hdeep) (hd ▸ hwhole.log) (hdahead ▸ hrest) hdstop heq
    (fun e he => hlimit e (hkept.subset he))
  have honward := Steady.onward (p := assignedValues (level maxDepth) eq) d
  rw [hvalues] at honward
  exact ⟨whole, c', _, htargets,
    { signed := hwhole
      current := hcurrent
      values := hd ▸ hvalues
      valid := honward.valid hdvalid
      depth := hd ▸ hwhole.depth
      tooDeep := hd ▸ hdeep
      log := told_first (hd ▸ hdeep) (hd ▸ hwhole.log) _
      ahead := hdahead
      lastStop := hdstop }⟩

open Grammar in
/-- Then the text goes on as if nothing had been tried. -/
lemma Resumed.run_chunk {s u : ParseState} (h : Resumed s targets eq rest distance c u)
    (hs : s.Valid) (hdeep : s.tooDeep = false) (hdepth : s.depth = 0)
    (hsplits : Lexed.Splits p read eof) (hp : (ofSource p).diagnostics = [])
    (hrest : rest.map (Displacement.back distance).token
      = read.map (Displacement.back 0).token) :
    ∃ more, (chunk.run s).1.stats = targets.stat eq (noValues eq.span.stop) :: more
      ∧ (chunk.run s).2.log.entries
        = [.error (.empty eq.span.stop) "expected expression after '='" []]
      ∧ (Displacement.back distance).stats more
        = (Displacement.back 0).stats (ofSource p).block.stats := by
  have hahead : u.cursor.ahead = rest ++ [] := by rw [h.ahead, List.append_nil]
  have hstop : (Displacement.back distance).offset u.cursor.lastStop = 0 :=
    Nat.sub_eq_zero_of_le h.lastStop
  have hwithin := read_within (s := { u with depth := 0 }) hsplits hp Displacement.back_strictMono
    (h.valid.atDepth (Nat.zero_le _)) rfl h.tooDeep hahead hrest rfl hstop 0
  obtain ⟨⟨b, s'⟩, hr⟩ : ∃ r, (outermost.block 0).run { u with depth := 0 } = r := ⟨_, rfl⟩
  rw [hr] at hwithin
  have hend : s'.cursor.current.kind = .eof := by
    rw [Cursor.current, hwithin.ahead]
    exact hwithin.valid.eof
  obtain ⟨hstats, hstate⟩ := run_chunk_signed hs hdeep hdepth h.signed
    (by rw [h.current]; exact h.values) h.valid h.tooDeep h.depth hr hend
  rw [h.current] at hstats
  exact ⟨b.stats, hstats, by rw [hstate, hwithin.log, h.log], hwithin.stats⟩

end CutOff

/-! ### Texts that are cut off -/

/-- A text that is cut off behind the equals sign that comes after targets: with a number on the
next line it is an assignment or a declaration, about which nothing is reported. There is no comment
behind the equals sign. -/
structure Opens (head : String) (targets : Targets) (eq : Token) : Prop where
  lexed : (Lexed.ofSource head).diagnostics = []
  bare : ∀ t ∈ (Lexed.ofSource head).tokens.getLast?, t.comments = []
  clean : (ofSource (head ++ "\n" ++ "0")).diagnostics = []
  stats : ∃ value anchor, (ofSource (head ++ "\n" ++ "0")).block.stats
    = [targets.stat eq ⟨[⟨.literal value, none⟩], anchor⟩]

variable {head : String} {targets : Targets} {eq : Token}

open Grammar in
/-- The tokens of such a text end with the equals sign. -/
lemma Opens.exists_signed (h : Opens head targets eq) {front : List Token} {end_ : Token}
    (hsplits : Lexed.Splits head front end_) :
    ∃ lead number eof c, front = lead ++ [eq] ∧ eof.kind = .eof
      ∧ Signed (level maxDepth) { before (lead ++ [eq, number]) eof with depth := 1 } targets c
      ∧ c.cursor.ahead = [eq, number] := by
  obtain ⟨trivia, htokens, -, -⟩ := Lexed.tokens_joined "0" h.lexed
  have hzero : (Lexed.ofSource "0").tokens
      = [⟨.number, "0", ⟨0, 1⟩, []⟩, ⟨.eof, "", ⟨1, 1⟩, []⟩] := by decide +kernel
  rw [hsplits.tokens, List.dropLast_concat, hzero] at htokens
  obtain ⟨number, eof, hnumber, htext, heof, htokens⟩ : ∃ number eof : Token,
      number.kind = .number ∧ number.isMissing = false ∧ eof.kind = .eof
        ∧ (Lexed.ofSource (head ++ "\n" ++ "0")).tokens = (front ++ [number]) ++ [eof] :=
    ⟨_, _, rfl, rfl, rfl, htokens.trans (List.append_assoc front [_] [_]).symm⟩
  have hrun := run_chunk_before htokens heof
  obtain ⟨value, anchor, hstats⟩ := h.stats
  have hfront : ∀ t ∈ front ++ [number], t.kind ≠ .eof ∧ t.isMissing = false := by
    simp only [List.mem_append, List.mem_singleton, or_imp, forall_and, forall_eq]
    exact ⟨⟨hsplits.kind, by simp [hnumber]⟩, fun _ => hsplits.present, htext⟩
  obtain ⟨lead, c, rfl, hsigned, hahead⟩ := signed_of_literal heof hfront hnumber
    (by rw [hrun]; exact (quiet h.clean).2) (by rw [hrun]; exact hstats)
  rw [List.append_assoc] at hsigned
  exact ⟨lead, number, eof, c, rfl, heof, hsigned, hahead⟩

/-- The targets and the equals sign of a chunk that declares local names with one literal. -/
def literalLocal? (b : Block) : Option (Targets × Token) :=
  match b.stats with
  | [.local_ keyword names (some eq) ⟨[⟨.literal _, none⟩], _⟩] =>
    some (.declared keyword names, eq)
  | _ => none

lemma stats_of_literalLocal? {b : Block} (h : literalLocal? b = some (targets, eq)) :
    ∃ value anchor, b.stats = [targets.stat eq ⟨[⟨.literal value, none⟩], anchor⟩] := by
  unfold literalLocal? at h
  split at h
  · next keyword names eq value anchor hstats =>
    cases h
    exact ⟨value, anchor, hstats⟩
  · cases h

/-- **An assignment that is cut off does no harm to the next one.** -/
theorem cutOff_local (hhead : Opens head targets eq) (hp : (ofSource p).diagnostics = [])
    (hassigns : Assigns p)
    (hlimit : ∀ d ∈ (ofSource (head ++ "\n" ++ p)).diagnostics, d.message ≠ limitMessage) :
    ∃ shifted rest,
      (Lexed.ofSource (head ++ "\n" ++ p)).tokens
          = (Lexed.ofSource head).tokens.dropLast ++ shifted
        ∧ Token.Shifted (Text.byteSize (head ++ "\n").toList) (Lexed.ofSource p).tokens shifted
        ∧ (ofSource (head ++ "\n" ++ p)).diagnostics
          = [.error (.empty eq.span.stop) "expected expression after '='" []]
        ∧ (ofSource (head ++ "\n" ++ p)).block.stats
          = targets.stat eq ⟨[⟨.invalid none [] eq.span.stop, none⟩], eq.span.stop⟩ :: rest
        ∧ (Displacement.back (Text.byteSize (head ++ "\n").toList)).stats rest
          = (Displacement.back 0).stats (ofSource p).block.stats := by
  obtain ⟨trivia, htokens, hcomments, hreports⟩ := Lexed.tokens_joined p hhead.lexed
  obtain ⟨front, end_, hsplits⟩ := Lexed.exists_splits head
  obtain ⟨read, eof, hpsplits⟩ := Lexed.exists_splits p
  obtain ⟨lead, number, eof', c, rfl, heof', hsigned, hahead⟩ := hhead.exists_signed hsplits
  have hbare : (Lexed.ofSource head).tokens.getLast?.elim [] (·.comments) = [] := by
    cases hlast : (Lexed.ofSource head).tokens.getLast? with
    | none => rfl
    | some t => exact hhead.bare t hlast
  rw [hbare, List.nil_append] at hcomments
  obtain ⟨shifted, htokens, hshifted⟩ : ∃ l, (Lexed.ofSource (head ++ "\n" ++ p)).tokens
        = (Lexed.ofSource head).tokens.dropLast ++ l
      ∧ Token.Shifted (Text.byteSize (head ++ "\n").toList) (Lexed.ofSource p).tokens l :=
    ⟨_, htokens, Token.shifted_behind hcomments⟩
  obtain ⟨rest, last, rfl, hlast, hrest⟩ :=
    Token.Shifted.split (hpsplits.tokens ▸ hshifted) hpsplits.eof_kind
  have htokens' : (Lexed.ofSource (head ++ "\n" ++ p)).tokens
      = (lead ++ eq :: rest) ++ [last] := by
    simpa [hsplits.tokens] using htokens
  have hrun := run_chunk_before htokens' hlast
  have hquiet : (Lexed.ofSource (head ++ "\n" ++ p)).diagnostics = [] := by
    rw [hreports, (quiet hp).1]
    rfl
  have heq : eq ∈ lead ++ [eq] := by simp
  have hstop : eq.span.stop ≤ Text.byteSize (head ++ "\n").toList := by
    rw [String.toList_append, Text.byteSize_append]
    exact Nat.le_trans (hsplits.stop_le heq) (Nat.le_add_right _ _)
  obtain ⟨whole, c', u, htargets, hresumed⟩ := exists_resumed hpsplits hp hassigns heof' hlast
    hsigned hahead (hsplits.present heq) hstop hrest (by
      rw [hrun]
      refine fun d hd => hlimit d ?_
      rw [diagnostics_eq, Diagnostic.sorted, List.mem_mergeSort]
      exact List.mem_append_right _ hd)
  obtain ⟨more, hstats, hlog, hmore⟩ :=
    hresumed.run_chunk (before_valid hlast) rfl rfl hpsplits hp hrest
  rw [hrun] at hstats hlog
  have hwhole : Displacement.still.targets whole = whole := by
    have hstill := block_still (head ++ "\n" ++ p)
    rw [hstats] at hstill
    obtain ⟨hstat, -⟩ := List.cons.inj hstill
    rw [Displacement.stat_targets] at hstat
    exact (Targets.stat_inj hstat).1
  refine ⟨rest ++ [last], more, htokens, hshifted, ?_, ?_, hmore⟩
  · rw [diagnostics_eq, hquiet, hlog]
    exact List.mergeSort_singleton _
  · rw [← htargets, hwhole]
    exact hstats

theorem cutOff_local_names :
    let source := "local x, y =" ++ "\n" ++ "t.z = 1"
    ∃ targets eq, Opens "local x, y =" targets eq ∧ (ofSource "t.z = 1").diagnostics = []
      ∧ Assigns "t.z = 1" ∧ (∀ d ∈ (ofSource source).diagnostics, d.message ≠ limitMessage)
      ∧ ∃ rest, (ofSource source).diagnostics
          = [.error ⟨12, 12⟩ "expected expression after '='" []]
        ∧ (ofSource source).block.stats
          = targets.stat eq ⟨[⟨.invalid none [] 12, none⟩], 12⟩ :: rest
        ∧ (Displacement.back 13).stats rest
          = (Displacement.back 0).stats (ofSource "t.z = 1").block.stats := by
  intro source
  have hp : (ofSource "t.z = 1").diagnostics = [] := by decide +kernel
  have hassigns : Assigns "t.z = 1" := by decide +kernel
  have hlimit : ∀ d ∈ (ofSource source).diagnostics, d.message ≠ limitMessage := by decide +kernel
  have hnames : (literalLocal? (ofSource ("local x, y =" ++ "\n" ++ "0")).block).any
      (·.2.span = ⟨11, 12⟩) = true := by decide +kernel
  obtain ⟨⟨targets, eq⟩, hfound, hspan⟩ := (Option.any_eq_true ..).1 hnames
  have hhead : Opens "local x, y =" targets eq :=
    ⟨by decide +kernel, by decide +kernel, by decide +kernel, stats_of_literalLocal? hfound⟩
  obtain ⟨_, rest, -, -, hreports, hblock, hrest⟩ := cutOff_local hhead hp hassigns hlimit
  rw [of_decide_eq_true hspan] at hreports hblock
  exact ⟨targets, eq, hhead, hp, hassigns, hlimit, rest, hreports, hblock, hrest⟩

end Parsed

end LuaFront
