import LuaFront.Proofs.Parser.Quiet

/-!
The outermost block and what strays behind it. Where a chunk that gives rise to no report stands
within another one, it is read there as it is by itself, up to its end.
-/

namespace LuaFront

namespace Grammar

open Parse ParseState

variable {s : ParseState} {bound : Nat}

/-! ### Runs -/

/-- The statements of the outermost block stand one level deep. -/
lemma run_outermost (hdeep : s.tooDeep = false) (hdepth : s.depth = 0) (anchor : Offset) :
    (outermost.block anchor).run s
      = (⟨((statements (level maxDepth) s.cursor.ahead.length false).run { s with depth := 1 }).1,
          anchor⟩,
        (leave.run ((statements (level maxDepth) s.cursor.ahead.length false).run
          { s with depth := 1 }).2).2) := by
  refine (run_nested_entered hdeep (by rw [hdepth]; decide)).trans ?_
  rw [hdepth]
  rfl

/-- What was stray is reported and skipped, and another block follows. -/
def skipStray (bound : Nat) : Parse (List Stat) := do
  let stray ← advance
  error stray.span ("unexpected " ++ stray.kind.describe) []
  let rest ← outermost.blockHere
  return .invalid none [stray] stray.span.start :: rest.stats ++ (← strays bound)

lemma run_strays_succ : (strays (bound + 1)).run s
    = (if s.cursor.current.kind = .eof then return [] else skipStray bound).run s := by
  have hrun : (strays (bound + 1)).run s
      = (if decide (s.cursor.current.kind = .eof) then return [] else skipStray bound).run s := rfl
  rw [hrun]
  simp only [decide_eq_true_eq]

lemma run_strays_end (h : s.cursor.current.kind = .eof) : (strays bound).run s = ([], s) := by
  cases bound with
  | zero => rfl
  | succ bound =>
    rw [run_strays_succ, if_pos h]
    rfl

lemma run_skipStray : (skipStray bound).run s
    = let t := s.cursor.current
      let s' := { s with cursor := s.cursor.advance }
      let r := (outermost.block s'.cursor.lastStop).run
        { s' with log := told s' (.error t.span ("unexpected " ++ t.kind.describe) []) }
      let l := (strays bound).run r.2
      (.invalid none [t] t.span.start :: r.1.stats ++ l.1, l.2) := by
  rw [skipStray, run_bind (run_advance s), run_bind (run_error_eq ..)]
  rfl

/-- Where a token strays, that is reported. -/
lemma run_strays_report (hs : s.Valid) (h : s.cursor.current.kind ≠ .eof) :
    ((strays s.cursor.ahead.length).run s).2.log.entries ≠ [] := by
  obtain ⟨t, rest, hahead⟩ : ∃ t rest, s.cursor.ahead = t :: rest := by
    cases hahead : s.cursor.ahead with
    | nil => exact absurd (by rw [Cursor.current, hahead]; exact hs.eof) h
    | cons t rest => exact ⟨t, rest, rfl⟩
  rw [hahead, List.length_cons, run_strays_succ, if_neg h, skipStray, run_bind (run_advance s)]
  exact run_error_ne_nil fun hgave => (hs.gaveUp hgave).2

/-- Where the outermost block stands does not matter for what is in it. -/
lemma run_outermost_anchor (hdeep : s.tooDeep = false) (hdepth : s.depth = 0)
    (anchor other : Offset) :
    ((outermost.block anchor).run s).1.stats = ((outermost.block other).run s).1.stats
      ∧ ((outermost.block anchor).run s).2 = ((outermost.block other).run s).2 := by
  rw [run_outermost hdeep hdepth, run_outermost hdeep hdepth]
  exact ⟨rfl, rfl⟩

/-- If nothing is reported, nothing strays. -/
lemma run_chunk_quiet (hs : s.Valid) (hlog : (chunk.run s).2.log.entries = []) :
    chunk.run s = (outermost.block s.cursor.current.span.start).run s
      ∧ (chunk.run s).2.cursor.current.kind = .eof := by
  have hrun : chunk.run s = (let r := (outermost.block s.cursor.current.span.start).run s
      let l := (strays r.2.cursor.ahead.length).run r.2
      ({ r.1 with stats := r.1.stats ++ l.1 }, l.2)) := rfl
  have hvalid := ((outermost_steady.block s.cursor.current.span.start).onward s).valid hs
  rw [hrun] at hlog ⊢
  generalize (outermost.block s.cursor.current.span.start).run s = r at hlog hvalid ⊢
  obtain ⟨⟨stats, anchor⟩, s'⟩ := r
  by_cases heof : s'.cursor.current.kind = .eof
  · simp only [run_strays_end heof, List.append_nil]
    exact ⟨trivial, heof⟩
  · exact absurd hlog (run_strays_report hvalid heof)

/-! ### The first statement -/

section First

variable {l : Level} {afterReturn : Bool} {a : Stat} {rest : List Stat}

lemma run_statements_ends (h : s.cursor.current.kind.endsBlock = true) :
    (statements l bound afterReturn).run s = ([], s) := by
  cases bound with
  | zero => rfl
  | succ bound =>
    rw [statements, run_currentKind, if_pos h]
    rfl

lemma run_statements_succ (h : s.cursor.current.kind.endsBlock = false) :
    (statements l (bound + 1) false).run s
      = (let r := (statement l).run s
        let m := (statements l bound r.1.isReturn).run r.2
        (r.1 :: m.1, m.2)) := by
  rw [statements, run_currentKind, if_neg (by simp [h])]
  rfl

/-- Where there is no statement, nothing is read. -/
lemma run_statements_nil (h : ((statements l bound afterReturn).run s).1 = []) :
    ((statements l bound afterReturn).run s).2 = s := by
  cases bound with
  | zero => rfl
  | succ bound =>
    cases hends : s.cursor.current.kind.endsBlock with
    | true => rw [run_statements_ends hends]
    | false =>
      rw [statements, run_currentKind, if_neg (by simp [hends])] at h
      cases h

lemma run_outermost_cons (hdeep : s.tooDeep = false) (hdepth : s.depth = 0)
    (hkind : s.cursor.current.kind.endsBlock = false)
    (hbound : s.cursor.ahead.length = bound + 1) (anchor : Offset) :
    (outermost.block anchor).run s
      = (let r := (statement (level maxDepth)).run { s with depth := 1 }
        let m := (statements (level maxDepth) bound r.1.isReturn).run r.2
        (⟨r.1 :: m.1, anchor⟩, (leave.run m.2).2)) := by
  rw [run_outermost hdeep hdepth, hbound, run_statements_succ (s := { s with depth := 1 }) hkind]

/-- What a chunk begins with, as long as it does not end a block. -/
lemma run_chunk_cons (hdeep : s.tooDeep = false) (hdepth : s.depth = 0)
    (hkind : s.cursor.current.kind.endsBlock = false)
    (hbound : s.cursor.ahead.length = bound + 1) :
    chunk.run s
      = (let r := (statement (level maxDepth)).run { s with depth := 1 }
        let m := (statements (level maxDepth) bound r.1.isReturn).run r.2
        let s' := (leave.run m.2).2
        let l := (strays s'.cursor.ahead.length).run s'
        (⟨r.1 :: m.1 ++ l.1, s.cursor.current.span.start⟩, l.2)) := by
  have hrun : chunk.run s = (let r := (outermost.block s.cursor.current.span.start).run s
      let l := (strays r.2.cursor.ahead.length).run r.2
      ({ r.1 with stats := r.1.stats ++ l.1 }, l.2)) := rfl
  rw [hrun, run_outermost_cons hdeep hdepth hkind hbound]

/-- What is reported in the first statement is reported. -/
lemma statement_log (hdeep : s.tooDeep = false) (hdepth : s.depth = 0)
    (hkind : s.cursor.current.kind.endsBlock = false)
    (hbound : s.cursor.ahead.length = bound + 1) :
    ((statement (level maxDepth)).run { s with depth := 1 }).2.log.entries
      <+: (chunk.run s).2.log.entries := by
  rw [run_chunk_cons hdeep hdepth hkind hbound]
  obtain ⟨r, hr⟩ : ∃ r, (statement (level maxDepth)).run { s with depth := 1 } = r := ⟨_, rfl⟩
  obtain ⟨m, hm⟩ : ∃ m, (statements (level maxDepth) bound r.1.isReturn).run r.2 = m := ⟨_, rfl⟩
  have hstatements :=
    Steady.onward (p := statements (level maxDepth) bound r.1.isReturn) r.2
  rw [hm] at hstatements
  simp only [hr, hm]
  exact hstatements.log.trans (strays_steady.onward (leave.run m.2).2).log

/-- A chunk with statements, in which nothing strays, begins with one. -/
lemma ends_of_stats (hs : s.Valid) (hdeep : s.tooDeep = false) (hdepth : s.depth = 0)
    (hlog : (chunk.run s).2.log.entries = []) (hstats : (chunk.run s).1.stats = a :: rest) :
    s.cursor.current.kind.endsBlock = false := by
  by_contra hends
  rw [(run_chunk_quiet hs hlog).1, run_outermost hdeep hdepth,
    run_statements_ends (s := { s with depth := 1 }) (by simpa using hends)] at hstats
  cases hstats

/-- Where nothing is reported, the first statement is read first. -/
lemma chunk_first (hs : s.Valid) (hdeep : s.tooDeep = false) (hdepth : s.depth = 0)
    (hlog : (chunk.run s).2.log.entries = []) (hstats : (chunk.run s).1.stats = a :: rest) :
    ∃ u, (statement (level maxDepth)).run { s with depth := 1 } = (a, u) ∧ u.log.entries = []
      ∧ (rest = [] → u.cursor.current.kind = .eof) := by
  have hends := ends_of_stats hs hdeep hdepth hlog hstats
  obtain ⟨hrun, heof⟩ := run_chunk_quiet hs hlog
  rw [hrun] at hlog hstats heof
  have hne : s.cursor.current.kind ≠ .eof := fun heq => by simp [heq, TokenKind.endsBlock] at hends
  obtain ⟨ahead, hahead⟩ := ahead_of_facing hs rfl hne
  rw [run_outermost_cons hdeep hdepth hends (congrArg List.length hahead)] at hlog hstats heof
  obtain ⟨r, hr⟩ : ∃ r, (statement (level maxDepth)).run { s with depth := 1 } = r := ⟨_, rfl⟩
  rw [hr] at hlog hstats heof ⊢
  obtain ⟨rfl, hmore⟩ := List.cons.inj hstats
  refine ⟨r.2, rfl, ?_, fun hnil => ?_⟩
  · have honward :=
      Steady.onward (p := statements (level maxDepth) ahead.length r.1.isReturn) r.2
    exact List.prefix_nil.1 (hlog ▸ honward.log)
  · have hstay := run_statements_nil (hmore.trans hnil)
    have heof' : ((statements (level maxDepth) ahead.length r.1.isReturn).run
      r.2).2.cursor.current.kind = .eof := heof
    rwa [hstay] at heof'

end First

/-! ### A chunk within another -/

lemma outermost_echoes {x : Excerpt} (hgap : x.gap = 0) : outermost.Echoes x 0 outermost := by
  have hdeepest : 0 + x.gap + (maxDepth + 1) = maxDepth + 1 := by rw [hgap]; decide
  have hlevel := level_echoes hdeepest
  rwa [hgap] at hlevel

/-- A chunk about which nothing is reported is read within another one, up to a token that ends the
block, or to the end. -/
theorem chunk_within {x : Excerpt} {t : ParseState} (hgap : x.gap = 0) (hlimit : ¬ x.limited)
    (hclose : x.close = []) (hrest : (Token.frontKind x.rest).beginsStat = false)
    (hecho : x.Echo 0 s t) (hkinds : ∀ a ∈ t.cursor.ahead, a.kind ≠ .eof)
    (hlog : (chunk.run t).2.log.entries = []) (anchor : Offset) :
    (chunk.run t).1.stats = x.move.stats ((outermost.block anchor).run s).1.stats
      ∧ ((outermost.block anchor).run s).2.cursor.ahead = x.rest
      ∧ x.Echo 0 ((outermost.block anchor).run s).2 (chunk.run t).2 := by
  obtain ⟨hrun, heof⟩ := run_chunk_quiet hecho.part hlog
  obtain ⟨hstats, hstate⟩ := run_outermost_anchor hecho.going hecho.depth_part
    t.cursor.current.span.start (x.move.offset anchor)
  have honward := ((outermost_steady.block (x.move.offset anchor)).onward t).cursor
  rw [hrun] at hlog heof ⊢
  rw [hstate] at hlog heof ⊢
  rw [hstats]
  have hblocks := ((outermost_echoes hgap).block anchor).echoes hrest s t hecho trivial
  rcases hblocks with hgave | hlost | ⟨hblock, hecho'⟩
  · exact absurd hgave.limited hlimit
  · rcases hlost with hreported | hpassed
    · exact absurd hlog hreported
    · simp [hclose] at hpassed
  · refine ⟨(congrArg Block.stats hblock).trans (Displacement.stats_block _), ?_, hecho'⟩
    · obtain ⟨front, hs, ht⟩ := hecho'.ahead
      cases front with
      | nil => exact hs
      | cons a front =>
        obtain ⟨l, hl, -⟩ := honward
        have hmem : x.move.token a ∈ t.cursor.ahead := by
          rw [hl]
          exact List.mem_append_right _ (by rw [ht]; simp)
        exact absurd (by simpa [Cursor.current, ht] using heof) (hkinds _ hmem)

/-! ### Statements in front of others -/

section Before

variable {x : Excerpt} {depth k : Nat} {t u : ParseState} {l : List Stat}

lemma facing_of_return {inner : Level} [inner.Steady] {a : Stat}
    (h : Quiet (statement inner) t a u) (ha : a.isReturn = false) :
    t.cursor.current.kind ≠ .keyword .return_ := by
  intro hat
  have h : Quiet (returnStat inner) t a u := h.congr (by rw [statement, run_currentKind, hat])
  obtain ⟨keyword, v₁, -, h⟩ := h.bind
  obtain ⟨values, v₂, -, h⟩ := h.bind
  obtain ⟨semi, v₃, -, h⟩ := h.bind
  obtain ⟨rfl, -⟩ := h.ret
  cases ha

/-- Statements before a token that ends no block are the first one and those after it. -/
lemma statements_cases {inner : Level} [inner.Steady] {bound : Nat}
    (hends : t.cursor.current.kind.endsBlock = false)
    (h : Quiet (statements inner (bound + 1) false) t l u) :
    ∃ a more v, l = a :: more ∧ Quiet (statement inner) t a v
      ∧ Quiet (statements inner bound a.isReturn) v more u := by
  have h : Quiet (do
      let a ← statement inner
      errorIf false (Node.stat a).span "'return' must be the last statement in a block"
      return a :: (← statements inner bound a.isReturn)) t l u :=
    h.congr (by rw [statements, run_currentKind, if_neg (by simp [hends])])
  obtain ⟨a, v, hstat, h⟩ := h.bind
  obtain ⟨_, v', herror, h⟩ := h.bind
  obtain ⟨-, rfl⟩ := herror.ret
  obtain ⟨more, w, hmore, h⟩ := h.bind
  obtain ⟨rfl, rfl⟩ := h.ret
  exact ⟨a, more, _, rfl, hstat, hmore⟩

/-- The statements of a part come first in the whole, too, if no return statement ends them. What
comes after the part is then read as it is by itself. -/
theorem statements_within {bound : Nat} (hk : depth + x.gap + k = maxDepth + 1)
    (hclose : x.close = []) (hecho : x.Echo depth s t)
    (hq : Quiet (statements (level (k + x.gap)) bound false) t l u) (hend : u.cursor.ahead = [])
    (hreturn : ∀ a ∈ l, a.isReturn = false) :
    x.Gave ((statements (level k) s.cursor.ahead.length false).run s).2
      ∨ ∃ l' s', l = l'.map x.move.stat ∧ x.Echo depth s' u ∧ s'.cursor.ahead = x.rest
        ∧ (statements (level k) s.cursor.ahead.length false).run s
          = (let r := (statements (level k) x.rest.length false).run s'
            (l' ++ r.1, r.2)) := by
  have hlevel := level_echoes hk
  -- What is not read of the part is not there.
  have hstay : ∀ {s}, x.Echo depth s u → s.cursor.ahead = x.rest := by
    intro s hecho
    obtain ⟨front, hs, ht⟩ := hecho.ahead
    rw [hend, hclose, List.append_nil] at ht
    rw [hs, List.map_eq_nil_iff.1 ht.symm, List.nil_append]
  induction bound generalizing s t l with
  | zero =>
    obtain ⟨rfl, rfl⟩ := hq.ret
    exact .inr ⟨[], s, rfl, hecho, hstay hecho, by rw [hstay hecho]; rfl⟩
  | succ bound ih =>
    cases hends : t.cursor.current.kind.endsBlock with
    | true =>
      have hrun := hq.run
      rw [run_statements_ends hends] at hrun
      obtain ⟨rfl, rfl⟩ := Prod.mk.inj hrun
      exact .inr ⟨[], s, rfl, hecho, hstay hecho, by rw [hstay hecho]; rfl⟩
    | false =>
      have hne : t.cursor.current.kind ≠ .eof := by
        intro heq
        simp [heq, TokenKind.endsBlock] at hends
      obtain ⟨a, more, v, rfl, hstat, hmore⟩ := statements_cases hends hq
      have ha := hreturn a List.mem_cons_self
      rw [ha] at hmore
      obtain ⟨n, hn⟩ : ∃ n, s.cursor.ahead.length = n + 1 := by
        obtain ⟨rest, hahead⟩ := ahead_of_facing hecho.whole (hecho.kind_eq hne) hne
        exact ⟨rest.length, by rw [hahead]; rfl⟩
      have hfirst := statement_echoes hlevel s t hecho ⟨hne, facing_of_return hstat ha⟩
      have hshort := statement_shortens hlevel.good_whole hecho.whole hecho.depth_whole
        (by rw [hecho.kind_eq hne]; exact hends)
      rw [hstat.run] at hfirst
      rw [hn, run_statements_succ (by rw [hecho.kind_eq hne]; exact hends)]
      obtain ⟨r, hr⟩ : ∃ r, (statement (level k)).run s = r := ⟨_, rfl⟩
      rw [hr] at hfirst hshort ⊢
      rcases hfirst with hgave | hlost | ⟨heq, hecho'⟩
      · exact .inl (hgave.onward (Steady.onward (p := statements (level k) n r.1.isReturn) r.2))
      · rcases hlost with hreported | hpassed
        · exact absurd hstat.log hreported
        · simp [hclose] at hpassed
      · have heq : a = x.move.stat r.1 := heq
        have hkept : r.1.isReturn = false := by rw [← ha, heq, Displacement.isReturn_stat]
        have hample : (statements (level k) n false).run r.2 = _ :=
          (statements_ample hlevel.good_whole).run_eq hecho'.whole hecho'.depth_whole (by omega)
        simp only [hkept, hample]
        rcases ih hecho' hmore fun b hb => hreturn b (List.mem_cons_of_mem _ hb) with
          hgave | ⟨l', s', rfl, hend', hahead', hrun⟩
        · exact .inl hgave
        · refine .inr ⟨r.1 :: l', s', by rw [List.map_cons, ← heq], hend', hahead', ?_⟩
          rw [hrun]
          rfl

end Before

end Grammar

end LuaFront
