import LuaFront.Proofs.Chunk.Within

/-!
Tokens that end a block where none is open. Such a token is reported and kept in the tree; the text
before it and the text after it are read as if it were not there.
-/

namespace LuaFront

namespace Grammar

open Parse ParseState

variable {s : ParseState}

lemma outermost_still (hs : ∀ t ∈ s.cursor.tokens, t.span.start ≤ t.span.stop)
    (hlog : s.log.entries = []) (anchor : Offset) :
    Displacement.still.stats ((outermost.block anchor).run s).1.stats
      = ((outermost.block anchor).run s).1.stats := by
  have hblock : Displacement.still.block ((outermost.block anchor).run s).1
      = ((outermost.block anchor).run s).1 := Moves.still ((level_moved _).block anchor) hs hlog
  rw [← Displacement.stats_block, hblock]

/-- A chunk with one token that strays: the block before it, the token, and the block after it. -/
lemma run_chunk_stray {b c : Block} {s' s'' : ParseState} {t : Token} {rest : List Token}
    (hfirst : (outermost.block s.cursor.current.span.start).run s = (b, s'))
    (hahead : s'.cursor.ahead = t :: rest) (ht : t.kind ≠ .eof)
    (hsecond : (outermost.block t.span.stop).run { s' with
      cursor := ⟨t :: s'.cursor.behind, rest, s'.cursor.eof⟩
      log := told s' (.error t.span ("unexpected " ++ t.kind.describe) []) } = (c, s''))
    (hend : s''.cursor.current.kind = .eof) :
    chunk.run s
      = (⟨b.stats ++ .invalid none [t] t.span.start :: c.stats, b.anchor⟩, s'') := by
  have hrun : chunk.run s = (let r := (outermost.block s.cursor.current.span.start).run s
      let l := (strays r.2.cursor.ahead.length).run r.2
      ({ r.1 with stats := r.1.stats ++ l.1 }, l.2)) := rfl
  have hcurrent : s'.cursor.current = t := by simp [Cursor.current, hahead]
  have hlast : (⟨t :: s'.cursor.behind, rest, s'.cursor.eof⟩ : Cursor).lastStop = t.span.stop := rfl
  have hstrays : (strays (rest.length + 1)).run s'
      = (.invalid none [t] t.span.start :: c.stats, s'') := by
    rw [run_strays_succ, if_neg (by rwa [hcurrent]), run_skipStray, hcurrent,
      Cursor.advance_of_ahead hahead ht]
    have htold : ∀ cursor : Cursor, told { s' with cursor } = told s' := fun _ => rfl
    simp only [htold, hlast, hsecond, run_strays_end hend, List.append_nil]
  rw [hrun, hfirst]
  simp only [hahead, List.length_cons, hstrays]

end Grammar

namespace Parsed

open Parse ParseState

/-- Behind a text a stray token is skipped, and only that token is reported. -/
lemma Within.skip {p : String} {m move : Displacement} {stray : Token} {front : List Token}
    {s s' u : ParseState} {b : Block} (h : Within p m move (stray :: front) s b s')
    (hlog : s.log = .empty)
    (hu : u = { s' with
      cursor := ⟨stray :: s'.cursor.behind, front, s'.cursor.eof⟩
      log := told s' (.error stray.span ("unexpected " ++ stray.kind.describe) []) }) :
    u.Valid ∧ u.log.entries = [.error stray.span ("unexpected " ++ stray.kind.describe) []] := by
  have htold : u.log.entries = [.error stray.span ("unexpected " ++ stray.kind.describe) []] := by
    rw [hu]
    exact told_first h.tooDeep (congrArg Log.entries (h.log.trans hlog)) _
  refine ⟨⟨hu ▸ h.valid.eof, hu ▸ h.valid.depth, fun hgave => ?_, ?_⟩, htold⟩
  · rw [hu, h.tooDeep] at hgave
    cases hgave
  · rw [htold]
    exact List.forall_mem_singleton.2 rfl

open Grammar in
/-- How the tokens of two texts are read that have a stray token between them. -/
lemma run_stray {p q : String} {read read' front : List Token} {eof eof' stray last : Token}
    {distance : Nat} (hpsplits : Lexed.Splits p read eof) (hqsplits : Lexed.Splits q read' eof')
    (hp : (ofSource p).diagnostics = []) (hq : (ofSource q).diagnostics = [])
    (hends : stray.kind.endsBlock = true) (hne : stray.kind ≠ .eof)
    (hstop : stray.span.stop ≤ distance)
    (hfront : front.map (Displacement.back distance).token
      = read'.map (Displacement.back 0).token)
    (hlast : last.kind = .eof)
    (hupright : ∀ t ∈ read ++ stray :: (front ++ [last]), t.span.start ≤ t.span.stop) :
    ∃ rest, (chunk.run (before (read ++ stray :: front) last)).1.stats
        = (ofSource p).block.stats ++ .invalid none [stray] stray.span.start :: rest
      ∧ (chunk.run (before (read ++ stray :: front) last)).2.log.entries
        = [.error stray.span ("unexpected " ++ stray.kind.describe) []]
      ∧ (Displacement.back distance).stats rest
        = (Displacement.back 0).stats (ofSource q).block.stats := by
  obtain ⟨s, hs⟩ : ∃ s, s = before (read ++ stray :: front) last := ⟨_, rfl⟩
  have hahead : s.cursor.ahead = read ++ stray :: front := by
    rw [hs]
    rfl
  have hstart : Displacement.still.offset s.cursor.lastStop = 0 := by
    rw [hs]
    rfl
  have hfirst := read_within hpsplits hp Displacement.still_strictMono (hs ▸ before_valid hlast)
    (by rw [hs]; rfl) (by rw [hs]; rfl) hahead rfl hends hstart s.cursor.current.span.start
  have hstill := outermost_still (s := s) (by rw [hs]; simpa [before, Cursor.tokens] using hupright)
    (by rw [hs]; rfl) s.cursor.current.span.start
  rw [hfirst.stats, block_still] at hstill
  have hlog : s.log = .empty := by rw [hs]; rfl
  rw [← hs]
  obtain ⟨⟨b, s'⟩, hr⟩ : ∃ r, (outermost.block s.cursor.current.span.start).run s = r := ⟨_, rfl⟩
  rw [hr] at hfirst hstill
  have hstats : b.stats = (ofSource p).block.stats := hstill.symm
  -- Between the texts the stray token is reported and skipped.
  obtain ⟨u, hu⟩ : ∃ u, u = { s' with
    cursor := ⟨stray :: s'.cursor.behind, front, s'.cursor.eof⟩
    log := told s' (.error stray.span ("unexpected " ++ stray.kind.describe) []) } := ⟨_, rfl⟩
  obtain ⟨huvalid, htold⟩ := hfirst.skip hlog hu
  have huahead : u.cursor.ahead = front ++ [] := by simp [hu]
  have hustart : (Displacement.back distance).offset u.cursor.lastStop = 0 := by
    rw [hu]
    exact Nat.sub_eq_zero_of_le hstop
  have hsecond := read_within hqsplits hq Displacement.back_strictMono huvalid (hu ▸ hfirst.depth)
    (hu ▸ hfirst.tooDeep) huahead hfront rfl hustart stray.span.stop
  obtain ⟨⟨c, s''⟩, hr'⟩ : ∃ r, (outermost.block stray.span.stop).run u = r := ⟨_, rfl⟩
  rw [hr'] at hsecond
  have hend : s''.cursor.current.kind = .eof := by
    rw [Cursor.current, hsecond.ahead]
    exact hsecond.valid.eof
  rw [run_chunk_stray hr hfirst.ahead hne (hu ▸ hr') hend]
  exact ⟨c.stats, by rw [hstats], by rw [hsecond.log, htold], hsecond.stats⟩

/-- **A stray terminator is isolated.** On a line between two texts about which nothing is reported,
it is all that is reported. The tree has the statements of the first text, the token, and the
statements of the second text, whose tokens stand further on by what is in front of them. -/
theorem stray_isolated {p q : String} {k : Keyword}
    (hk : k ∈ [Keyword.end_, .else_, .elseif_, .until_])
    (hp : (ofSource p).diagnostics = []) (hq : (ofSource q).diagnostics = []) :
    ∃ stray shifted rest,
      (Lexed.ofSource (p ++ "\n" ++ k.spelling ++ "\n" ++ q)).tokens
          = (Lexed.ofSource p).tokens.dropLast ++ stray :: shifted
        ∧ stray.kind = .keyword k ∧ stray.text = k.spelling
        ∧ stray.span = ⟨Text.byteSize (p ++ "\n").toList,
          Text.byteSize (p ++ "\n" ++ k.spelling).toList⟩
        ∧ Token.Shifted (Text.byteSize (p ++ "\n" ++ k.spelling ++ "\n").toList)
          (Lexed.ofSource q).tokens shifted
        ∧ (ofSource (p ++ "\n" ++ k.spelling ++ "\n" ++ q)).diagnostics
          = [.error stray.span ("unexpected '" ++ k.spelling ++ "'") []]
        ∧ (ofSource (p ++ "\n" ++ k.spelling ++ "\n" ++ q)).block.stats
          = (ofSource p).block.stats ++ .invalid none [stray] stray.span.start :: rest
        ∧ (Displacement.back (Text.byteSize (p ++ "\n" ++ k.spelling ++ "\n").toList)).stats rest
          = (Displacement.back 0).stats (ofSource q).block.stats := by
  obtain ⟨stray, shifted, htokens, hkind, htext, hspan, hshifted, hreports⟩ :=
    Lexed.tokens_around k q (quiet hp).1
  obtain ⟨read, eof, hpsplits⟩ := Lexed.exists_splits p
  obtain ⟨read', eof', hqsplits⟩ := Lexed.exists_splits q
  obtain ⟨front, e, rfl, hekind, hfront⟩ :=
    Token.Shifted.split (hqsplits.tokens ▸ hshifted) hqsplits.eof_kind
  have hends : stray.kind.endsBlock = true := by
    simp only [List.mem_cons, List.not_mem_nil, or_false] at hk
    rw [hkind]
    rcases hk with rfl | rfl | rfl | rfl <;> rfl
  have hstop : stray.span.stop ≤ Text.byteSize (p ++ "\n" ++ k.spelling ++ "\n").toList := by
    have hsize : Text.byteSize (p ++ "\n" ++ k.spelling ++ "\n").toList
        = Text.byteSize (p ++ "\n" ++ k.spelling).toList + 1 := by
      rw [String.toList_append, Text.byteSize_append]
      rfl
    rw [hspan, hsize]
    exact Nat.le_succ _
  have hupright := Lexed.upright (p ++ "\n" ++ k.spelling ++ "\n" ++ q)
  rw [hpsplits.tokens, List.dropLast_concat] at htokens
  rw [htokens] at hupright
  obtain ⟨rest, hstats, hlog, hrest⟩ := run_stray hpsplits hqsplits hp hq hends (by simp [hkind])
    hstop hfront hekind hupright
  rw [← List.cons_append, ← List.append_assoc] at htokens
  rw [run_chunk_before htokens hekind] at hstats hlog
  refine ⟨stray, front ++ [e], rest, ?_, hkind, htext, hspan, hshifted, ?_, hstats, hrest⟩
  · rw [htokens, hpsplits.tokens, List.dropLast_concat, List.append_assoc]
    rfl
  · have hmessage : "unexpected " ++ (TokenKind.keyword k).describe
        = "unexpected '" ++ k.spelling ++ "'" := by
      rw [TokenKind.describe, ← String.append_assoc, ← String.append_assoc]
      rfl
    rw [diagnostics_eq, hreports, (quiet hq).1, hlog, hkind, hmessage]
    exact List.mergeSort_singleton _

theorem stray_isolated_end :
    Keyword.end_ ∈ [Keyword.end_, .else_, .elseif_, .until_]
      ∧ (ofSource "x = 1").diagnostics = [] ∧ (ofSource "y = 2").diagnostics = []
      ∧ ∃ stray rest,
        (ofSource ("x = 1" ++ "\n" ++ Keyword.end_.spelling ++ "\n" ++ "y = 2")).diagnostics
            = [.error ⟨6, 9⟩ "unexpected 'end'" []]
          ∧ (ofSource ("x = 1" ++ "\n" ++ Keyword.end_.spelling ++ "\n" ++ "y = 2")).block.stats
            = (ofSource "x = 1").block.stats ++ .invalid none [stray] 6 :: rest
          ∧ (Displacement.back 10).stats rest
            = (Displacement.back 0).stats (ofSource "y = 2").block.stats := by
  have hk : Keyword.end_ ∈ [Keyword.end_, .else_, .elseif_, .until_] := by decide
  have hp : (ofSource "x = 1").diagnostics = [] := by decide +kernel
  have hq : (ofSource "y = 2").diagnostics = [] := by decide +kernel
  obtain ⟨stray, _, rest, -, -, -, hspan, -, hreports, hstats, hrest⟩ := stray_isolated hk hp hq
  have hstart : stray.span = ⟨6, 9⟩ := hspan.trans (by decide +kernel)
  rw [hstart] at hreports hstats
  exact ⟨hk, hp, hq, stray, rest, hreports, hstats, hrest⟩

end Parsed

end LuaFront
