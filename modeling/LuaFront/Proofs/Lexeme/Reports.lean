import LuaFront.Lexeme.Stream
import LuaFront.Proofs.Text.Cuts

/-!
Where the lexer reports something. Each of its diagnostics is about some characters of the gap or
the lexeme that was just read, and points nowhere else.
-/

namespace LuaFront

open Text

/-- The diagnostic is about some characters of a text that begins at an offset. -/
structure Diagnostic.About (offset : Nat) (cs : List Char) (d : Diagnostic) : Prop where
  labels : d.labels = []
  piece : ∃ front mid back, cs = front ++ mid ++ back ∧ mid ≠ []
    ∧ d.span = ⟨offset + byteSize front, offset + byteSize (front ++ mid)⟩

namespace Diagnostic.About

variable {offset : Nat} {cs ds : List Char} {d : Diagnostic}

lemma shift (h : d.About 0 cs) (offset : Nat) : (d.shift offset).About offset cs := by
  obtain ⟨front, mid, back, hcs, hmid, hspan⟩ := h.piece
  refine ⟨by simp [Diagnostic.shift, h.labels], front, mid, back, hcs, hmid, ?_⟩
  simp [Diagnostic.shift, Span.shift, hspan, Nat.add_comm offset]

lemma append_left (ds : List Char) (h : d.About (offset + byteSize ds) cs) :
    d.About offset (ds ++ cs) := by
  obtain ⟨front, mid, back, rfl, hmid, hspan⟩ := h.piece
  refine ⟨h.labels, ds ++ front, mid, back, by simp, hmid, ?_⟩
  simp only [hspan, byteSize_append, Nat.add_assoc]

lemma append_right (h : d.About offset cs) (ds : List Char) : d.About offset (cs ++ ds) := by
  obtain ⟨front, mid, back, rfl, hmid, hspan⟩ := h.piece
  exact ⟨h.labels, front, mid, back ++ ds, by simp, hmid, hspan⟩

lemma bounds (h : d.About offset cs) : offset ≤ d.span.start ∧ d.span.start < d.span.stop
    ∧ d.span.stop ≤ offset + byteSize cs := by
  obtain ⟨front, mid, back, rfl, hmid, hspan⟩ := h.piece
  have hpos : byteSize front < byteSize (front ++ mid) := by
    rw [byteSize_append]
    exact Nat.lt_add_of_pos_right (byteSize_pos hmid)
  rw [hspan, byteSize_append (front ++ mid)]
  exact ⟨Nat.le_add_right .., Nat.add_lt_add_left hpos _,
    Nat.add_le_add_left (Nat.le_add_right ..) _⟩

end Diagnostic.About

/-- An error about the whole of a text. -/
lemma Diagnostic.about_whole {cs : List Char} (hcs : cs ≠ []) (message : String) :
    (Diagnostic.error (Lexeme.spanOf cs) message []).About 0 cs :=
  ⟨rfl, [], cs, [], by simp, hcs, by simp [Diagnostic.error, Lexeme.spanOf, byteSize]⟩

/-! ### Lexemes -/

namespace Quoted

/-- Each warning in a string is about an escape. -/
lemma body_about (quote : Char) (offset : Offset) (cs : List Char) :
    ∀ d ∈ (body quote offset cs).diagnostics, d.About offset (body quote offset cs).text := by
  fun_induction body quote offset cs with
  | case1 | case2 | case3 => exact List.forall_mem_nil _
  | case4 offset cs e stop inner _ _ ih =>
    have hstop : stop = offset + byteSize ('\\' :: e.text) := by
      simp [stop, byteSize, Nat.add_assoc]
      rfl
    intro d hd
    rcases List.mem_append.1 hd with hd | hd
    · obtain ⟨message, -, rfl⟩ := by simpa using hd
      refine ⟨rfl, [], '\\' :: e.text, inner.text, rfl, by simp, ?_⟩
      simp [Diagnostic.warning, byteSize, hstop]
    · have h := ih d hd
      rw [hstop] at h
      simpa only [inner, hstop] using h.append_left ('\\' :: e.text)
  | case5 offset c cs _ _ _ inner ih =>
    intro d hd
    have h := ih d hd
    have hsize : c.utf8Size = byteSize [c] := rfl
    rw [hsize] at h
    exact h.append_left [c]

lemma scan_about {quote : Char} (hquote : quote.utf8Size = 1) (cs : List Char) :
    ∀ d ∈ (scan quote cs).diagnostics, d.About 0 (scan quote cs).text := by
  have hbody : ∀ d ∈ (body quote 1 (cs.drop 1)).diagnostics,
      d.About 0 (quote :: (body quote 1 (cs.drop 1)).text) := by
    intro d hd
    have hsize : byteSize [quote] = 1 := hquote
    refine Diagnostic.About.append_left [quote] ?_
    rw [hsize, Nat.zero_add]
    exact body_about quote 1 (cs.drop 1) d hd
  unfold scan
  dsimp only
  split
  · simpa using hbody
  · intro d hd
    rcases List.mem_append.1 hd with hd | hd
    · exact hbody d hd
    · rw [List.mem_singleton.1 hd]
      exact Diagnostic.about_whole (by simp) _

end Quoted

namespace Lexeme

/-- The lexeme is sound, or it is invalid and there is one error about the whole of it. In neither
case does it stand for the end of a text. -/
def Whole (l : Lexeme) : Prop :=
  (l.kind ≠ .invalid ∧ l.kind ≠ .eof ∧ l.diagnostics = [])
    ∨ l.kind = .invalid ∧ ∃ message, l.diagnostics = [.error (spanOf l.text) message []]

lemma Whole.about {l : Lexeme} (h : l.Whole) (htext : l.text ≠ []) :
    ∀ d ∈ l.diagnostics, d.About 0 l.text := by
  rcases h with ⟨-, -, h⟩ | ⟨-, message, h⟩
  · rw [h]
    exact List.forall_mem_nil _
  · rw [h, List.forall_mem_singleton]
    exact Diagnostic.about_whole htext message

lemma plain_whole {kind : TokenKind} {text rest : List Char} (hkind : kind ≠ .invalid)
    (heof : kind ≠ .eof) : (plain kind text rest).Whole :=
  .inl ⟨hkind, heof, rfl⟩

lemma malformed_whole (message : String) (text rest : List Char) :
    (malformed message text rest).Whole :=
  .inr ⟨rfl, message, rfl⟩

lemma longBracket_whole (cs : List Char) : (LongBracket.scan cs).Whole := by
  unfold LongBracket.scan
  split
  · dsimp only
    split
    · exact plain_whole (by decide) (by decide)
    · exact malformed_whole ..
  · exact malformed_whole ..

lemma numeral_whole (cs : List Char) : (Numeral.scan cs).Whole := by
  unfold Numeral.scan
  dsimp only
  split
  · exact plain_whole (by decide) (by decide)
  · exact malformed_whole ..

lemma word_whole (cs : List Char) : (Word.scan cs).Whole := by
  unfold Word.scan Word.kindOf
  split <;> exact plain_whole (by simp) (by simp)

lemma symbol_whole (c : Char) (cs : List Char) : (symbol c cs).Whole := by
  unfold symbol
  split
  · exact plain_whole (by simp) (by simp)
  · exact malformed_whole ..

/-- Only strings in quotes have more reported about them. -/
lemma ofChars_cases (c : Char) (cs : List Char) :
    (c = '"' ∨ c = '\'') ∧ ofChars c cs = Quoted.scan c (c :: cs) ∨ (ofChars c cs).Whole := by
  unfold ofChars
  split
  · next hquote => exact .inl ⟨by simpa using hquote, rfl⟩
  right
  repeat' split
  · exact longBracket_whole _
  · exact numeral_whole _
  · exact word_whole _
  · exact symbol_whole c cs

lemma ofChars_about (c : Char) (cs : List Char) :
    ∀ d ∈ (ofChars c cs).diagnostics, d.About 0 (ofChars c cs).text := by
  rcases ofChars_cases c cs with ⟨hquote, heq⟩ | hwhole
  · rw [heq]
    refine Quoted.scan_about ?_ _
    rcases hquote with rfl | rfl <;> rfl
  · exact hwhole.about (ofChars_text_ne_nil c cs)

lemma head_ofChars (c : Char) (cs : List Char) : (ofChars c cs).text.head? = some c := by
  obtain ⟨d, text, htext⟩ := List.exists_cons_of_ne_nil (ofChars_text_ne_nil c cs)
  have happend := ofChars_append c cs
  rw [htext, List.cons_append] at happend
  rw [htext, (List.cons.inj happend).1]
  rfl

lemma shifted_about (offset : Offset) (c : Char) (cs : List Char) :
    ∀ d ∈ (ofChars c cs).diagnostics.map (·.shift offset), d.About offset (ofChars c cs).text := by
  simpa using fun d hd => (ofChars_about c cs d hd).shift offset

end Lexeme

/-! ### Gaps and streams -/

lemma Gap.piece?_about {cs : List Char} {p : Piece} (h : piece? cs = some p) :
    ∀ d ∈ p.diagnostics, d.About 0 p.text := by
  unfold piece? at h
  split at h
  · cases h
  split at h
  · cases h
    exact List.forall_mem_nil _
  split at h
  · cases h
    unfold comment
    split
    · dsimp only
      split
      · exact List.forall_mem_nil _
      · exact List.forall_mem_singleton.2 (Diagnostic.about_whole (by simp) _)
    · exact List.forall_mem_nil _
  · cases h

/-- A gap ends where there is nothing more to be taken. -/
lemma Gap.piece?_rest (offset : Offset) (cs : List Char) :
    piece? (ofChars offset cs).rest = none := by
  fun_induction ofChars offset cs with
  | case1 offset cs h => exact h
  | case2 offset cs piece h stop inner ih => exact ih

/-- A gap takes some characters off the text, and what it reports is about these. -/
lemma Gap.ofChars_about (offset : Offset) (cs : List Char) :
    ∃ front, cs = front ++ (ofChars offset cs).rest
      ∧ (ofChars offset cs).stop = offset + byteSize front
      ∧ ∀ d ∈ (ofChars offset cs).diagnostics, d.About offset front := by
  fun_induction ofChars offset cs with
  | case1 => exact ⟨[], rfl, rfl, List.forall_mem_nil _⟩
  | case2 offset cs piece h stop inner ih =>
    obtain ⟨front, hfront, hstop, habout⟩ := ih
    refine ⟨piece.text ++ front, ?_, ?_, ?_⟩
    · rw [List.append_assoc, ← hfront, piece?_append h]
    · rw [byteSize_append, ← Nat.add_assoc]
      exact hstop
    · intro d hd
      rcases List.mem_append.1 hd with hd | hd
      · obtain ⟨e, he, rfl⟩ := List.mem_map.1 hd
        exact ((piece?_about h e he).shift offset).append_right front
      · exact (habout d hd).append_left piece.text

namespace Scanned

lemma ofChars_about (offset : Offset) (cs : List Char) :
    ∀ x ∈ ofChars offset cs, ∀ d ∈ x.diagnostics, d.About offset cs := by
  fun_induction ofChars offset cs with
  | case1 offset cs gap hrest =>
    obtain ⟨front, hfront, -, habout⟩ := Gap.ofChars_about offset cs
    rw [hrest, List.append_nil] at hfront
    rw [List.forall_mem_singleton, hfront]
    exact habout
  | case2 offset cs gap c rest hrest _ _ lexeme stop token ih =>
    obtain ⟨front, hfront, hstop, habout⟩ := Gap.ofChars_about offset cs
    have hcs : cs = front ++ (lexeme.text ++ lexeme.rest) := by
      rw [Lexeme.ofChars_append, ← hrest]
      exact hfront
    refine List.forall_mem_cons.2 ⟨fun d hd => ?_, fun x hx d hd => ?_⟩
    · rw [hcs]
      rcases List.mem_append.1 hd with hd | hd
      · exact (habout d hd).append_right _
      · obtain ⟨e, he, rfl⟩ := List.mem_map.1 hd
        have h := (Lexeme.ofChars_about c rest e he).shift gap.stop
        rw [show gap.stop = offset + byteSize front from hstop] at h ⊢
        exact (h.append_right lexeme.rest).append_left front
    · have h := ih x hx d hd
      rw [show stop = offset + byteSize (front ++ lexeme.text) by
        rw [byteSize_append, ← Nat.add_assoc, ← hstop]] at h
      rw [hcs, ← List.append_assoc]
      exact h.append_left _

lemma flatMap_about (offset : Offset) (cs : List Char) :
    ∀ d ∈ (ofChars offset cs).flatMap (·.diagnostics), d.About offset cs := by
  simpa using fun d x hx hd => ofChars_about offset cs x hx d hd

variable {offset : Offset} {cs : List Char}

/-- Nothing lies in a span of what is reported about the text before it. -/
lemma filter_before {ds : List Diagnostic} {front : List Char} {s : Span}
    (h : ∀ d ∈ ds, d.About offset front) (hs : offset + byteSize front ≤ s.start) :
    ds.filter (s.encloses ·.span) = [] := by
  rw [List.filter_eq_nil_iff]
  intro d hd henc
  obtain ⟨-, hlt, hle⟩ := (h d hd).bounds
  have hstart : s.start ≤ d.span.start := by
    rw [Span.encloses, Bool.and_eq_true] at henc
    exact of_decide_eq_true henc.1
  exact absurd (Nat.le_trans hle (Nat.le_trans hs hstart)) (Nat.not_le_of_gt hlt)

/-- Nor of what is reported about the text after it. -/
lemma filter_after {ds : List Diagnostic} {s : Span} (h : ∀ d ∈ ds, d.About offset cs)
    (hs : s.stop ≤ offset) : ds.filter (s.encloses ·.span) = [] := by
  rw [List.filter_eq_nil_iff]
  intro d hd henc
  obtain ⟨hle, hlt, -⟩ := (h d hd).bounds
  have hstop : d.span.stop ≤ s.stop := by
    rw [Span.encloses, Bool.and_eq_true] at henc
    exact of_decide_eq_true henc.2
  exact absurd (Nat.le_trans hstop (Nat.le_trans hs hle)) (Nat.not_le_of_gt hlt)

lemma filter_own {ds : List Diagnostic} {text : List Char} {s : Span}
    (h : ∀ d ∈ ds, d.About s.start text) (hs : s.stop = s.start + byteSize text) :
    ds.filter (s.encloses ·.span) = ds := by
  rw [List.filter_eq_self]
  intro d hd
  obtain ⟨hle, -, hle'⟩ := (h d hd).bounds
  rw [← hs] at hle'
  simp [Span.encloses, hle, hle']

/-- Where a piece of a gap stands, and that of all that is reported about the text, what lies in the
piece is about it. -/
structure PieceReading (offset : Offset) (cs : List Char) (all : List Diagnostic) (p : Trivia)
    (front rest : List Char) (piece : Gap.Piece) : Prop where
  text_eq : cs = front ++ rest
  taken : Gap.piece? rest = some piece
  trivia_eq : p = ⟨piece.kind, String.ofList piece.text,
    ⟨offset + byteSize front, offset + byteSize front + byteSize piece.text⟩⟩
  reports : all.filter (p.span.encloses ·.span)
    = piece.diagnostics.map (·.shift p.span.start)

lemma exists_piece_gap (offset : Offset) (cs : List Char) :
    ∀ p ∈ (Gap.ofChars offset cs).trivia, p.span.stop ≤ (Gap.ofChars offset cs).stop
      ∧ ∃ front rest piece,
        PieceReading offset cs (Gap.ofChars offset cs).diagnostics p front rest piece := by
  fun_induction Gap.ofChars offset cs with
  | case1 => exact List.forall_mem_nil _
  | case2 offset cs piece hpiece stop inner ih =>
    obtain ⟨taken, -, hstop, hinner⟩ := Gap.ofChars_about stop piece.rest
    have hown : ∀ d ∈ piece.diagnostics.map (·.shift offset), d.About offset piece.text := by
      simpa using fun d hd => (Gap.piece?_about hpiece d hd).shift offset
    have hle : stop ≤ inner.stop := hstop ▸ Nat.le_add_right _ _
    refine List.forall_mem_cons.2 ⟨⟨hle, [], cs, piece, rfl, hpiece, ?_, ?_⟩, fun p hp => ?_⟩
    · simp [stop, byteSize]
    · rw [List.filter_append, filter_own hown rfl, filter_after hinner (Nat.le_refl _),
        List.append_nil]
    · obtain ⟨hpstop, front, rest, piece', h⟩ := ih p hp
      refine ⟨hpstop, piece.text ++ front, rest, piece', ?_, h.taken, ?_, ?_⟩
      · rw [List.append_assoc, ← h.text_eq, Gap.piece?_append hpiece]
      · rw [byteSize_append, ← Nat.add_assoc]
        exact h.trivia_eq
      · have hstart : stop ≤ p.span.start := by
          rw [h.trivia_eq]
          exact Nat.le_add_right _ _
        rw [List.filter_append, filter_before hown hstart, List.nil_append, h.reports]

lemma exists_piece (offset : Offset) (cs : List Char) :
    ∀ x ∈ ofChars offset cs, ∀ p ∈ x.token.trivia, ∃ front rest piece,
      PieceReading offset cs ((ofChars offset cs).flatMap (·.diagnostics)) p front rest piece := by
  fun_induction ofChars offset cs with
  | case1 offset cs gap hrest =>
    rw [List.forall_mem_singleton, List.flatMap_singleton]
    exact fun p hp => (exists_piece_gap offset cs p hp).2
  | case2 offset cs gap c rest hrest _ _ lexeme stop token ih =>
    obtain ⟨before, hbefore, hstop, hgap⟩ := Gap.ofChars_about offset cs
    have hown := Lexeme.shifted_about gap.stop c rest
    have hlater := flatMap_about stop lexeme.rest
    intro x hx p hp
    rw [List.flatMap_cons]
    rcases List.mem_cons.1 hx with rfl | hx
    · obtain ⟨hpstop, front, rest', piece, h⟩ := exists_piece_gap offset cs p hp
      refine ⟨front, rest', piece, h.text_eq, h.taken, h.trivia_eq, ?_⟩
      rw [List.filter_append, List.filter_append, h.reports, filter_after hown hpstop,
        filter_after hlater (Nat.le_trans hpstop (Nat.le_add_right _ _)), List.append_nil,
        List.append_nil]
    · obtain ⟨front, rest', piece, h⟩ := ih x hx p hp
      have hstart : stop ≤ p.span.start := by
        rw [h.trivia_eq]
        exact Nat.le_add_right _ _
      have hstart' : gap.stop ≤ p.span.start := Nat.le_trans (Nat.le_add_right _ _) hstart
      have hsize : offset + byteSize (before ++ lexeme.text ++ front) = stop + byteSize front := by
        rw [byteSize_append, byteSize_append, ← Nat.add_assoc, ← Nat.add_assoc, ← hstop]
      refine ⟨before ++ lexeme.text ++ front, rest', piece, ?_, h.taken, ?_, ?_⟩
      · rw [List.append_assoc, ← h.text_eq, List.append_assoc, Lexeme.ofChars_append, ← hrest]
        exact hbefore
      · rw [hsize]
        exact h.trivia_eq
      · rw [List.filter_append, List.filter_append, filter_before hgap (hstop ▸ hstart'),
          filter_before hown hstart, List.nil_append, List.nil_append, h.reports]

/-- Where a token of a text stands, the lexeme that was read there once the gap was at its end, and
that of all that is reported about the text, what lies in the token is about the lexeme. -/
structure Reading (offset : Offset) (cs : List Char) (all : List Diagnostic) (t : Token)
    (front : List Char) (c : Char) (rest : List Char) : Prop where
  text_eq : cs = front ++ c :: rest
  gap : Gap.piece? (c :: rest) = none
  kind : t.kind = (Lexeme.ofChars c rest).kind
  text : t.text = String.ofList (Lexeme.ofChars c rest).text
  start : t.span.start = offset + byteSize front
  stop : t.span.stop = t.span.start + byteSize (Lexeme.ofChars c rest).text
  reports : all.filter (t.span.encloses ·.span)
    = (Lexeme.ofChars c rest).diagnostics.map (·.shift t.span.start)

lemma exists_reading (offset : Offset) (cs : List Char) :
    ∀ x ∈ ofChars offset cs, x.token.kind ≠ .eof → ∃ front c rest,
      Reading offset cs ((ofChars offset cs).flatMap (·.diagnostics)) x.token front c rest := by
  fun_induction ofChars offset cs with
  | case1 => simp
  | case2 offset cs gap c rest hrest _ _ lexeme stop token ih =>
    obtain ⟨front, hfront, hstop, hgap⟩ := Gap.ofChars_about offset cs
    have hown := Lexeme.shifted_about gap.stop c rest
    have hlater := flatMap_about stop lexeme.rest
    intro x hx hkind
    rw [List.flatMap_cons]
    rcases List.mem_cons.1 hx with rfl | hx
    · have hend : Gap.piece? (c :: rest) = none := hrest ▸ Gap.piece?_rest offset cs
      refine ⟨front, c, rest, hrest ▸ hfront, hend, rfl, rfl, hstop, rfl, ?_⟩
      rw [List.filter_append, List.filter_append, filter_before hgap (Nat.le_of_eq hstop.symm),
        filter_own hown rfl, filter_after hlater (Nat.le_refl _), List.append_nil]
      rfl
    · obtain ⟨front', c', rest', h⟩ := ih x hx hkind
      have hstart : stop ≤ x.token.span.start := by
        rw [h.start]
        exact Nat.le_add_right _ _
      have hfront' : gap.stop ≤ x.token.span.start := Nat.le_trans (Nat.le_add_right _ _) hstart
      refine ⟨front ++ lexeme.text ++ front', c', rest', ?_, h.gap, h.kind, h.text, ?_, h.stop, ?_⟩
      · rw [List.append_assoc, ← h.text_eq, List.append_assoc, Lexeme.ofChars_append, ← hrest]
        exact hfront
      · rw [h.start, byteSize_append, byteSize_append, ← Nat.add_assoc, ← Nat.add_assoc, ← hstop]
      · rw [List.filter_append, List.filter_append, filter_before hgap (hstop ▸ hfront'),
          filter_before hown hstart, List.nil_append, List.nil_append, h.reports]

end Scanned

/-- **The lexer reports about characters of the text.** -/
theorem Lexed.diagnostics_about (source : String) :
    ∀ d ∈ (ofSource source).diagnostics, d.About 0 source.toList :=
  Scanned.flatMap_about 0 source.toList

end LuaFront
