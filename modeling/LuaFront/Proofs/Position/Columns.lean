import LuaFront.Proofs.Lexeme.Lines
import LuaFront.Proofs.Position.Lines

/-!
Byte columns. The line of an offset is found by counting the line feeds before it. They are in
increasing order, so a line has just the offsets from its start to its end, and a line and a column
are another name for an offset.
-/

namespace LuaFront

namespace LineCol

/-- Earlier in the text. -/
def Before (a b : LineCol) : Prop := a.line < b.line ∨ a.line = b.line ∧ a.col < b.col

variable {a b : LineCol}

lemma Before.asymm (h : a.Before b) : ¬ b.Before a := by
  unfold Before at *
  omega

lemma Before.irrefl (a : LineCol) : ¬ a.Before a := by
  unfold Before
  omega

end LineCol

namespace LineTable

/-! ### Counting line feeds -/

section Count

variable {breaks : List Nat} {pos b k : Nat}

/-- In a list in increasing order, those below a bound are the first ones. -/
lemma lt_iff_lt_countP (hsorted : breaks.Pairwise (· < ·)) (hk : breaks[k]? = some b) :
    b < pos ↔ k < breaks.countP (· < pos) := by
  induction breaks generalizing k with
  | nil => simp at hk
  | cons a breaks ih =>
    obtain ⟨hfirst, hrest⟩ := List.pairwise_cons.1 hsorted
    by_cases ha : a < pos
    · rw [List.countP_cons_of_pos (by simpa using ha)]
      cases k with
      | zero =>
        obtain rfl : a = b := by simpa using hk
        simpa using ha
      | succ k => rw [ih hrest (by simpa using hk), Nat.succ_lt_succ_iff]
    · -- What comes after `a` is not below the bound either.
      have hnone : breaks.countP (· < pos) = 0 := by
        refine List.countP_eq_zero.2 fun c hc => ?_
        have hlt := hfirst c hc
        simp only [decide_eq_true_eq]
        omega
      have hb : a ≤ b := by
        rcases List.mem_cons.1 (List.mem_of_getElem? hk) with rfl | hmem
        · exact Nat.le_refl b
        · exact Nat.le_of_lt (hfirst b hmem)
      rw [List.countP_cons_of_neg (by simpa using ha), hnone]
      omega

end Count

/-! ### The line of an offset -/

section Lines

variable {source : String} {k start stop pos : Nat} {lc : LineCol}

lemma breaks_pairwise (source : String) : (ofSource source).breaks.Pairwise (· < ·) :=
  breaksFrom_pairwise 0 _

lemma lt_size {b : Nat} (h : b ∈ (ofSource source).breaks) : b < (ofSource source).size := by
  have hbound := (breaksFrom_bounds h).2
  rwa [Nat.zero_add] at hbound

/-- A line begins at or before an offset if the line feed before it is before the offset. -/
lemma start_le_iff (h : (ofSource source).lineStart? k = some start) :
    start ≤ pos ↔ k ≤ (ofSource source).breaks.countP (· < pos) := by
  cases k with
  | zero =>
    obtain rfl : 0 = start := by simpa [lineStart?] using h
    simp
  | succ k =>
    obtain ⟨b, hb, rfl⟩ := Option.map_eq_some_iff.1 h
    exact lt_iff_lt_countP (breaks_pairwise source) hb

/-- A line ends at or after an offset if the line feed at its end is not before the offset. -/
lemma le_stop_iff (h : (ofSource source).lineEnd? k = some stop) :
    pos ≤ stop ↔ pos ≤ (ofSource source).size
      ∧ (ofSource source).breaks.countP (· < pos) ≤ k := by
  rw [lineEnd?, Option.ite_none_right_eq_some] at h
  obtain ⟨-, hstop⟩ := h
  rcases hbreak : (ofSource source).breaks[k]? with _ | b
  · rw [hbreak] at hstop
    obtain rfl : (ofSource source).size = stop := by simpa using hstop
    have hcount := List.countP_le_length (p := (· < pos)) (l := (ofSource source).breaks)
    have hlength := List.getElem?_eq_none_iff.1 hbreak
    exact ⟨fun hle => ⟨hle, hcount.trans hlength⟩, And.left⟩
  · rw [hbreak] at hstop
    obtain rfl : b = stop := by simpa using hstop
    have hlt := @lt_iff_lt_countP _ pos b k (breaks_pairwise source) hbreak
    have hsize := lt_size (List.mem_of_getElem? hbreak)
    omega

lemma lt_lineCount (h : (ofSource source).lineStart? k = some start) :
    k < (ofSource source).lineCount := by
  cases k with
  | zero => exact Nat.succ_pos _
  | succ k =>
    obtain ⟨b, hb, -⟩ := Option.map_eq_some_iff.1 h
    exact Nat.succ_lt_succ (List.getElem?_eq_some_iff.1 hb).1

/-- A line that there is has a start, and an end no earlier. -/
lemma exists_ends (h : k < (ofSource source).lineCount) :
    ∃ start stop : Nat, (ofSource source).lineStart? k = some start
      ∧ (ofSource source).lineEnd? k = some stop ∧ start ≤ stop := by
  obtain ⟨before, line, after, hline⟩ := exists_line h
  refine ⟨_, _, lineStart?_eq hline, lineEnd?_eq hline, ?_⟩
  rw [Text.byteSize_append]
  exact Nat.le_add_right _ _

/-- The line of an offset is the one from whose start to whose end the offset is. -/
lemma lineCol?_eq_some_iff : (ofSource source).lineCol? pos = some lc ↔
    ∃ start stop : Nat, (ofSource source).lineStart? lc.line = some start
      ∧ (ofSource source).lineEnd? lc.line = some stop
      ∧ start ≤ pos ∧ pos ≤ stop ∧ lc.col = pos - start := by
  obtain ⟨line, col⟩ := lc
  rw [lineCol?]
  constructor
  · intro h
    obtain ⟨hsize, h⟩ := Option.ite_none_left_eq_some.1 h
    obtain ⟨start, hstart, heq⟩ := Option.map_eq_some_iff.1 h
    cases heq
    obtain ⟨start', stop, hstart', hstop, -⟩ := exists_ends (lt_lineCount hstart)
    exact ⟨start, stop, hstart, hstop, (start_le_iff hstart).2 (Nat.le_refl _),
      (le_stop_iff hstop).2 ⟨Nat.not_lt.1 hsize, Nat.le_refl _⟩, rfl⟩
  · rintro ⟨start, stop, hstart, hstop, hlo, hhi, rfl⟩
    obtain ⟨hsize, hle⟩ := (le_stop_iff hstop).1 hhi
    have hline : (ofSource source).breaks.countP (· < pos) = line :=
      Nat.le_antisymm hle ((start_le_iff hstart).1 hlo)
    rw [if_neg (Nat.not_lt.2 hsize)]
    dsimp only
    rw [hline, hstart]
    rfl

lemma offset?_eq_some_iff : (ofSource source).offset? lc = some pos ↔
    ∃ start stop : Nat, (ofSource source).lineStart? lc.line = some start
      ∧ (ofSource source).lineEnd? lc.line = some stop
      ∧ start + lc.col ≤ stop ∧ pos = start + lc.col := by
  rw [offset?]
  constructor
  · intro h
    obtain ⟨start, hstart, h⟩ := Option.bind_eq_some_iff.1 h
    obtain ⟨stop, hstop, h⟩ := Option.bind_eq_some_iff.1 h
    obtain ⟨_, hguard, h⟩ := Option.bind_eq_some_iff.1 h
    have hle : start + lc.col ≤ stop := by
      by_contra hgt
      rw [guard, if_neg hgt] at hguard
      cases hguard
    exact ⟨start, stop, hstart, hstop, hle, (Option.some.inj h).symm⟩
  · rintro ⟨start, stop, hstart, hstop, hle, rfl⟩
    have hguard : (guard (start + lc.col ≤ stop) : Option Unit) = some () := if_pos hle
    rw [hstart, hstop]
    exact congrArg (· >>= fun _ => some (start + lc.col)) hguard

/-- A later offset has a later line, or a later column on the same line. -/
lemma before_of_lt {p q : Nat} {a b : LineCol} (hp : (ofSource source).lineCol? p = some a)
    (hq : (ofSource source).lineCol? q = some b) (hlt : p < q) : a.Before b := by
  obtain ⟨start, _, hstart, -, hlo, -, ha⟩ := lineCol?_eq_some_iff.1 hp
  obtain ⟨start', stop, hstart', hstop, -, hhi, hb⟩ := lineCol?_eq_some_iff.1 hq
  have hle : a.line ≤ b.line :=
    ((start_le_iff hstart).1 (by omega)).trans ((le_stop_iff hstop).1 hhi).2
  rcases Nat.lt_or_eq_of_le hle with hline | hline
  · exact .inl hline
  · rw [hline, hstart'] at hstart
    cases hstart
    exact .inr ⟨hline, by omega⟩

end Lines

/-- **Offsets and byte columns correspond.** The offsets that have a line and a column are those of
the text, up to its end; the lines and columns that have an offset are those of a line that there
is and of a column up to its end. Each leads back to the other, and what is earlier as an offset is
earlier by line and column. -/
theorem columns_correspond (source : String) :
    let t := ofSource source
    (∀ pos, (t.lineCol? pos).isSome ↔ pos ≤ Text.byteSize source.toList)
      ∧ (∀ lc, (t.offset? lc).isSome ↔ lc.line < t.lineCount
        ∧ ∃ start stop : Nat, t.lineStart? lc.line = some start ∧ t.lineEnd? lc.line = some stop
          ∧ start ≤ stop ∧ lc.col ≤ stop - start)
      ∧ (∀ pos lc, t.lineCol? pos = some lc ↔ t.offset? lc = some pos)
      ∧ ∀ p q a b, t.lineCol? p = some a → t.lineCol? q = some b → (p < q ↔ a.Before b) := by
  intro t
  refine ⟨fun pos => ?_, fun lc => ?_, fun pos lc => ?_, fun p q a b hp hq => ?_⟩
  · constructor
    · intro hsome
      obtain ⟨lc, hlc⟩ := Option.isSome_iff_exists.1 hsome
      obtain ⟨_, stop, -, hstop, -, hhi, -⟩ := lineCol?_eq_some_iff.1 hlc
      exact ((le_stop_iff hstop).1 hhi).1
    · intro hle
      -- The line whose number is the count of line feeds before the offset is there.
      have hlt : t.breaks.countP (· < pos) < t.lineCount :=
        Nat.lt_succ_of_le List.countP_le_length
      obtain ⟨start, _, hstart, -⟩ := exists_ends hlt
      rw [lineCol?, if_neg (show ¬ t.size < pos from Nat.not_lt.2 hle)]
      dsimp only
      rw [hstart]
      rfl
  · rw [Option.isSome_iff_exists]
    constructor
    · rintro ⟨pos, hpos⟩
      obtain ⟨start, stop, hstart, hstop, hle, -⟩ := offset?_eq_some_iff.1 hpos
      exact ⟨lt_lineCount hstart, start, stop, hstart, hstop, by omega, by omega⟩
    · rintro ⟨-, start, stop, hstart, hstop, hle, hcol⟩
      exact ⟨start + lc.col, offset?_eq_some_iff.2 ⟨start, stop, hstart, hstop, by omega, rfl⟩⟩
  · rw [lineCol?_eq_some_iff, offset?_eq_some_iff]
    refine exists_congr fun start => exists_congr fun stop => and_congr_right fun _ =>
      and_congr_right fun _ => ?_
    omega
  · refine ⟨before_of_lt hp hq, fun hbefore => ?_⟩
    rcases Nat.lt_trichotomy p q with hlt | rfl | hlt
    · exact hlt
    · rw [hp] at hq
      cases hq
      exact absurd hbefore (LineCol.Before.irrefl a)
    · exact absurd hbefore (before_of_lt hq hp hlt).asymm

-- A line feed is the last byte of the line that it ends.
example : [0, 1, 2, 3, 4].map (ofSource "\n\na").lineCol?
    = [some ⟨0, 0⟩, some ⟨1, 0⟩, some ⟨2, 0⟩, some ⟨2, 1⟩, none] := by decide

end LineTable

end LuaFront
