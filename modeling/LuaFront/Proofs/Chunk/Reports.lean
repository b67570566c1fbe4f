import LuaFront.Proofs.Chunk.Displaced
import LuaFront.Proofs.Lexeme.Reports
import LuaFront.Proofs.Lexeme.Shifted
import LuaFront.Proofs.Lexeme.Tiling

/-!
Where something is reported about a text. The parser finds every offset that it reports in a token:
where the offsets of the tokens are moved in two ways that agree on them, its reports are moved in
the same way. So none of them lies where the text cannot be cut.
-/

namespace LuaFront

/-- A span from one boundary of a text to another one that is not before it. -/
structure Span.Fits (source : String) (s : Span) : Prop where
  le : s.start ≤ s.stop
  stop_le : s.stop ≤ Text.byteSize source.toList
  start_boundary : Text.isBoundary source.toList s.start = true
  stop_boundary : Text.isBoundary source.toList s.stop = true

/-- The span of a diagnostic fits the text, and so do those that its labels point to. -/
structure Diagnostic.Fits (source : String) (d : Diagnostic) : Prop where
  span : d.span.Fits source
  labels : ∀ l ∈ d.labels, l.span.Fits source

lemma Span.fits_of_boundaries {source : String} {s : Span} (hle : s.start ≤ s.stop)
    (hstart : Text.isBoundary source.toList s.start = true)
    (hstop : Text.isBoundary source.toList s.stop = true) : s.Fits source := by
  refine ⟨hle, ?_, hstart, hstop⟩
  obtain ⟨front, back, hsource, hsize⟩ := Text.isBoundary_iff.1 hstop
  rw [hsource, Text.byteSize_append, hsize]
  exact Nat.le_add_right _ _

namespace Span

lemma precedesOrEq_iff {s t : Span} :
    s.precedesOrEq t = true ↔ s.start < t.start ∨ s.start = t.start ∧ s.stop ≤ t.stop := by
  simp [precedesOrEq]

lemma precedesOrEq_trans {s t u : Span} (h : s.precedesOrEq t = true)
    (h' : t.precedesOrEq u = true) : s.precedesOrEq u = true := by
  rw [precedesOrEq_iff] at *
  rcases h with h | ⟨heq, hle⟩
  · have hle' : t.start ≤ u.start := h'.elim Nat.le_of_lt fun h' => Nat.le_of_eq h'.1
    exact .inl (Nat.lt_of_lt_of_le h hle')
  · rw [heq]
    exact h'.imp_right fun h' => ⟨h'.1, Nat.le_trans hle h'.2⟩

lemma precedesOrEq_total (s t : Span) : (s.precedesOrEq t || t.precedesOrEq s) = true := by
  rw [Bool.or_eq_true, precedesOrEq_iff, precedesOrEq_iff]
  rcases Nat.lt_trichotomy s.start t.start with h | h | h
  · exact .inl (.inl h)
  · exact (Nat.le_total s.stop t.stop).imp (fun hle => .inr ⟨h, hle⟩) fun hle => .inr ⟨h.symm, hle⟩
  · exact .inr (.inl h)

end Span

lemma Diagnostic.About.fits {source : String} {d : Diagnostic} (h : d.About 0 source.toList) :
    d.Fits source := by
  have hle := Nat.le_of_lt h.bounds.2.1
  obtain ⟨front, mid, back, hsource, -, hspan⟩ := h.piece
  rw [Nat.zero_add, Nat.zero_add] at hspan
  refine ⟨Span.fits_of_boundaries hle ?_ ?_, by simp [h.labels]⟩
  · rw [hsource, hspan, List.append_assoc]
    exact Text.isBoundary_byteSize _ _
  · rw [hsource, hspan]
    exact Text.isBoundary_byteSize _ _

/-! ### Offsets moved apart -/

namespace Displacement

lemma spread_lt (keep : Nat → Bool) {x y : Nat} (h : x < y) :
    (2 * x + if keep x then 0 else 1) < 2 * y + if keep y then 0 else 1 := by
  split <;> split <;> omega

/-- Puts every offset at twice its place, and one further if it is not to be kept. -/
def spread (keep : Offset → Bool) (h : keep 0 = true) : Displacement where
  offset x := 2 * x + if keep x then 0 else 1
  trivia := id
  monotone := StrictMono.monotone fun _ _ => spread_lt keep
  zero := by simp [h]
  none := still.none

variable {keep : Offset → Bool} {h : keep 0 = true}

lemma spread_strictMono : StrictMono (spread keep h).offset := fun _ _ => spread_lt keep

/-- Keeps every offset, at twice its place. -/
def double : Displacement := spread (fun _ => true) rfl

lemma spread_eq_double_iff (x : Offset) :
    (spread keep h).offset x = double.offset x ↔ keep x = true := by
  cases hx : keep x <;> simp [spread, double, hx]

lemma spread_span {s : Span} (hs : (spread keep h).span s = double.span s) :
    keep s.start = true ∧ keep s.stop = true := by
  obtain ⟨hstart, hstop⟩ := Span.mk.inj hs
  exact ⟨(spread_eq_double_iff _).1 hstart, (spread_eq_double_iff _).1 hstop⟩

lemma spread_token {t : Token} (hstart : keep t.span.start = true)
    (hstop : keep t.span.stop = true) : (spread keep h).token t = double.token t := by
  rw [← spread_eq_double_iff (h := h)] at hstart hstop
  rw [token, token, span, span, hstart, hstop]
  rfl

/-- If a diagnostic is moved to the same place in both ways, it mentions only what is kept. -/
lemma spread_diagnostic {d : Diagnostic} (hd : (spread keep h).diagnostic d = double.diagnostic d) :
    (keep d.span.start = true ∧ keep d.span.stop = true)
      ∧ ∀ l ∈ d.labels, keep l.span.start = true ∧ keep l.span.stop = true := by
  obtain ⟨-, -, hspan, hlabels⟩ := Diagnostic.mk.inj hd
  refine ⟨spread_span hspan, fun l hl => ?_⟩
  exact spread_span (Label.mk.inj (List.map_inj_left.1 hlabels l hl)).1

end Displacement

lemma Lexed.token_fits {source : String} {t : Token} (ht : t ∈ (ofSource source).tokens) :
    Text.isBoundary source.toList t.span.start = true
      ∧ Text.isBoundary source.toList t.span.stop = true := by
  have hmem : ⟨t.span, t.text⟩ ∈ (ofSource source).stretches :=
    List.mem_flatMap.2 ⟨t, ht, List.mem_append_right _ (List.mem_singleton.2 rfl)⟩
  obtain ⟨front, back, hsource, hspan⟩ := (ofSource_cut source).exists_split hmem
  rw [Nat.zero_add, Nat.zero_add] at hspan
  have hspan : t.span = _ := hspan
  rw [hsource, hspan]
  refine ⟨?_, Text.isBoundary_byteSize _ _⟩
  rw [List.append_assoc]
  exact Text.isBoundary_byteSize _ _

namespace Parsed

/-- What the parser reports fits the text. -/
lemma ending_fits (source : String) : ∀ d ∈ (ending source).log.entries, d.Fits source := by
  obtain ⟨read, eof, h⟩ := Lexed.exists_splits source
  have hzero : Text.isBoundary source.toList 0 = true := Text.isBoundary_byteSize [] _
  let spread := Displacement.spread (Text.isBoundary source.toList) hzero
  obtain ⟨-, hspread⟩ := chunk_displaced h spread
  obtain ⟨-, hdouble⟩ := chunk_displaced h .double
  have htokens : (Lexed.ofSource source).tokens.map spread.token
      = (Lexed.ofSource source).tokens.map Displacement.double.token :=
    List.map_congr_left fun t ht =>
      Displacement.spread_token (Lexed.token_fits ht).1 (Lexed.token_fits ht).2
  have hlogs : spread.log (ending source).log = Displacement.double.log (ending source).log := by
    rw [← hspread.log Displacement.spread_strictMono, ← hdouble.log Displacement.spread_strictMono,
      htokens]
  intro d hd
  have hsame := List.map_inj_left.1 (Log.mk.inj hlogs) d hd
  obtain ⟨hspan, hlabels⟩ := Displacement.spread_diagnostic hsame
  obtain ⟨hle, hles⟩ := hdouble.reported d hd
  exact ⟨Span.fits_of_boundaries hle hspan.1 hspan.2, fun l hl =>
    Span.fits_of_boundaries (hles l hl) (hlabels l hl).1 (hlabels l hl).2⟩

/-- **Whatever is reported fits the text.** -/
theorem diagnostics_fit (source : String) : ∀ d ∈ (ofSource source).diagnostics, d.Fits source := by
  intro d hd
  rw [diagnostics_eq, Diagnostic.sorted, List.mem_mergeSort, List.mem_append] at hd
  rcases hd with hd | hd
  · exact (Lexed.diagnostics_about source d hd).fits
  · exact ending_fits source d hd

lemma diagnostics_ordered (source : String) :
    (ofSource source).diagnostics.Pairwise fun d e => d.span.precedesOrEq e.span = true := by
  rw [diagnostics_eq, Diagnostic.sorted]
  have htrans : ∀ d e f : Diagnostic, d.span.precedesOrEq e.span = true →
      e.span.precedesOrEq f.span = true → d.span.precedesOrEq f.span = true :=
    fun _ _ _ => Span.precedesOrEq_trans
  exact List.pairwise_mergeSort htrans (fun d e => Span.precedesOrEq_total d.span e.span) _

end Parsed

end LuaFront
