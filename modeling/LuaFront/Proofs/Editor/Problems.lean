import LuaFront.Editor.Problem
import LuaFront.Proofs.Chunk.Reports
import LuaFront.Proofs.Lexeme.Lines
import LuaFront.Proofs.Position.Places
import Mathlib.Data.List.Forall2

/-!
The problems of a document. Every diagnostic has a range in the editor, so that none is left out,
and in the order of the text the ranges begin at later and later places.
-/

namespace LuaFront

open Text

lemma Place.not_before_front (front mid : List Char) :
    ¬ (Place.after (front ++ mid)).Before (.after front) := by
  intro hbefore
  rcases mid with _ | ⟨c, mid⟩
  · rw [List.append_nil] at hbefore
    unfold Before at hbefore
    omega
  · have hafter := hbefore.trans (after_before front c mid)
    unfold Before at hafter
    omega

/-- A problem shows a diagnostic of a document. -/
structure Problem.Shows (d : Document) (x : Diagnostic) (p : Problem) : Prop where
  range : d.range? x.span = some p.range
  severity : p.severity = x.severity
  message : p.message = x.message

namespace Document

variable {version : Int} {text : String} {x y : Diagnostic} {p q : Problem}

/-- The problem that shows a diagnostic, if it has a range. -/
def problem? (d : Document) (x : Diagnostic) : Option Problem :=
  (d.range? x.span).map fun range => ⟨range, x.severity, x.message⟩

lemma shows_iff {d : Document} : p.Shows d x ↔ d.problem? x = some p := by
  rw [problem?, Option.map_eq_some_iff]
  constructor
  · rintro ⟨hrange, hseverity, hmessage⟩
    exact ⟨p.range, hrange, by rw [← hseverity, ← hmessage]⟩
  · rintro ⟨range, hrange, rfl⟩
    exact ⟨hrange, rfl, rfl⟩

/-! ### Ranges -/

lemma place?_after {front back : List Char} (h : text.toList = front ++ back) :
    (ofText version text).place? (byteSize front) = some (.after front) := by
  have hlines : (ofText version text).parsed.lines = .ofSource text := Lexed.lines_eq text
  rw [place?, hlines]
  exact LineTable.toPlace?_eq h (.inl rfl)

/-- A span that fits the text has a range, from the end of one front of the text to the end of
another. -/
lemma exists_range {s : Span} (h : s.Fits text) : ∃ front back stop,
    text.toList = front ++ back ∧ byteSize front = s.start
      ∧ (ofText version text).range? s = some ⟨.after front, stop⟩ := by
  obtain ⟨front, back, htext, hstart⟩ := isBoundary_iff.1 h.start_boundary
  obtain ⟨front', back', htext', hstop⟩ := isBoundary_iff.1 h.stop_boundary
  refine ⟨front, back, .after front', htext, hstart, ?_⟩
  rw [range?, ← hstart, ← hstop, place?_after htext, place?_after htext']
  rfl

lemma exists_shows (h : x.Fits text) : ∃ p : Problem, p.Shows (ofText version text) x := by
  obtain ⟨front, back, stop, -, -, hrange⟩ := exists_range h.span
  exact ⟨⟨⟨.after front, stop⟩, x.severity, x.message⟩, hrange, rfl, rfl⟩

/-- A diagnostic that begins later has a problem that begins no earlier. -/
lemma shows_ordered (hx : x.Fits text) (hy : y.Fits text)
    (hle : x.span.precedesOrEq y.span = true) (hp : p.Shows (ofText version text) x)
    (hq : q.Shows (ofText version text) y) : ¬ q.range.start.Before p.range.start := by
  obtain ⟨front, back, stop, htext, hstart, hrange⟩ := exists_range hx.span
  obtain ⟨front', back', stop', htext', hstart', hrange'⟩ := exists_range hy.span
  rw [← Option.some.inj (hrange.symm.trans hp.range),
    ← Option.some.inj (hrange'.symm.trans hq.range)]
  have hsize : byteSize front ≤ byteSize front' := by
    rw [hstart, hstart']
    exact (Span.precedesOrEq_iff.1 hle).elim Nat.le_of_lt fun h => Nat.le_of_eq h.1
  obtain ⟨mid, rfl, -⟩ := exists_mid (htext.symm.trans htext') hsize
  exact Place.not_before_front front mid

/-! ### Problems -/

lemma problems_eq (d : Document) (settings : Settings) :
    d.problems settings
      = (d.parsed.diagnostics.filterMap d.problem?).take settings.maxDiagnostics := rfl

/-- Each of the diagnostics has its problem. -/
lemma forall₂_filterMap {d : Document} {xs : List Diagnostic}
    (h : ∀ x ∈ xs, ∃ p : Problem, p.Shows d x) :
    List.Forall₂ (fun x p => p.Shows d x) xs (xs.filterMap d.problem?) := by
  induction xs with
  | nil => exact .nil
  | cons x xs ih =>
    obtain ⟨⟨p, hp⟩, hxs⟩ := List.forall_mem_cons.1 h
    rw [List.filterMap_cons_some (shows_iff.1 hp)]
    exact .cons hp (ih hxs)

/-- **Every diagnostic is shown in its place.** The diagnostics of a text are in the order of their
spans, and each of them and each of its labels has a span that fits the text. The problems of a
document show them in this order, as many as the settings allow, and none of them begins before an
earlier one. -/
theorem problems_complete (version : Int) (text : String) (settings : Settings) :
    (Parsed.ofSource text).diagnostics.Pairwise (fun x y => x.span.precedesOrEq y.span = true)
      ∧ (∀ x ∈ (Parsed.ofSource text).diagnostics,
        x.span.Fits text ∧ ∀ l ∈ x.labels, l.span.Fits text)
      ∧ List.Forall₂ (fun x p => p.Shows (ofText version text) x)
        ((Parsed.ofSource text).diagnostics.take settings.maxDiagnostics)
        ((ofText version text).problems settings)
      ∧ ((ofText version text).problems settings).Pairwise
        fun p q => ¬ q.range.start.Before p.range.start := by
  have hordered := Parsed.diagnostics_ordered text
  have hfit := Parsed.diagnostics_fit text
  refine ⟨hordered, fun x hx => ⟨(hfit x hx).span, (hfit x hx).labels⟩, ?_, ?_⟩
  · rw [problems_eq]
    exact List.forall₂_take _ (forall₂_filterMap fun x hx => exists_shows (hfit x hx))
  · rw [problems_eq]
    refine List.Pairwise.sublist (List.take_sublist _ _) (List.pairwise_filterMap.2 ?_)
    refine hordered.imp_of_mem fun {x y} hx hy hle p hp q hq => ?_
    exact shows_ordered (hfit x hx) (hfit y hy) hle (shows_iff.2 hp) (shows_iff.2 hq)

end Document

end LuaFront
