import LuaFront.Grammar.Parse
import LuaFront.Proofs.Tree.Marks

/-!
Giving up. Where a further nesting level is refused, the rest of the input is swallowed, and an
invalid node keeps it. That is reported at the first token swallowed, unless the last error was
reported there too.
-/

namespace LuaFront

/-- What is reported where a further level is refused. -/
def limitMessage : String := "chunk has too many syntax levels"

lemma ne_limitMessage {message : String} (h : message.toList.head? ≠ some 'c') :
    message ≠ limitMessage := by
  rintro rfl
  exact h (by decide)

lemma expected_ne_limit (what found : String) :
    "expected " ++ what ++ ", found " ++ found ≠ limitMessage :=
  ne_limitMessage (by simp)

/-- What an error adds to those reported before: nothing if the last of them begins where it
does. -/
def Diagnostic.added (earlier : List Diagnostic) (d : Diagnostic) : List Diagnostic :=
  if earlier.getLast?.any (·.span.start = d.span.start) then [] else [d]

namespace Part

/-- The tokens that each node in the parts holds raw. -/
def kept (ps : List Part) : List (List Token) :=
  (ps.filterMap Part.node?).flatMap fun n => n.preorder.map Node.skipped

/-- Some node holds all of the tokens, if there are any, and no other holds more than one. -/
def Keeps (ps : List Part) (tokens : List Token) : Prop :=
  (tokens ≠ [] → tokens ∈ kept ps) ∧ ∀ l ∈ kept ps, l.length ≤ 1 ∨ l = tokens

/-- Whatever some parts keep, others keep together with the tokens. Only one of the two is ever
more than nothing. -/
def Adds (ps : List Part) (tokens : List Token) (qs : List Part) : Prop :=
  ∀ old, (old = [] ∨ tokens = []) → Keeps ps old → Keeps qs (old ++ tokens)

variable {ps qs : List Part} {n : Node} {tokens : List Token}

@[simp] lemma kept_append : kept (ps ++ qs) = kept ps ++ kept qs := by simp [kept]

@[simp] lemma kept_tokens : kept (tokens.map .token) = [] := by
  simp [kept, List.filterMap_map, Function.comp_def, Part.node?]

lemma kept_tree : kept [.node n] = n.preorder.map Node.skipped := by simp [kept, Part.node?]

lemma kept_node : kept [.node n] = n.skipped :: kept n.parts := by
  rw [kept_tree, Node.preorder_eq, List.map_cons, List.map_flatMap]
  rfl

lemma keeps_nil : Keeps [] [] := by simp [Keeps, kept]

lemma Keeps.append {old : List Token} (h : Keeps ps old) (h' : Keeps qs tokens)
    (hone : old = [] ∨ tokens = []) : Keeps (ps ++ qs) (old ++ tokens) := by
  obtain ⟨hmem, hall⟩ := h
  obtain ⟨hmem', hall'⟩ := h'
  rw [Keeps, kept_append]
  rcases hone with rfl | rfl <;> grind

lemma adds_of_kept_eq (h : kept qs = kept ps) : Adds ps [] qs := by
  intro old _ hold
  rwa [Keeps, h, List.append_nil]

/-- A node takes the place of its parts. -/
lemma adds_node (hn : n.skipped = tokens ∨ tokens = [] ∧ n.skipped.length ≤ 1) :
    Adds (ps ++ n.parts) tokens (ps ++ [Part.node n]) := by
  rintro old hone ⟨hmem, hall⟩
  rw [kept_append] at hmem hall
  rw [Keeps, kept_append, kept_node]
  rcases hone with rfl | rfl <;> grind

/-- A node that holds nothing raw keeps what its parts keep. -/
lemma Keeps.tree (h : Keeps n.parts tokens) (hn : n.skipped = []) :
    (tokens ≠ [] → ∃ m ∈ n.preorder, m.skipped = tokens)
      ∧ ∀ m ∈ n.preorder, m.skipped.length ≤ 1 ∨ m.skipped = tokens := by
  have hadds : Adds ([] ++ n.parts) [] ([] ++ [Part.node n]) := adds_node (.inr ⟨rfl, by simp [hn]⟩)
  have hkeeps := hadds tokens (.inr rfl) h
  rwa [List.append_nil, Keeps, List.nil_append, kept_tree, List.mem_map,
    List.forall_mem_map] at hkeeps

end Part

/-- What is given up begins with the current token. -/
lemma Cursor.head_remaining (c : Cursor) : c.remaining.head?.getD c.finish.current = c.current := by
  obtain ⟨behind, ahead, eof⟩ := c
  rcases ahead with _ | ⟨t, rest⟩
  · rfl
  · by_cases ht : t.kind = .eof <;> simp [remaining, finish, current, ht]

namespace ParseState

/-- The limit was not reported. -/
def Quiet (s : ParseState) : Prop := ∀ d ∈ s.log.entries, d.message ≠ limitMessage

/-- What is reported about the limit at the current token. -/
def refusal (t : Token) : Diagnostic := .error t.span limitMessage []

/-- The tokens, the last ones of the input, were given up, and the limit was the last thing to be
reported, at the first of them. -/
structure GaveUp (tokens : List Token) (c : Cursor) (log : Log) : Prop where
  behind : ∃ front, c.behind = tokens.reverse ++ front
  reported : ∃ earlier : List Diagnostic, (∀ d ∈ earlier, d.message ≠ limitMessage) ∧
    log.entries = earlier ++ (refusal (tokens.head?.getD c.current)).added earlier

/-- Between two states the limit is not reported, unless it is exceeded, and then as it should be;
and where it was exceeded before, nothing happens. -/
structure Watched (s₀ : ParseState) (ps : List Part) (s : ParseState) : Prop where
  quiet : s.tooDeep = false → Part.Keeps ps [] ∧ (s₀.Quiet → s.Quiet)
  gaveUp : s.tooDeep = true → s₀.tooDeep = false → s₀.Quiet →
    ∃ tokens, Part.Keeps ps tokens ∧ GaveUp tokens s.cursor s.log
  still : s₀.tooDeep = true → Part.Keeps ps [] ∧ s.cursor = s₀.cursor ∧ s.log = s₀.log

namespace Watched

variable {s₀ s s' : ParseState} {ps qs : List Part}

lemma start (s : ParseState) : Watched s [] s :=
  ⟨fun _ => ⟨Part.keeps_nil, id⟩,
    fun hdeep hnot => absurd (hnot.symm.trans hdeep) Bool.false_ne_true,
    fun _ => ⟨Part.keeps_nil, rfl, rfl⟩⟩

lemma mono (h : Watched s₀ ps s) (hadds : Part.Adds ps [] qs) : Watched s₀ qs s where
  quiet hnot := ⟨hadds _ (.inl rfl) (h.quiet hnot).1, (h.quiet hnot).2⟩
  gaveUp hdeep hnot hquiet := by
    obtain ⟨tokens, hkeeps, hgave⟩ := h.gaveUp hdeep hnot hquiet
    have hkeeps' := hadds _ (.inr rfl) hkeeps
    rw [List.append_nil] at hkeeps'
    exact ⟨tokens, hkeeps', hgave⟩
  still hdeep := ⟨hadds _ (.inl rfl) (h.still hdeep).1, (h.still hdeep).2⟩

/-- A step that gives nothing up and does not report the limit. -/
lemma step (h : Watched s₀ ps s) (hs : s₀.tooDeep = true → s.tooDeep = true)
    (hnot : s.tooDeep = false) (hnot' : s'.tooDeep = false) (hquiet : s.Quiet → s'.Quiet) :
    Watched s₀ ps s' where
  quiet _ := (h.quiet hnot).imp_right fun hq hq₀ => hquiet (hq hq₀)
  gaveUp hdeep := absurd (hnot'.symm.trans hdeep) Bool.false_ne_true
  still hdeep := absurd (hnot.symm.trans (hs hdeep)) Bool.false_ne_true

lemma trans (h : Watched s₀ ps s) (h' : Watched s qs s')
    (hs : s₀.tooDeep = true → s.tooDeep = true) (hs' : s.tooDeep = true → s'.tooDeep = true) :
    Watched s₀ (ps ++ qs) s' where
  quiet hnot' := by
    have hnot : s.tooDeep = false := by
      cases hdeep : s.tooDeep with
      | false => rfl
      | true => exact absurd (hnot'.symm.trans (hs' hdeep)) Bool.false_ne_true
    obtain ⟨hkeeps, hquiet⟩ := h.quiet hnot
    obtain ⟨hkeeps', hquiet'⟩ := h'.quiet hnot'
    exact ⟨hkeeps.append hkeeps' (.inl rfl), hquiet' ∘ hquiet⟩
  gaveUp hdeep' hnot₀ hq := by
    cases hdeep : s.tooDeep with
    | false =>
      obtain ⟨hkeeps, hquiet⟩ := h.quiet hdeep
      obtain ⟨tokens, hkeeps', hgave⟩ := h'.gaveUp hdeep' hdeep (hquiet hq)
      exact ⟨tokens, hkeeps.append hkeeps' (.inl rfl), hgave⟩
    | true =>
      -- given up on the first part of the way, so that nothing happens on the second
      obtain ⟨tokens, hkeeps, hgave⟩ := h.gaveUp hdeep hnot₀ hq
      obtain ⟨hkeeps', hcursor, hlog⟩ := h'.still hdeep
      have hboth := hkeeps.append hkeeps' (.inr rfl)
      rw [List.append_nil] at hboth
      rw [hcursor, hlog]
      exact ⟨tokens, hboth, hgave⟩
  still hdeep₀ := by
    obtain ⟨hkeeps, hcursor, hlog⟩ := h.still hdeep₀
    obtain ⟨hkeeps', hcursor', hlog'⟩ := h'.still (hs hdeep₀)
    exact ⟨hkeeps.append hkeeps' (.inl rfl), hcursor'.trans hcursor, hlog'.trans hlog⟩

end Watched

/-- The limit has been watched, once some parts keep the tokens given up. -/
def Pending (s₀ : ParseState) (ps : List Part) (tokens : List Token) (s : ParseState) : Prop :=
  ∀ qs, Part.Adds (ps ++ tokens.map .token) tokens qs → Watched s₀ qs s

section Cutting

variable {s₀ s : ParseState} {ps : List Part}

/-- Where the limit was exceeded before, no tokens are left. -/
lemma Watched.pending (h : Watched s₀ ps s) : Pending s₀ ps [] s :=
  fun _ hadds => h.mono (by simpa using hadds)

lemma Watched.giveUp (h : Watched s₀ ps s) (hs : s₀.tooDeep = true → s.tooDeep = true)
    (hnot : s.tooDeep = false) {log : Log}
    (hlog : log.entries = s.log.entries ++ (refusal s.cursor.current).added s.log.entries) :
    Pending s₀ ps s.cursor.remaining
      { s with cursor := s.cursor.finish, log, tooDeep := true } := by
  intro qs hadds
  have hkeeps : Part.Keeps (ps ++ s.cursor.remaining.map .token) [] := by
    have hkeeps := (h.quiet hnot).1
    rwa [Part.Keeps, Part.kept_append, Part.kept_tokens, List.append_nil]
  refine ⟨fun hfalse => absurd hfalse.symm Bool.false_ne_true, fun _ _ hquiet => ?_,
    fun hdeep => absurd (hnot.symm.trans (hs hdeep)) Bool.false_ne_true⟩
  refine ⟨s.cursor.remaining, hadds [] (.inl rfl) hkeeps, ⟨s.cursor.behind, rfl⟩,
    s.log.entries, (h.quiet hnot).2 hquiet, ?_⟩
  rw [Cursor.head_remaining]
  exact hlog

end Cutting

end ParseState

end LuaFront
