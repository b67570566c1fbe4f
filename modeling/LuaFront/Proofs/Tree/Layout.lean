import LuaFront.Proofs.Tree.Marks
import Mathlib.Data.List.Pairwise

/-!
Marks in the order of the text. The marks of a tree are laid out between two offsets when each
token begins where the one before it ended or later, and each anchor stands where the token before
it ended. Then the span of a node runs from its first mark to its last, and the spans of its parts
follow each other.
-/

namespace LuaFront

/-- The marks follow each other from one offset to another, the end of the last one. -/
def Laid : (start : Offset) → List Mark → (stop : Offset) → Prop
  | start, [], stop => start = stop
  | start, .token t :: ms, stop =>
    start ≤ t.span.start ∧ t.span.start ≤ t.span.stop ∧ Laid t.span.stop ms stop
  | start, .anchor offset :: ms, stop => offset = start ∧ Laid start ms stop

namespace Laid

variable {start stop : Offset} {ms : List Mark}

lemma append_iff {as bs : List Mark} :
    Laid start (as ++ bs) stop ↔ ∃ mid, Laid start as mid ∧ Laid mid bs stop := by
  induction as generalizing start with
  | nil => simp [Laid]
  | cons m as ih =>
    cases m with
    | token t => simp [Laid, ih, and_assoc]
    | anchor o => simp [Laid, ih, and_assoc]

lemma le (h : Laid start ms stop) : start ≤ stop := by
  induction ms generalizing start with
  | nil => exact Nat.le_of_eq h
  | cons m ms ih =>
    cases m with
    | token t => exact Nat.le_trans h.1 (Nat.le_trans h.2.1 (ih h.2.2))
    | anchor o => exact ih h.2

/-- Marks can be laid out from anywhere before their first token. -/
lemma encloses {t : Token} (h : Laid start ms stop) (ht : .token t ∈ ms) :
    start ≤ t.span.start ∧ t.span.start ≤ t.span.stop ∧ t.span.stop ≤ stop := by
  obtain ⟨as, bs, rfl⟩ := List.append_of_mem ht
  obtain ⟨mid, has, hbs⟩ := append_iff.1 h
  exact ⟨Nat.le_trans has.le hbs.1, hbs.2.1, hbs.2.2.le⟩

/-- Each token begins where those before it ended, or later. -/
lemma tokens_ordered (h : Laid start ms stop) :
    (ms.filterMap Mark.token?).Pairwise fun t u => t.span.stop ≤ u.span.start := by
  induction ms generalizing start with
  | nil => exact List.Pairwise.nil
  | cons m ms ih =>
    cases m with
    | anchor o => exact ih h.2
    | token t =>
      refine List.pairwise_cons.2 ⟨fun u hu => ?_, ih h.2.2⟩
      obtain ⟨m, hm, hu⟩ := List.mem_filterMap.1 hu
      cases m <;> cases hu
      exact (h.2.2.encloses hm).1

lemma eq_of_no_tokens (h : Laid start ms stop) (hms : ms.filterMap Mark.token? = []) :
    start = stop := by
  induction ms with
  | nil => exact h
  | cons m ms ih =>
    cases m with
    | token t => simp [Mark.token?] at hms
    | anchor o => exact ih h.2 (by simpa [Mark.token?] using hms)

lemma stop_eq_of_getLast? {t : Token} (h : Laid start ms stop)
    (ht : (ms.filterMap Mark.token?).getLast? = some t) : t.span.stop = stop := by
  induction ms generalizing start with
  | nil => simp at ht
  | cons m ms ih =>
    cases m with
    | anchor o => exact ih h.2 (by simpa [Mark.token?] using ht)
    | token u =>
      rcases hms : ms.filterMap Mark.token? with _ | ⟨v, vs⟩
      · have hu : u = t := by simpa [Mark.token?, hms] using ht
        subst hu
        exact eq_of_no_tokens h.2.2 hms
      · refine ih h.2.2 ?_
        simpa [Mark.token?, hms] using ht

lemma of_infix {as : List Mark} (h : Laid start ms stop) (has : as <:+: ms) :
    ∃ lo hi, start ≤ lo ∧ Laid lo as hi ∧ hi ≤ stop := by
  obtain ⟨pre, post, rfl⟩ := has
  obtain ⟨hi, hpre, hpost⟩ := append_iff.1 h
  obtain ⟨lo, hpre, has⟩ := append_iff.1 hpre
  exact ⟨lo, hi, hpre.le, has, hpost.le⟩

end Laid

/-! ### Spans of laid out nodes -/

/-- The span of a part is that of its marks. -/
structure Part.Placed (start : Offset) (p : Part) (stop : Offset) : Prop where
  start_le : start ≤ p.span.start
  start_le_stop : p.span.start ≤ p.span.stop
  stop_eq : p.span.stop = stop
  laid : Laid p.span.start p.marks stop

lemma Part.placed_token {start stop : Offset} {t : Token} (h : Laid start [.token t] stop) :
    (Part.token t).Placed start stop :=
  ⟨h.1, h.2.1, h.2.2, Nat.le_refl _, h.2.1, h.2.2⟩

section Parts

variable {start stop : Offset} {ps : List Part}
  (hps : ∀ p ∈ ps, ∀ lo hi, Laid lo p.marks hi → p.Placed lo hi)
include hps

lemma parts_within (h : Laid start (ps.flatMap Part.marks) stop) :
    ∀ p ∈ ps, start ≤ p.span.start ∧ p.span.start ≤ p.span.stop ∧ p.span.stop ≤ stop := by
  intro p hp
  have hinfix : p.marks <:+: ps.flatMap Part.marks := by
    obtain ⟨as, bs, rfl⟩ := List.append_of_mem hp
    exact ⟨as.flatMap Part.marks, bs.flatMap Part.marks, by simp⟩
  obtain ⟨lo, hi, hlo, hlaid, hhi⟩ := h.of_infix hinfix
  have hplaced := hps p hp lo hi hlaid
  exact ⟨Nat.le_trans hlo hplaced.start_le, hplaced.start_le_stop, hplaced.stop_eq ▸ hhi⟩

lemma parts_ordered (h : Laid start (ps.flatMap Part.marks) stop) :
    ps.Pairwise fun p q => p.span.stop ≤ q.span.start := by
  induction ps generalizing start with
  | nil => exact List.Pairwise.nil
  | cons p ps ih =>
    rw [List.flatMap_cons] at h
    obtain ⟨mid, hp, htail⟩ := Laid.append_iff.1 h
    have hps' := fun q (hq : q ∈ ps) => hps q (List.mem_cons_of_mem p hq)
    refine List.pairwise_cons.2 ⟨fun q hq => ?_, ih hps' htail⟩
    rw [(hps p List.mem_cons_self _ _ hp).stop_eq]
    exact (parts_within hps' htail q hq).1

lemma laid_from_first {first : Part} (hfirst : ps.head? = some first)
    (h : Laid start (ps.flatMap Part.marks) stop) :
    start ≤ first.span.start ∧ Laid first.span.start (ps.flatMap Part.marks) stop := by
  obtain ⟨rest, rfl⟩ := List.head?_eq_some_iff.1 hfirst
  rw [List.flatMap_cons] at h ⊢
  obtain ⟨mid, hp, htail⟩ := Laid.append_iff.1 h
  have hplaced := hps first List.mem_cons_self _ _ hp
  exact ⟨hplaced.start_le, Laid.append_iff.2 ⟨mid, hplaced.laid, htail⟩⟩

lemma stop_of_last {last : Part} (hlast : ps.getLast? = some last)
    (h : Laid start (ps.flatMap Part.marks) stop) : last.span.stop = stop := by
  obtain ⟨rest, rfl⟩ := List.getLast?_eq_some_iff.1 hlast
  rw [List.flatMap_append] at h
  obtain ⟨mid, -, htail⟩ := Laid.append_iff.1 h
  exact (hps last (by simp) mid stop (by simpa using htail)).stop_eq

end Parts

namespace Node

variable {n : Node} {start stop : Offset}

/-- **A node that is laid out spans its marks.** -/
theorem placed (h : Laid start n.marks stop) : (Part.node n).Placed start stop := by
  induction n using Node.induction generalizing start stop with
  | step n ih =>
    have hps : ∀ p ∈ n.parts, ∀ lo hi, Laid lo p.marks hi → p.Placed lo hi := by
      intro p hp lo hi hlaid
      cases p with
      | token t => exact Part.placed_token hlaid
      | node m => exact ih m (mem_children.2 hp) hlaid
    rcases hfirst : n.parts.head? with _ | first
    · have hnil := List.head?_eq_none_iff.1 hfirst
      rw [marks_of_no_parts hnil] at h
      obtain ⟨hanchor, hstop : start = stop⟩ := h
      subst hstop
      have hspan : (Part.node n).span = .empty start := by
        rw [Part.span, span_eq, hnil, ← hanchor]
        rfl
      have hmarks : (Part.node n).marks = [.anchor n.anchor] := marks_of_no_parts hnil
      constructor <;> simp only [hspan, hmarks, Span.empty, hanchor, Laid, Nat.le_refl, and_self]
    · have hne : n.parts ≠ [] := by
        rintro hnil
        simp [hnil] at hfirst
      rcases hlast : n.parts.getLast? with _ | last
      · exact absurd (List.getLast?_eq_none_iff.1 hlast) hne
      have hspan : (Part.node n).span = .join first.span last.span := by
        rw [Part.span, span_eq, hfirst, hlast]
      have hmarks : (Part.node n).marks = n.parts.flatMap Part.marks := marks_of_parts hne
      rw [marks_of_parts hne] at h
      obtain ⟨hstart, hlaid⟩ := laid_from_first hps hfirst h
      have hstop := stop_of_last hps hlast h
      have hle := hlaid.le
      constructor
      · rwa [hspan]
      · rw [hspan]
        exact Nat.le_max_right _ _
      · rw [hspan, Span.join, hstop]
        exact Nat.max_eq_left hle
      · rwa [hspan, hmarks]

lemma placed_parts : ∀ p ∈ n.parts, ∀ lo hi, Laid lo p.marks hi → p.Placed lo hi := by
  intro p _ lo hi hlaid
  cases p with
  | token t => exact Part.placed_token hlaid
  | node m => exact placed hlaid

/-- A node begins where its first token does. -/
lemma start_eq_of_head? {t : Token} (h : n.marks.head? = some (.token t)) :
    n.span.start = t.span.start := by
  induction n using Node.induction with
  | step n ih =>
    rcases hparts : n.parts with _ | ⟨p, rest⟩
    · rw [marks_of_no_parts hparts] at h
      cases h
    · have hspan : n.span.start = p.span.start := by
        rw [span_eq, hparts]
        cases hlast : (p :: rest).getLast? with
        | none => simp at hlast
        | some last => rfl
      rw [hspan]
      rw [marks_of_parts (by simp [hparts]), hparts, List.flatMap_cons] at h
      cases p with
      | token u =>
        cases h
        rfl
      | node m =>
        refine ih m (mem_children.2 (by simp [hparts])) ?_
        rwa [Part.marks, List.head?_append, Option.or_of_isSome] at h
        exact List.isSome_head?.2 (marks_ne_nil m)

lemma laid_parts (h : Laid start n.marks stop) (hne : n.parts ≠ []) :
    Laid start (n.parts.flatMap Part.marks) stop := by rwa [marks_of_parts hne] at h

/-! ### The discipline of spans -/

/-- How a node and what it is made of stand in a text of a size. -/
structure Spanned (size : Nat) (n : Node) : Prop where
  start_le_stop : n.span.start ≤ n.span.stop
  stop_le : n.span.stop ≤ size
  tokens : ∀ t ∈ n.tokens,
    n.span.start ≤ t.span.start ∧ t.span.start ≤ t.span.stop ∧ t.span.stop ≤ n.span.stop
  children : ∀ m ∈ n.children, n.span.start ≤ m.span.start ∧ m.span.stop ≤ n.span.stop
  last : ∀ t, n.tokens.getLast? = some t → n.span.stop = t.span.stop
  ordered : n.children.Pairwise fun k m => k.span.stop ≤ m.span.start

lemma spanned_of_laid {size : Nat} (h : Laid start n.marks stop) (hstop : stop ≤ size) :
    n.Spanned size := by
  have hplaced := placed h
  have hlaid : Laid n.span.start n.marks stop := hplaced.laid
  have hspan : n.span.stop = stop := hplaced.stop_eq
  have hchildren : n.parts = [] ∨ Laid n.span.start (n.parts.flatMap Part.marks) stop := by
    rcases hparts : n.parts with _ | ⟨p, rest⟩
    · exact .inl rfl
    · exact .inr (hparts ▸ laid_parts hlaid (by simp [hparts]))
  refine ⟨hplaced.start_le_stop, by rwa [hspan], ?_, ?_, ?_, ?_⟩
  · intro t ht
    rw [tokens_eq_marks] at ht
    obtain ⟨m, hm, hmt⟩ := List.mem_filterMap.1 ht
    cases m with
    | anchor => cases hmt
    | token u =>
      cases hmt
      rw [hspan]
      exact hlaid.encloses hm
  · intro m hm
    rcases hchildren with hnil | hparts
    · simp [children, hnil] at hm
    · have hwithin := parts_within placed_parts hparts _ (mem_children.1 hm)
      exact ⟨hwithin.1, hspan ▸ hwithin.2.2⟩
  · intro t ht
    rw [tokens_eq_marks] at ht
    rw [hspan, hlaid.stop_eq_of_getLast? ht]
  · rcases hchildren with hnil | hparts
    · simp [children, hnil]
    · have hordered := parts_ordered placed_parts hparts
      rw [children, List.pairwise_filterMap]
      refine hordered.imp ?_
      rintro (_ | k) (_ | m) hle _ ⟨⟩ _ ⟨⟩
      exact hle

/-! ### Nodes in the order of the text -/

/-- One of two nodes ends before the other begins. -/
def Apart (k m : Node) : Prop := k.span.stop ≤ m.span.start ∨ m.span.stop ≤ k.span.start

instance : Std.Symm Apart := ⟨fun _ _ => Or.symm⟩

/-- The marks of the node are laid out somewhere. -/
def InOrder (n : Node) : Prop := ∃ start stop, Laid start n.marks stop

namespace InOrder

variable {m : Node}

lemma of_mem_preorder (h : n.InOrder) (hm : m ∈ n.preorder) : m.InOrder := by
  obtain ⟨start, stop, hlaid⟩ := h
  obtain ⟨lo, hi, -, hlaid, -⟩ := hlaid.of_infix (marks_infix_of_mem_preorder hm)
  exact ⟨lo, hi, hlaid⟩

lemma child (h : n.InOrder) (hm : m ∈ n.children) : m.InOrder :=
  h.of_mem_preorder (mem_preorder_of_mem_children hm (self_mem_preorder m))

lemma spanned (h : n.InOrder) : ∃ size, n.Spanned size := by
  obtain ⟨start, stop, hlaid⟩ := h
  exact ⟨stop, spanned_of_laid hlaid (Nat.le_refl stop)⟩

lemma apart (h : n.InOrder) {k : Node} (hk : k ∈ n.children) (hm : m ∈ n.children)
    (hne : k ≠ m) : Apart k m := by
  obtain ⟨size, hspanned⟩ := h.spanned
  have hordered : n.children.Pairwise Apart := hspanned.ordered.imp .inl
  exact hordered.forall hk hm hne

/-- The parts of a node follow each other. -/
lemma parts_ordered (h : n.InOrder) : n.parts.Pairwise fun p q => p.span.stop ≤ q.span.start := by
  obtain ⟨start, stop, hlaid⟩ := h
  rcases hparts : n.parts with _ | ⟨p, rest⟩
  · exact List.Pairwise.nil
  · rw [← hparts]
    exact LuaFront.parts_ordered placed_parts (laid_parts hlaid (by simp [hparts]))

lemma tokens_ordered (h : n.InOrder) :
    n.tokens.Pairwise fun t u => t.span.stop ≤ u.span.start := by
  obtain ⟨start, stop, hlaid⟩ := h
  rw [tokens_eq_marks]
  exact hlaid.tokens_ordered

lemma tokens_apart (h : n.InOrder) {t u : Token} (ht : t ∈ n.tokens) (hu : u ∈ n.tokens)
    (hne : t ≠ u) : t.span.stop ≤ u.span.start ∨ u.span.stop ≤ t.span.start := by
  have hsymm : Std.Symm fun t u : Token =>
      t.span.stop ≤ u.span.start ∨ u.span.stop ≤ t.span.start := ⟨fun _ _ => Or.symm⟩
  have hordered : n.tokens.Pairwise fun t u =>
      t.span.stop ≤ u.span.start ∨ u.span.stop ≤ t.span.start := h.tokens_ordered.imp .inl
  exact hordered.forall ht hu hne

/-- A token with a width stands in one child only. -/
lemma eq_of_token (h : n.InOrder) {k : Node} (hk : k ∈ n.children) (hm : m ∈ n.children)
    {t : Token} (htk : t ∈ k.tokens) (htm : t ∈ m.tokens) (hwidth : t.span.start < t.span.stop) :
    k = m := by
  by_contra hne
  obtain ⟨_, hkspanned⟩ := (h.child hk).spanned
  obtain ⟨_, hmspanned⟩ := (h.child hm).spanned
  obtain ⟨hkstart, -, hkstop⟩ := hkspanned.tokens t htk
  obtain ⟨hmstart, -, hmstop⟩ := hmspanned.tokens t htm
  rcases h.apart hk hm hne with hle | hle
  · exact Nat.not_lt.2 (Nat.le_trans hkstop (Nat.le_trans hle hmstart)) hwidth
  · exact Nat.not_lt.2 (Nat.le_trans hmstop (Nat.le_trans hle hkstart)) hwidth

/-- A token with a width belongs to one node only. -/
lemma eq_of_own (h : n.InOrder) {k : Node} (hk : k ∈ n.preorder) (hm : m ∈ n.preorder) {t : Token}
    (hkt : .token t ∈ k.parts) (hmt : .token t ∈ m.parts) (hwidth : t.span.start < t.span.stop) :
    k = m := by
  induction n using Node.induction with
  | step n ih =>
    have happart : ∀ c ∈ n.children, .token t ∈ n.parts → t ∉ c.tokens := by
      intro c hc hown ht
      obtain ⟨_, hspanned⟩ := (h.child hc).spanned
      obtain ⟨hstart, -, hstop⟩ := hspanned.tokens t ht
      have hne : Part.token t ≠ .node c := by simp
      have hsymm : Std.Symm fun p q : Part =>
          p.span.stop ≤ q.span.start ∨ q.span.stop ≤ p.span.start := ⟨fun _ _ => Or.symm⟩
      have hordered : n.parts.Pairwise fun p q =>
          p.span.stop ≤ q.span.start ∨ q.span.stop ≤ p.span.start := h.parts_ordered.imp .inl
      rcases hordered.forall hown (mem_children.1 hc) hne with hle | hle
      · exact Nat.not_lt.2 (Nat.le_trans hle hstart) hwidth
      · exact Nat.not_lt.2 (Nat.le_trans hstop hle) hwidth
    rcases mem_preorder_cases hk with rfl | ⟨c, hc, hkc⟩ <;>
      rcases mem_preorder_cases hm with rfl | ⟨c', hc', hmc⟩
    · rfl
    · exact absurd (mem_tokens_of_own hmc hmt) (happart c' hc' hkt)
    · exact absurd (mem_tokens_of_own hkc hkt) (happart c hc hmt)
    · obtain rfl := h.eq_of_token hc hc' (mem_tokens_of_own hkc hkt) (mem_tokens_of_own hmc hmt)
        hwidth
      exact ih c hc (h.child hc) hkc hmc

end InOrder

end Node

end LuaFront
