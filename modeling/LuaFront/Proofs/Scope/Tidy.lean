import LuaFront.Proofs.Tree.Form
import LuaFront.Proofs.Tree.Layout
import LuaFront.Scope.Enclosing

/-!
Finding a place in a tidy tree: one in which nothing is missing and the tokens follow each other.
No node of it is unclosed, and every node but a block has a width, so that among the parts of a
node only one contains the start of a token.
-/

namespace LuaFront

/-- The offset is that of a character in the span. -/
def Span.Covers (pos : Offset) (s : Span) : Prop := s.start ≤ pos ∧ pos < s.stop

lemma Span.Covers.contains {pos : Offset} {s : Span} (h : s.Covers pos) :
    s.contains pos = true := by
  have hwidth : s.start < s.stop := Nat.lt_of_le_of_lt h.1 h.2
  have hempty : s.isEmpty = false := by simpa [isEmpty] using Nat.ne_of_lt hwidth
  simp [Span.contains, hempty, h.1, h.2]

/-- The offset lies in the span, or at its end. -/
def Span.Touches (pos : Offset) (s : Span) : Prop := s.start ≤ pos ∧ pos ≤ s.stop

lemma Span.Covers.touches {pos : Offset} {s : Span} (h : s.Covers pos) : s.Touches pos :=
  ⟨h.1, Nat.le_of_lt h.2⟩

/-- A span that ends before an offset contains it only if it has no width. -/
lemma Span.not_contains {pos : Offset} {s : Span} (hwidth : s.start < s.stop)
    (h : s.stop ≤ pos ∨ pos < s.start) : s.contains pos = false := by
  have hempty : s.isEmpty = false := by simpa [isEmpty] using Nat.ne_of_lt hwidth
  rw [Span.contains, hempty]
  rcases h with h | h
  · simp [Nat.not_lt.2 h]
  · simp [Nat.not_le.2 h]

namespace Node

/-- Nothing is missing from the tree, and its tokens have widths and follow each other. -/
structure Tidy (n : Node) : Prop where
  complete : n.All Complete
  laid : n.InOrder
  width : ∀ t ∈ n.tokens, t.span.start < t.span.stop

variable {n m : Node} {pos : Offset}

namespace Tidy

lemma child (h : n.Tidy) (hm : m ∈ n.children) : m.Tidy :=
  ⟨(all_iff.1 h.complete).2 m hm, h.laid.child hm,
    fun t ht => h.width t (mem_tokens_of_child hm ht)⟩

lemma own (h : n.Tidy) : n.Complete := (all_iff.1 h.complete).1

lemma spanned (h : n.Tidy) : ∃ size, n.Spanned size := h.laid.spanned

/-- A node covers the start of each of its tokens. -/
lemma covers (h : n.Tidy) {t : Token} (ht : t ∈ n.tokens) : n.span.Covers t.span.start := by
  obtain ⟨size, hspanned⟩ := h.spanned
  obtain ⟨hstart, -, hstop⟩ := hspanned.tokens t ht
  exact ⟨hstart, Nat.lt_of_lt_of_le (h.width t ht) hstop⟩

end Tidy

/-! ### Nodes with a width -/

@[simp] lemma ofExpr_ne_block (e : Expr) (b : Block) : ofExpr e ≠ block b := by
  cases e <;> simp [ofExpr]

@[simp] lemma block_ne_ofExpr (b : Block) (e : Expr) : block b ≠ ofExpr e :=
  (ofExpr_ne_block e b).symm

/-- A complete node that is no block has a token of its own, or a part that is no block either. -/
lemma Complete.exists_part (h : n.Complete) (hblock : ∀ b, n ≠ block b) :
    (∃ t, .token t ∈ n.parts) ∨ ∃ m ∈ n.children, ∀ b, m ≠ block b := by
  have hexpr := ofExpr_ne_block
  have hsound := h.sound
  simp only [mem_children]
  cases n with
  | block b => exact absurd rfl (hblock b)
  | stat s =>
    cases s <;>
      simp [parts, Stat.parts, IfStat.parts, NumericFor.parts, GenericFor.parts] <;> grind [Sound]
  | expr e =>
    cases e <;> simp [parts, Expr.parts, Table.parts]
    grind [Sound]
  | tableField f => cases f <;> simp [parts, TableField.parts]
  | _ => simp [parts, FuncBody.parts, Table.parts]

lemma exists_token_of_complete (h : n.All Complete) (hblock : ∀ b, n ≠ block b) :
    ∃ t, t ∈ n.tokens := by
  induction n using Node.induction with
  | step n ih =>
    obtain ⟨hown, hchildren⟩ := all_iff.1 h
    rcases hown.exists_part hblock with ⟨t, ht⟩ | ⟨m, hm, hmblock⟩
    · exact ⟨t, mem_tokens_of_part ht⟩
    · obtain ⟨t, ht⟩ := ih m hm (hchildren m hm) hmblock
      exact ⟨t, mem_tokens_of_child hm ht⟩

/-- Every block is closed where nothing is missing. -/
lemma isUnclosed_of_present (h : ∀ t ∈ n.tokens, t.isMissing = false) : n.isUnclosed = false := by
  induction n using Node.induction with
  | step n ih =>
    rw [isUnclosed]
    split
    · next close hclose =>
      refine h close (mem_tokens_of_part ?_)
      unfold blockClose? at hclose
      split at hclose <;> cases hclose <;>
        simp [parts, Stat.parts, IfStat.parts, NumericFor.parts, GenericFor.parts, FuncBody.parts]
    · split
      · next last hmem _ => simp [ih last hmem fun t ht => h t (mem_tokens_of_child hmem ht)]
      · rfl

namespace Tidy

lemma span_width (h : n.Tidy) (hblock : ∀ b, n ≠ block b) : n.span.start < n.span.stop := by
  obtain ⟨t, ht⟩ := exists_token_of_complete h.complete hblock
  obtain ⟨hstart, hstop⟩ := h.covers ht
  exact Nat.lt_of_le_of_lt hstart hstop

/-! ### Reaching -/

lemma reaches_eq (h : n.Tidy) (limit : Offset) : n.reaches pos limit = n.span.contains pos := by
  simp [reaches, isUnclosed_of_present fun _ => present_of_complete h.complete]

/-- A node that ends before an offset does not reach it. -/
lemma not_reaches (h : n.Tidy) (hblock : ∀ b, n ≠ block b) (hstop : n.span.stop ≤ pos)
    (limit : Offset) : n.reaches pos limit = false := by
  rw [h.reaches_eq]
  exact Span.not_contains (h.span_width hblock) (.inl hstop)

end Tidy

section Among

variable {before after ns : List Node}

lemma reaching?_eq (hbefore : ∀ k ∈ before, ∀ limit, k.reaches pos limit = false) (hm : m.Tidy)
    (hpos : m.span.Covers pos) : reaching? pos (before ++ m :: after) = some m := by
  induction before with
  | nil =>
    rw [List.nil_append, reaching?, hm.reaches_eq, hpos.contains]
    rfl
  | cons k before ih =>
    have hk := hbefore k List.mem_cons_self
    rw [List.cons_append, reaching?, hk]
    exact ih fun k hk => hbefore k (List.mem_cons_of_mem _ hk)

lemma splitAt_append
    (hbefore : ∀ k ∈ before, k.span.stop ≤ pos ∧ ∀ limit, k.reaches pos limit = false) :
    splitAt pos (before ++ ns) = (before ++ (splitAt pos ns).1, (splitAt pos ns).2) := by
  induction before with
  | nil => rfl
  | cons k before ih =>
    obtain ⟨hstop, hk⟩ := hbefore k List.mem_cons_self
    rw [List.cons_append, splitAt, hk, if_neg Bool.false_ne_true, if_neg (Nat.not_lt.2 hstop),
      ih fun k hk => hbefore k (List.mem_cons_of_mem _ hk)]
    rfl

lemma splitAt_eq (hbefore : ∀ k ∈ before, k.span.stop ≤ pos ∧ ∀ limit, k.reaches pos limit = false)
    (hm : m.Tidy) (hpos : m.span.Covers pos) :
    splitAt pos (before ++ m :: after) = (before, some m) := by
  have hreaches : splitAt pos (m :: after) = ([], some m) := by
    rw [splitAt, hm.reaches_eq, hpos.contains]
    rfl
  rw [splitAt_append hbefore, hreaches, List.append_nil]

lemma splitAt_of_all (h : ∀ k ∈ ns, k.span.stop ≤ pos ∧ ∀ limit, k.reaches pos limit = false) :
    splitAt pos ns = (ns, none) := by
  have happend : splitAt pos (ns ++ []) = _ := splitAt_append h
  rwa [splitAt, List.append_nil] at happend

end Among

namespace Tidy

/-- Among children that are no blocks, the one that covers an offset is the first to reach it. -/
lemma reaching_eq (h : n.Tidy) {ns rest : List Node} (hchildren : n.children = ns ++ rest)
    (hns : ∀ k ∈ ns, ∀ b, k ≠ block b) (hm : m ∈ ns) (hpos : m.span.Covers pos) :
    n.reaching pos = [m] := by
  obtain ⟨before, after, rfl⟩ := List.append_of_mem hm
  obtain ⟨size, hspanned⟩ := h.spanned
  have hordered := hspanned.ordered
  have hmem : ∀ k ∈ before ++ m :: after, k ∈ n.children := fun k hk =>
    hchildren ▸ List.mem_append_left rest hk
  rw [hchildren, List.append_assoc, List.pairwise_append] at hordered
  rw [reaching, hchildren, List.append_assoc, List.cons_append,
    reaching?_eq ?_ (h.child (hmem m hm)) hpos]
  · rfl
  · intro k hk
    have hstop := hordered.2.2 k hk m List.mem_cons_self
    exact (h.child (hmem k (List.mem_append_left _ hk))).not_reaches
      (hns k (List.mem_append_left _ hk)) (Nat.le_trans hstop hpos.1)

/-! ### Between tokens -/

lemma stop_le_start (h : n.Tidy) {p q : Part} (hpq : [p, q].Sublist n.parts) :
    p.span.stop ≤ q.span.start :=
  List.pairwise_iff_forall_sublist.1 h.laid.parts_ordered hpq

/-- What lies in a node or at its end is inside the tokens on both sides of it. -/
lemma inside_eq_true (h : n.Tidy) {opening closing : Token}
    (hparts : [.token opening, .node m, .token closing].Sublist n.parts)
    (hpos : m.span.Touches pos) : inside pos opening closing = true := by
  have hopening : opening.span.stop ≤ m.span.start :=
    h.stop_le_start (p := .token opening) (q := .node m) (.trans (by simp) hparts)
  have hclosing : m.span.stop ≤ closing.span.start :=
    h.stop_le_start (p := .node m) (q := .token closing) (.trans (by simp) hparts)
  have hle := Nat.le_trans hpos.2 hclosing
  simp [inside, Nat.le_trans hopening hpos.1, hle]

/-- Nothing up to the start of a token lies inside that token and another. -/
lemma inside_eq_false (h : n.Tidy) {opening : Token} (closing : Token)
    (hopening : opening ∈ n.tokens) (hpos : pos ≤ opening.span.start) :
    inside pos opening closing = false := by
  have hlt := Nat.lt_of_le_of_lt hpos (h.width opening hopening)
  simp [inside, Nat.not_le.2 hlt]

end Tidy

end Node

end LuaFront
