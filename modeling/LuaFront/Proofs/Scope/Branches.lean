import LuaFront.Proofs.Scope.Frames

/-!
The branches of a conditional statement. The search takes the condition that contains the offset, or
else the last branch that has begun there; in a tidy tree this is the branch that holds the
offset.
-/

namespace LuaFront.Node

variable {env : Env} {m : Node} {pos : Offset}

lemma if_children (s : IfStat) :
    (stat (.if_ s)).children = ofExpr s.cond :: s.branches.map (·.2) := by
  simp [children, parts, Stat.parts, IfStat.parts, IfStat.branches, Part.node?, Function.comp_def]

/-- The token before the block of a further branch is one of its own. -/
lemma branch_opener {s : IfStat} {branch : Token × Node} (h : branch ∈ s.branches.tail) :
    branch.1 ∈ branch.2.tokens := by
  simp only [IfStat.branches, List.cons_append, List.tail_cons, List.mem_append, List.mem_map]
    at h
  rcases h with ⟨c, -, rfl⟩ | ⟨c, -, rfl⟩ <;> exact mem_tokens_of_part (by simp [parts])

lemma mem_children_if {s : IfStat} {branch : Token × Node} (hbranch : branch ∈ s.branches) :
    branch.2 ∈ (stat (.if_ s)).children := by
  rw [if_children]
  exact List.mem_cons_of_mem _ (List.mem_map_of_mem hbranch)

/-- All of the statement stands before the token that closes it. -/
lemma node_close_sublist {s : IfStat} (hm : .node m ∈ (stat (.if_ s)).parts) :
    [.node m, .token s.close].Sublist (stat (.if_ s)).parts := by
  simp only [parts, Stat.parts, IfStat.parts, List.mem_append, List.mem_singleton, reduceCtorEq,
    or_false] at hm ⊢
  refine List.Sublist.append (List.singleton_sublist.2 ?_) (List.Sublist.refl _)
  simpa [or_assoc] using hm

section If

variable {s : IfStat} (h : (stat (.if_ s)).Tidy)
include h

/-- The last branch that has begun is the one with the offset. -/
lemma Tidy.last_branch {t : Token} (hm : (t, m) ∈ s.branches) (ht : t.span.stop ≤ pos)
    (hpos : m.span.Touches pos) :
    s.branches.reverse.find? (fun branch => inside pos branch.1 s.close) = some (t, m) := by
  obtain ⟨before, after, hbranches⟩ := List.append_of_mem hm
  obtain ⟨size, hspanned⟩ := h.spanned
  have hordered := hspanned.ordered
  rw [if_children, List.pairwise_cons, List.pairwise_map, hbranches, List.pairwise_append,
    List.pairwise_cons] at hordered
  have hafter : ∀ branch ∈ after, inside pos branch.1 s.close = false := by
    intro branch hbranch
    have htail : branch ∈ s.branches.tail := by
      rw [hbranches]
      cases before <;> simp [hbranch]
    have hstart : m.span.stop ≤ branch.2.span.start := hordered.2.2.1.1 branch hbranch
    have hbranch := h.child (mem_children_if (List.mem_of_mem_tail htail))
    have hopener := branch_opener htail
    exact hbranch.inside_eq_false s.close hopener
      (Nat.le_trans hpos.2 (Nat.le_trans hstart (hbranch.covers hopener).1))
  have hclose : m.span.stop ≤ s.close.span.start :=
    h.stop_le_start (node_close_sublist (mem_children.1 (mem_children_if hm)))
  have hin : inside pos t s.close = true := by
    simp [inside, ht, Nat.le_trans hpos.2 hclose]
  rw [hbranches, List.reverse_append, List.reverse_cons, List.append_assoc, List.find?_append,
    List.find?_eq_none.2 (by simpa using hafter)]
  simp [hin]

/-- No condition contains what lies in a node beside it, or at its end. -/
lemma Tidy.cond_not_contains {t : Token} (hm : (t, m) ∈ s.branches) (hpos : m.span.Touches pos) :
    (ofExpr s.cond).span.contains pos = false := by
  have hcond : ofExpr s.cond ∈ (stat (.if_ s)).children := by simp [if_children]
  obtain ⟨size, hspanned⟩ := h.spanned
  have hordered := hspanned.ordered
  rw [if_children, List.pairwise_cons] at hordered
  have hle := hordered.1 m (List.mem_map_of_mem hm)
  exact Span.not_contains ((h.child hcond).span_width (ofExpr_ne_block _))
    (.inl (Nat.le_trans hle hpos.1))

lemma Tidy.elseIf_not_contains (hm : m ∈ (stat (.if_ s)).children) {c : ElseIf}
    (hc : c ∈ s.elseIfs) (hne : m ≠ elseIf c) (hpos : m.span.Touches pos) :
    (ofExpr c.cond).span.contains pos = false := by
  have hchild : elseIf c ∈ (stat (.if_ s)).children := by
    simp [if_children, IfStat.branches, hc]
  have hclause := h.child hchild
  have hcond : ofExpr c.cond ∈ (elseIf c).children := by simp [children, parts]
  refine Span.not_contains ((hclause.child hcond).span_width (ofExpr_ne_block _)) ?_
  rcases h.laid.apart hchild hm hne.symm with hle | hle
  · obtain ⟨size, hspanned⟩ := hclause.spanned
    have hstop := (hspanned.children _ hcond).2
    exact .inl (Nat.le_trans hstop (Nat.le_trans hle hpos.1))
  -- The condition of a later branch comes after the word that begins the branch.
  · have hkeyword : c.keyword ∈ (elseIf c).tokens := mem_tokens_of_part (by simp [parts])
    have hstart := (hclause.covers hkeyword).1
    have hbegun : c.keyword.span.stop ≤ (ofExpr c.cond).span.start :=
      hclause.stop_le_start (p := .token c.keyword) (q := .node (ofExpr c.cond)) (by simp [parts])
    refine .inr (Nat.lt_of_le_of_lt (Nat.le_trans hpos.2 (Nat.le_trans hle hstart)) ?_)
    exact Nat.lt_of_lt_of_le (hclause.width _ hkeyword) hbegun

/-- Where a branch holds an offset: in its condition, or in its block. -/
lemma Tidy.branch_cases {t : Token} (hm : (t, m) ∈ s.branches) (hpos : m.Holds pos) :
    (∃ c ∈ s.elseIfs, m = elseIf c ∧ (ofExpr c.cond).span.contains pos = true)
      ∨ t.span.stop ≤ pos ∧ ∀ c ∈ s.elseIfs, (ofExpr c.cond).span.contains pos = false := by
  have hchild : m ∈ (stat (.if_ s)).children := mem_children_if hm
  have hclause := h.child hchild
  have htouches := hclause.touches hpos
  simp only [IfStat.branches, List.cons_append, List.mem_cons, List.mem_append, List.mem_map,
    Prod.mk.injEq] at hm
  rcases hm with ⟨rfl, rfl⟩ | ⟨c, hc, rfl, rfl⟩ | ⟨c, -, rfl, rfl⟩
  · have hopener : s.opener.span.stop ≤ (block s.block).span.start :=
      h.stop_le_start (p := .token s.opener) (q := .node (block s.block))
        (by simp [parts, Stat.parts, IfStat.parts])
    exact .inr ⟨Nat.le_trans hopener htouches.1,
      fun c hc => h.elseIf_not_contains hchild hc (by simp) htouches⟩
  · rcases hpos with hcond | hblock
    · exact .inl ⟨c, hc, rfl, hcond.contains⟩
    · have hopener : c.opener.span.stop ≤ (block c.block).span.start :=
        hclause.stop_le_start (p := .token c.opener) (q := .node (block c.block)) (by simp [parts])
      refine .inr ⟨Nat.le_trans hopener hblock.1, fun c' hc' => ?_⟩
      by_cases heq : elseIf c = elseIf c'
      · cases heq
        exact hclause.cond_behind hblock
      · exact h.elseIf_not_contains hchild hc' heq htouches
  · have hopener : c.keyword.span.stop ≤ (block c.block).span.start :=
      hclause.stop_le_start (p := .token c.keyword) (q := .node (block c.block)) (by simp [parts])
    exact .inr ⟨Nat.le_trans hopener hpos.1,
      fun c hc => h.elseIf_not_contains hchild hc (by simp) htouches⟩

lemma Tidy.branch?_eq (hm : m ∈ (stat (.if_ s)).children) (hpos : m.Holds pos) :
    s.branch? pos = some m := by
  have htouches := (h.child hm).touches hpos
  rw [IfStat.branch?]
  by_cases hcond : m = ofExpr s.cond
  · subst hcond
    rw [((h.child hm).covers_of_holds (by simp) hpos).contains, if_pos rfl]
  · have hbranch : ∃ t, (t, m) ∈ s.branches := by
      simpa [if_children, hcond] using hm
    obtain ⟨t, ht⟩ := hbranch
    rw [h.cond_not_contains ht htouches, if_neg Bool.false_ne_true]
    rcases h.branch_cases ht hpos with ⟨c, hc, rfl, hcontains⟩ | ⟨hbegun, hnone⟩
    · cases hfind : s.elseIfs.find? fun c => (ofExpr c.cond).span.contains pos with
      | none => exact absurd hcontains (List.find?_eq_none.1 hfind c hc)
      | some c' =>
        by_cases heq : elseIf c = elseIf c'
        · rw [heq]
        · have hfound := List.find?_some hfind
          have hmem := List.mem_of_find?_eq_some hfind
          rw [h.elseIf_not_contains hm hmem heq htouches] at hfound
          cases hfound
    · rw [List.find?_eq_none.2 (by simpa using hnone)]
      simp [h.last_branch ht hbegun htouches]

lemma Tidy.leads_if (hm : m ∈ (stat (.if_ s)).children) (hpos : m.Holds pos) :
    Leads pos env (stat (.if_ s)) env m :=
  leads_of_no_frame rfl (by rw [inward, h.branch?_eq hm hpos]; rfl)

end If

end LuaFront.Node
