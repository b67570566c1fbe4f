import LuaFront.Proofs.Scope.Resolution

/-!
What is visible where a name ends. A name is looked up at its start, while what is offered for it is
looked up at its end. On the way to the end the search meets the same frames, but for one form: a
loop that ends with its condition no longer covers the end of the condition, so that the locals of
its block are lost there.
-/

namespace LuaFront

namespace Node

variable {env' : Env} {n m : Node} {pos : Offset} {id : Identifier} {b : Binding}

/-- The locals that are visible in the condition of a loop, and no longer where it ends. -/
def dropped (pos : Offset) : Node → List Binding
  | stat (.repeat_ keyword b close cond) =>
    if (stat (.repeat_ keyword b close cond)).span.stop = pos then
      (block b).children.flatMap locals
    else []
  | _ => []

/-! ### Around a name -/

lemma closing_sublist (front : List Part) {opening closing : Token} {c : Block}
    (hparts : n.parts = front ++ [Part.token opening, .node (block c), .token closing])
    (hfront : ∀ k, .node k ∈ front → k.endsInBlock = false) (hm : .node m ∈ n.parts)
    (hblock : m.endsInBlock = true) : [.node m, .token closing].Sublist n.parts := by
  rw [hparts] at hm ⊢
  obtain rfl : m = block c := by
    rcases List.mem_append.1 hm with hm | hm
    · rw [hfront m hm] at hblock
      cases hblock
    · simpa using hm
  exact (List.sublist_cons_self _ _).trans (List.sublist_append_right _ _)

/-- A block within a node that does not end in it has a token behind it. -/
lemma exists_closing (hm : .node m ∈ n.parts) (hn : n.endsInBlock = false)
    (hblock : m.endsInBlock = true) : ∃ t, [.node m, .token t].Sublist n.parts := by
  have hargs := @endsInBlock_of_args
  cases n with
  | block b => cases hn
  | elseIf c => cases hn
  | else_ c => cases hn
  | funcBody f =>
    have hfront : ∀ k, .node k ∈ .token f.opening :: f.params.parts ofParam →
        k.endsInBlock = false := by
      intro k hk
      simp at hk
      grind
    exact ⟨f.close, closing_sublist (.token f.opening :: f.params.parts ofParam) rfl hfront
      hm hblock⟩
  | stat s =>
    cases s with
    | do_ keyword b close => exact ⟨close, closing_sublist [] rfl (by simp) hm hblock⟩
    | while_ keyword cond opener b close =>
      exact ⟨close, closing_sublist [.token keyword, .node (ofExpr cond)] rfl (by simp)
        hm hblock⟩
    | numericFor s =>
      exact ⟨s.close, closing_sublist s.front rfl (fun _ => endsInBlock_of_numericFront)
        hm hblock⟩
    | genericFor s =>
      exact ⟨s.close, closing_sublist s.front rfl (fun _ => endsInBlock_of_genericFront)
        hm hblock⟩
    | repeat_ keyword b close cond =>
      obtain rfl : m = block b := by
        simp [parts, Stat.parts] at hm
        grind
      exact ⟨close, by simp [parts, Stat.parts]⟩
    | if_ s => exact ⟨s.close, node_close_sublist hm⟩
    | _ => simp [parts, Stat.parts, MethodName.parts] at hm <;> grind [endsInBlock]
  | expr e => cases e <;> simp [parts, Expr.parts, Table.parts] at hm <;> grind [endsInBlock]
  | tableField f => cases f <;> simp [parts, TableField.parts] at hm <;> grind [endsInBlock]
  | _ => simp [parts, Table.parts] at hm <;> grind [endsInBlock]

lemma Tidy.stop_lt (h : n.Tidy) (hm : m ∈ n.children) (hn : n.endsInBlock = false)
    (hblock : m.endsInBlock = true) : m.span.stop < n.span.stop := by
  obtain ⟨t, hparts⟩ := exists_closing (mem_children.1 hm) hn hblock
  have hle := h.stop_le_start hparts
  have ht : t ∈ n.tokens := mem_tokens_of_part (hparts.subset (by simp))
  exact Nat.lt_of_le_of_lt hle (h.covers ht).2

/-- What holds an offset at a name makes the node around it do so too. -/
lemma Tidy.holds_of_child (h : n.Tidy) (hm : m ∈ n.children) (hid : identifier id ∈ m.preorder)
    (hfree : ∀ b ∈ n.declared, b.id ≠ id) (hpos : id.token.span.Touches pos)
    (hholds : m.Holds pos) : n.Holds pos := by
  have hmtidy := h.child hm
  refine h.holds_name (mem_preorder_of_mem_children hm hid) hfree hpos ?_
  rintro k (rfl | hk) hidk hblock
  · have htouches := h.touches_child hm (hmtidy.touches hholds)
    refine ⟨htouches.1, ?_⟩
    cases hmblock : m.endsInBlock with
    | false =>
      obtain ⟨size, hspanned⟩ := h.spanned
      have hcovers := hmtidy.covers_of_holds hmblock hholds
      exact Nat.lt_of_lt_of_le hcovers.2 (hspanned.children m hm).2
    | true => exact Nat.lt_of_le_of_lt (hmtidy.touches hholds).2 (h.stop_lt hm hblock hmblock)
  · have htoken := mem_tokens_of_mem_preorder hid
    obtain rfl := h.laid.eq_of_token hk hm (mem_tokens_of_mem_preorder hidk) htoken
      (hmtidy.width _ htoken)
    exact hmtidy.covers_of_holds hblock hholds

/-! ### From the start of a name to its end -/

/-- Where the traversal gains bindings: in a block, in a function, and in the condition of a
loop. -/
lemma env_cases (hm : .inner env' m ∈ n.pieces []) :
    env' = [] ∨ (∃ c, m = block c) ∨ (∃ f, m = funcBody f) ∨ (∃ c, n = block c)
      ∨ ∃ keyword c close cond, n = stat (.repeat_ keyword c close cond)
        ∧ env' = c.atEnd [] ∧ m = ofExpr cond := by
  unfold pieces at hm
  split at hm
  case h_1 c => exact .inr (.inr (.inr (.inl ⟨c, rfl⟩)))
  case h_10 f =>
    rcases List.mem_append.1 hm with hm | hm
    · obtain ⟨p, -, hp⟩ := List.mem_map.1 hm
      cases p <;> cases hp
      exact .inl rfl
    · cases List.mem_singleton.1 hm
      exact .inr (.inl ⟨f.block, rfl⟩)
  case h_14 => exact .inl (env_eq_of_map hm)
  all_goals
    simp at hm
    try grind

/-- The locals of the statements before an offset are visible there. -/
lemma Tidy.block_behind {c : Block} (h : (block c).Tidy) (hm : .inner env' m ∈ (block c).pieces [])
    (hpos : m.span.Touches pos) : ∀ b ∈ env', b ∈ (block c).enclosing pos := by
  obtain ⟨before, s, after, hstats, hpiece⟩ := Piece.exists_of_mem_ofStats hm
  cases hpiece
  obtain ⟨hchildren, hbefore⟩ := h.stats_before hstats hpos.1
  intro b hb
  rw [foldl_after, List.append_nil, List.mem_reverse] at hb
  rw [enclosing_eq, frame, hchildren, splitAt_append (h.stats_behind hbefore), List.mem_append,
    List.mem_filter, List.flatMap_append]
  refine .inl ⟨List.mem_append_left _ hb, ?_⟩
  simpa using h.locals_named (fun k hk => (hbefore k hk).1) b hb

/-- Where the search to the end of a name does not go on, what the traversal gains is visible there
or has been dropped. -/
lemma Tidy.env_behind (h : n.Tidy) (hm : .inner env' m ∈ n.pieces [])
    (hid : identifier id ∈ m.preorder) (hfree : ∀ b ∈ m.declared, b.id ≠ id)
    (hpos : id.token.span.Touches pos) (hholds : ¬ m.Holds pos) :
    ∀ b ∈ env', (∃ c, n = block c) ∧ b ∈ n.enclosing pos ∨ b ∈ n.dropped pos := by
  have hmtidy := h.child (mem_children_of_inner hm)
  intro b hb
  rcases env_cases hm with rfl | ⟨c, rfl⟩ | ⟨f, rfl⟩ | ⟨c, rfl⟩
    | ⟨keyword, c, close, cond, rfl, rfl, rfl⟩
  · cases hb
  · exact absurd (hmtidy.touches_name hid hpos) hholds
  · exact absurd (hmtidy.holds_funcBody hid hfree hpos) hholds
  · exact .inl ⟨⟨c, rfl⟩, h.block_behind hm (hmtidy.touches_name hid hpos) b hb⟩
  · have hexpr : (ofExpr cond).Tidy := hmtidy
    have hstop : (ofExpr cond).span.stop = pos := by
      have htouches := hexpr.touches_name hid hpos
      refine Nat.le_antisymm (Nat.le_of_not_lt fun hlt => hholds ?_) htouches.2
      exact holds_ofExpr.2 ⟨htouches.1, hlt⟩
    have hspan : (stat (.repeat_ keyword c close cond)).span.stop = pos := by
      rw [h.stop_repeat, hstop]
    rw [Block.atEnd, foldl_after, List.append_nil, List.mem_reverse] at hb
    rw [dropped, if_pos hspan, block_children]
    exact .inr hb

/-- A name that is neither declared nor a label stands in a smaller node, or is the node. -/
lemma exists_inner (hid : identifier id ∈ n.preorder)
    (hfree : ∀ b ∈ n.preorder.flatMap declared, b.id ≠ id)
    (hlabel : id ∉ n.preorder.flatMap labels) :
    n = identifier id ∨ ∃ env' m, .inner env' m ∈ n.pieces [] ∧ identifier id ∈ m.preorder := by
  rcases mem_preorder_cases hid with heq | ⟨m, hm, hid⟩
  · exact .inl heq.symm
  rcases pieces_cases [] hm with ⟨env', hinner⟩ | ⟨b, hb, rfl⟩ | ⟨id', hid', rfl⟩
  · exact .inr ⟨env', m, hinner, hid⟩
  · rw [preorder_identifier, List.mem_singleton] at hid
    cases hid
    exact absurd rfl (hfree b (mem_gathered (declares_mem_iff.1 hb)))
  · rw [preorder_identifier, List.mem_singleton] at hid
    cases hid
    exact absurd (mem_gathered (label_mem_iff.1 hid')) hlabel

/-- **What is visible at the start of a name is visible at its end**, but for what has been
dropped there. Nothing else is visible in a node that does not hold the end of the name. -/
lemma Tidy.visible_behind (h : n.Tidy) (hid : identifier id ∈ n.preorder)
    (hfree : ∀ b ∈ n.preorder.flatMap declared, b.id ≠ id)
    (hlabel : id ∉ n.preorder.flatMap labels) :
    ∀ b ∈ n.enclosing id.token.span.start,
      b ∈ n.preorder.flatMap (dropped id.token.span.stop)
        ∨ n.Holds id.token.span.stop ∧ b ∈ n.enclosing id.token.span.stop := by
  induction n using Node.induction with
  | step n ih =>
    rcases exists_inner hid hfree hlabel with rfl | ⟨env', m, hpiece, hmid⟩
    · simp [enclosing_identifier]
    have hm := mem_children_of_inner hpiece
    have hmtidy := h.child hm
    have hwidth := h.width _ (mem_tokens_of_child hm (mem_tokens_of_mem_preorder hmid))
    have hpos : id.token.span.Touches id.token.span.stop := ⟨Nat.le_of_lt hwidth, Nat.le_refl _⟩
    have hown : ∀ b ∈ n.declared, b.id ≠ id := fun b hb => hfree b (mem_gathered hb)
    have hmown : ∀ b ∈ m.declared, b.id ≠ id := fun b hb =>
      hfree b (mem_gathered_of_child hm (mem_gathered hb))
    obtain ⟨frame, henclosing, hframe⟩ := h.leads hpiece hmid (hmtidy.holds_start hmid hmown)
    have hbelow := ih m hm hmtidy hmid (fun b hb => hfree b (mem_gathered_of_child hm hb))
      (fun hb => hlabel (mem_gathered_of_child hm hb))
    intro b hb
    rw [henclosing, List.mem_append] at hb
    by_cases hholds : m.Holds id.token.span.stop
    -- Both searches go on into the smaller node, with the same frame.
    · obtain ⟨frame', henclosing', hframe'⟩ := h.leads hpiece hmid hholds
      have heq : frame' = frame := by simpa [hframe] using hframe'.symm
      have hn := h.holds_of_child hm hmid hown hpos hholds
      rw [henclosing', heq, List.mem_append]
      rcases hb with hb | hb
      · exact .inr ⟨hn, .inl hb⟩
      · exact (hbelow b hb).imp (mem_gathered_of_child hm) fun hb => ⟨hn, .inr hb.2⟩
    -- The search for the end turns back here, so that only the frame of a block can be left.
    · rcases hb with hb | hb
      · have hb : b ∈ env' := by simpa [hframe] using hb
        rcases h.env_behind hpiece hmid hmown hpos hholds b hb with ⟨⟨c, rfl⟩, hb⟩ | hb
        · exact .inr ⟨h.touches_name hid hpos, hb⟩
        · exact .inl (mem_gathered hb)
      · exact (hbelow b hb).imp (mem_gathered_of_child hm) fun hb => absurd hb.1 hholds

end Node

end LuaFront
