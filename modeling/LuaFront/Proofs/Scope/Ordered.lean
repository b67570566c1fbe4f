import LuaFront.Proofs.Scope.Frames
import LuaFront.Proofs.Scope.Visible
import LuaFront.Proofs.Traversal.Locate

/-!
Bindings in the order of the text. The names that declare the bindings around an offset are tokens
of the tree, in its order, whether the text has errors or not. They end before the offset, but for
the name of a local function: the search takes the function for visible from its first token on.
-/

namespace LuaFront

/-- The declared names among the parameters are nodes among them. -/
lemma FuncBody.declared_sublist (f : FuncBody) :
    (f.declared.map fun b => Node.identifier b.id).Sublist (f.params.items.map Node.ofParam) := by
  rw [declared]
  induction f.params.items with
  | nil => exact List.Sublist.refl _
  | cons p rest ih =>
    cases p with
    | name id => exact ih.cons_cons _
    | vararg dots => exact ih.cons _

namespace Node

variable {n m : Node} {pos : Offset} {b : Binding} {s : Stat}

/-! ### The way of the search -/

lemma splitAt_front (pos : Offset) (ns : List Node) :
    (splitAt pos ns).1 ++ (splitAt pos ns).2.toList <+: ns := by
  induction ns with
  | nil => exact List.prefix_refl _
  | cons n ns ih =>
    rw [splitAt]
    split
    · exact ⟨ns, rfl⟩
    split
    · exact List.nil_prefix
    · exact List.cons_prefix_cons.2 ⟨rfl, ih⟩

lemma inward_sublist (pos : Offset) (n : Node) : (n.inward pos).Sublist n.children := by
  have hsingle : ∀ k, n.inward pos = [k] → (n.inward pos).Sublist n.children := by
    intro k hk
    rw [hk]
    exact List.singleton_sublist.2 (mem_children_of_mem_inward (hk ▸ List.mem_singleton_self k))
  have hoption : ∀ k : Option Node, n.inward pos = k.toList →
      (n.inward pos).Sublist n.children := by
    rintro (_ | k) hk
    · rw [hk]
      exact List.nil_sublist _
    · exact hsingle k hk
  have hinward : n.inward pos = n.inward pos := rfl
  conv at hinward => rhs; unfold inward
  split at hinward
  case h_4 keyword c close cond =>
    split at hinward
    · rw [hinward]
      refine (List.Sublist.cons_cons _ ?_).trans
        (show [block c, ofExpr cond].Sublist _ by simp [children, parts, Stat.parts])
      split
      · exact List.Sublist.refl _
      · exact List.nil_sublist _
    · exact hoption _ hinward
  all_goals try split at hinward
  all_goals first | exact hoption _ hinward | exact hoption none hinward | exact hsingle _ hinward

/-! ### Names among the tokens -/

@[simp] lemma tokens_identifier (id : Identifier) : (identifier id).tokens = [id.token] := by
  simp [tokens_eq, parts, Part.tokens]

lemma tokens_names (bs : List Binding) :
    (bs.map fun b => identifier b.id).flatMap tokens = bs.map (·.id.token) := by
  simp [List.flatMap_map, ← List.map_eq_flatMap]

lemma locals_sublist (n : Node) : (n.locals.map (·.id.token)).Sublist n.tokens := by
  rw [← tokens_names]
  refine List.Sublist.trans (List.Sublist.flatMap ?_ _) n.tokens_children_sublist
  unfold locals
  split
  · simp [children, parts, Stat.parts, Stat.declared, Function.comp_def, Binding.named]
  · simp [children, parts, Stat.parts, Stat.declared, Binding.named]
  · exact List.nil_sublist _

/-- Outside a block, the declared names that are visible and the nodes in which the search goes on
stand among the children. -/
lemma frame_inward_children (hn : ∀ c, n ≠ block c) (pos : Offset) :
    ((n.frame pos).map (fun b => identifier b.id) ++ n.inward pos).Sublist n.children := by
  have hplain : n.frame pos = [] →
      ((n.frame pos).map (fun b => identifier b.id) ++ n.inward pos).Sublist n.children := by
    intro hframe
    rw [hframe]
    exact inward_sublist pos n
  cases n with
  | block c => exact absurd rfl (hn c)
  | funcBody f =>
    by_cases hin : inside pos f.closing f.close = true
    · rw [frame, if_pos hin, inward, if_pos hin]
      simpa [children, parts, FuncBody.parts, Part.node?, declared] using
        f.declared_sublist.append (List.Sublist.refl [block f.block])
    · exact hplain (if_neg hin)
  | stat s =>
    cases s with
    | numericFor s =>
      by_cases hin : inside pos s.opener s.close = true
      · rw [frame, if_pos hin, inward, if_pos hin]
        simp [children, parts, Stat.parts, NumericFor.parts, declared, Stat.declared,
          Binding.named]
      · exact hplain (if_neg hin)
    | genericFor s =>
      by_cases hin : inside pos s.opener s.close = true
      · rw [frame, if_pos hin, inward, if_pos hin]
        simp [children, parts, Stat.parts, GenericFor.parts, declared, Stat.declared,
          Binding.named, Function.comp_def]
      · exact hplain (if_neg hin)
    | function keyword name method f =>
      by_cases hin : inside pos f.closing f.close = true
      · rw [frame, if_pos hin, inward]
        cases method <;>
          simp [children, parts, Stat.parts, MethodName.parts, Binding.self]
      · exact hplain (if_neg hin)
    | localFunction keyword second name f =>
      simp [frame, inward, children, parts, Stat.parts, declared, Stat.declared, Binding.named]
    | _ => exact hplain rfl
  | _ => exact hplain rfl

/-- The names that a node makes visible, and the nodes in which the search goes on, stand in the
node one after the other. -/
lemma frame_inward_sublist (pos : Offset) (n : Node) :
    ((n.frame pos).map (·.id.token) ++ (n.inward pos).flatMap tokens).Sublist n.tokens := by
  refine List.Sublist.trans ?_ n.tokens_children_sublist
  by_cases hn : ∃ c, n = block c
  · obtain ⟨c, rfl⟩ := hn
    have hsplit := (splitAt_front pos (block c).children).sublist.flatMap tokens
    rw [List.flatMap_append] at hsplit
    refine List.Sublist.trans (List.Sublist.append ?_ (List.Sublist.refl _)) hsplit
    rw [frame, List.map_flatMap]
    exact List.Sublist.flatMap_right _ fun k _ => locals_sublist k
  · have hchildren := frame_inward_children (fun c hc => hn ⟨c, hc⟩) pos
    rw [← tokens_names, ← List.flatMap_append]
    exact hchildren.flatMap tokens

/-- The names that declare the bindings around an offset are tokens of the tree, in its order. -/
theorem enclosing_sublist (pos : Offset) (n : Node) :
    ((n.enclosing pos).map (·.id.token)).Sublist n.tokens := by
  induction n using Node.induction with
  | step n ih =>
    refine List.Sublist.trans ?_ (frame_inward_sublist pos n)
    rw [enclosing_eq, List.map_append]
    refine (List.filter_sublist.map _).append ?_
    rw [List.map_flatMap]
    exact List.Sublist.flatMap_right _ fun m hm => ih m (mem_children_of_mem_inward hm)

theorem InOrder.enclosing_ordered (h : n.InOrder) (pos : Offset) :
    (n.enclosing pos).Pairwise fun b c => b.id.token.span.stop ≤ c.id.token.span.start :=
  List.pairwise_map.1 (h.tokens_ordered.sublist (enclosing_sublist pos n))

/-! ### What ends before an offset -/

lemma start_le_of_reaches {limit : Offset} (h : n.reaches pos limit = true) :
    n.span.start ≤ pos := by
  simp only [reaches, Bool.or_eq_true, Bool.and_eq_true, decide_eq_true_eq] at h
  rcases h with h | ⟨⟨hstart, -⟩, -⟩
  · unfold Span.contains at h
    split at h
    · exact Nat.le_of_eq (of_decide_eq_true h).symm
    · exact of_decide_eq_true (Bool.and_eq_true_iff.1 h).1
  · exact hstart

lemma start_le_of_splitAt {ns : List Node} (h : (splitAt pos ns).2 = some m) :
    m.span.start ≤ pos := by
  induction ns with
  | nil => cases h
  | cons n ns ih =>
    rw [splitAt] at h
    split at h
    · next hreaches =>
      cases h
      exact start_le_of_reaches hreaches
    split at h
    · cases h
    · exact ih h

lemma stop_le_of_splitAt {ns : List Node} (h : m ∈ (splitAt pos ns).1) : m.span.stop ≤ pos := by
  induction ns with
  | nil => cases h
  | cons n ns ih =>
    rw [splitAt] at h
    split at h
    · cases h
    split at h
    · cases h
    · next hlt =>
      rcases List.mem_cons.1 h with rfl | h
      · exact Nat.le_of_not_lt hlt
      · exact ih h

@[grind .] lemma ofExpr_ne_stat (e : Expr) : ofExpr e ≠ stat s := by
  cases e <;> simp [ofExpr]

@[grind .] lemma ofParam_ne_stat (p : Param) : ofParam p ≠ stat s := by
  cases p <;> simp [ofParam]

/-- Only a block is made of statements. -/
lemma exists_block_of_stat (h : stat s ∈ n.children) : ∃ c, n = block c := by
  have hpart := mem_children.1 h
  cases n with
  | block c => exact ⟨c, rfl⟩
  | stat s =>
    cases s <;> simp [parts, Stat.parts, MethodName.parts, IfStat.parts, NumericFor.parts,
      Step.parts, GenericFor.parts] at hpart <;> grind
  | expr e =>
    have hargs : ∀ args : CallArgs, .node (stat s) ∉ args.parts := by
      intro args hargs
      cases args <;> simp [CallArgs.parts] at hargs
      grind
    cases e <;> simp [parts, Expr.parts, Table.parts] at hpart <;> grind
  | tableField f => cases f <;> simp [parts, TableField.parts] at hpart <;> grind
  | _ => simp [parts, Table.parts, FuncBody.parts] at hpart <;> grind

/-- The search comes to a statement only if it has begun. -/
lemma start_le_of_inward (h : stat s ∈ n.inward pos) : (stat s).span.start ≤ pos := by
  obtain ⟨c, rfl⟩ := exists_block_of_stat (mem_children_of_mem_inward h)
  exact start_le_of_splitAt (Option.mem_toList.1 h)

/-- A token ends before what comes after a later token of the node. -/
lemma InOrder.stop_le_of_front (h : n.InOrder) {front back : List Part} {p q : Part} {t u : Token}
    (hparts : n.parts = front ++ q :: back) (hp : p ∈ front) (ht : t ∈ p.tokens)
    (hu : u ∈ q.tokens) (hpos : u.span.stop ≤ pos) : t.span.stop ≤ pos := by
  have htokens : [t, u].Sublist n.tokens := by
    rw [tokens_eq, hparts, List.flatMap_append, List.flatMap_cons]
    have ht : t ∈ front.flatMap Part.tokens := List.mem_flatMap.2 ⟨p, hp, ht⟩
    have hu : u ∈ q.tokens ++ back.flatMap Part.tokens := List.mem_append_left _ hu
    exact (List.singleton_sublist.2 ht).append (List.singleton_sublist.2 hu)
  have hle : t.span.stop ≤ u.span.start :=
    List.pairwise_iff_forall_sublist.1 h.tokens_ordered htokens
  obtain ⟨size, hspanned⟩ := h.spanned
  have hwidth := (hspanned.tokens u (htokens.subset (by simp))).2.1
  exact Nat.le_trans hle (Nat.le_trans hwidth hpos)

lemma stop_le_of_inside {opening closing : Token} (h : inside pos opening closing = true) :
    opening.span.stop ≤ pos := of_decide_eq_true (Bool.and_eq_true_iff.1 h).1

/-- What a node makes visible has been declared by then. -/
lemma InOrder.frame_behind (h : n.InOrder) (hstat : ∀ s, n = stat s → n.span.start ≤ pos)
    (hb : b ∈ n.frame pos) :
    b.id.token.span.stop ≤ pos ∨ b.kind = .localFunction ∧ b.decl.span.start ≤ pos := by
  have hname : b.id.token ∈ (Part.node (identifier b.id)).tokens := by simp [Part.tokens]
  unfold frame at hb
  split at hb
  case h_1 c =>
    obtain ⟨k, hk, hb⟩ := List.mem_flatMap.1 hb
    obtain ⟨size, hspanned⟩ := (h.child (mem_of_mem_splitAt hk)).spanned
    have htoken : b.id.token ∈ k.tokens := (locals_sublist k).subset (List.mem_map_of_mem hb)
    exact .inl (Nat.le_trans (hspanned.tokens _ htoken).2.2 (stop_le_of_splitAt hk))
  case h_2 s =>
    split at hb
    case isFalse => cases hb
    case isTrue hin =>
      have hparts : (stat (.numericFor s)).parts
          = s.front ++ Part.token s.opener :: [.node (.block s.block), .token s.close] := by
        simp [parts, Stat.parts, NumericFor.parts, NumericFor.front]
      refine .inl (h.stop_le_of_front hparts ?_ hname (by simp [Part.tokens])
        (stop_le_of_inside hin))
      obtain rfl := List.mem_singleton.1 hb
      simp [NumericFor.front, Binding.named]
  case h_3 s =>
    split at hb
    case isFalse => cases hb
    case isTrue hin =>
      have hparts : (stat (.genericFor s)).parts
          = s.front ++ Part.token s.opener :: [.node (.block s.block), .token s.close] := by
        simp [parts, Stat.parts, GenericFor.parts, GenericFor.front]
      refine .inl (h.stop_le_of_front hparts ?_ hname (by simp [Part.tokens])
        (stop_le_of_inside hin))
      obtain ⟨id, hid, rfl⟩ := List.mem_map.1 hb
      simp [GenericFor.front, Binding.named, hid]
  case h_4 keyword name method f =>
    split at hb
    case isFalse => cases hb
    case isTrue hin =>
      obtain ⟨m, hm, rfl⟩ := List.mem_map.1 hb
      have hclosing : f.closing ∈ (Part.node (funcBody f)).tokens :=
        mem_tokens_of_part (by simp [parts, FuncBody.parts])
      have hparts : (stat (.function keyword name method f)).parts
          = ([.token keyword, .node (ofExpr name)] ++ method.toList.flatMap MethodName.parts)
            ++ Part.node (funcBody f) :: [] := rfl
      refine .inl (h.stop_le_of_front hparts ?_ hname hclosing (stop_le_of_inside hin))
      simp [Option.mem_toList.1 hm, MethodName.parts, Binding.self]
  case h_5 keyword second name f =>
    obtain rfl := List.mem_singleton.1 hb
    have hspan : (stat (.localFunction keyword second name f)).span.start = keyword.span.start :=
      start_eq_of_head? (by simp [marks_eq, parts, Stat.parts, Part.marks])
    exact .inr ⟨rfl, hspan ▸ hstat _ rfl⟩
  case h_6 f =>
    split at hb
    case isFalse => cases hb
    case isTrue hin =>
      have hparts : (funcBody f).parts = (.token f.opening :: f.params.parts ofParam)
          ++ Part.token f.closing :: [.node (.block f.block), .token f.close] := rfl
      refine .inl (h.stop_le_of_front hparts ?_ hname (by simp [Part.tokens])
        (stop_le_of_inside hin))
      obtain ⟨p, hp, hdeclared⟩ := List.mem_filterMap.1 hb
      cases p <;> cases hdeclared
      simpa [Binding.named] using ⟨_, hp, rfl⟩
  case h_7 => cases hb

/-- **What is visible has been declared by then.** -/
lemma InOrder.enclosing_behind (h : n.InOrder) (hstat : ∀ s, n = stat s → n.span.start ≤ pos)
    (hb : b ∈ n.enclosing pos) :
    b.id.token.span.stop ≤ pos ∨ b.kind = .localFunction ∧ b.decl.span.start ≤ pos := by
  induction n using Node.induction with
  | step n ih =>
    rw [enclosing_eq, List.mem_append, List.mem_filter, List.mem_flatMap] at hb
    rcases hb with ⟨hb, -⟩ | ⟨m, hm, hb⟩
    · exact h.frame_behind hstat hb
    · have hchild := mem_children_of_mem_inward hm
      refine ih m hchild (h.child hchild) ?_ hb
      rintro s rfl
      exact start_le_of_inward hm

end Node

namespace Parsed

open Node

/-- **Nothing is visible before it is declared**, in any text, broken or not: the declaring name
ends at the offset or before it. The name of a local function is the exception; it is visible as
soon as the keyword that begins its declaration. -/
theorem declared_before (source : String) {pos : Offset} {b : Binding}
    (h : b ∈ (ofSource source).block.visible pos) :
    b.id.token.span.stop ≤ pos ∨ b.kind = .localFunction ∧ b.decl.span.start ≤ pos := by
  refine (root_inOrder source).enclosing_behind ?_ (Binding.mem_of_mem_distinct h)
  rintro s ⟨⟩

theorem declared_before_unclosed :
    let b : Binding := .named .parameter
      ⟨.ident, "a", ⟨11, 12⟩, []⟩ ⟨.ident, "a", ⟨11, 12⟩, []⟩
    b ∈ (ofSource "function f(a) return ").block.visible 21
      ∧ (b.id.token.span.stop ≤ 21 ∨ b.kind = .localFunction ∧ b.decl.span.start ≤ 21) := by
  intro b
  have h : b ∈ (ofSource "function f(a) return ").block.visible 21 := by decide +kernel
  exact ⟨h, declared_before "function f(a) return " h⟩

/-- At the keyword of a local function its name is visible, though it is still to come. -/
theorem visible_before_name :
    ∃ b ∈ (ofSource "local function f() end").block.visible 0,
      ¬ b.id.token.span.stop ≤ 0 := by
  decide +kernel

end Parsed

end LuaFront
