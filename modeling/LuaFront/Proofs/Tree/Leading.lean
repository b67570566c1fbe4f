import LuaFront.Proofs.Tree.Parts
import LuaFront.Proofs.Tree.Marks

/-!
The leftmost token of a node. The first token of a node is that of its first part, and so it is the
leftmost one unless recovery left the first operand of the node, or of one that it begins with,
without tokens.
-/

namespace LuaFront

lemma Separated.parts_of_first {α : Type} {l : Separated α} {first : α} (node : α → Node)
    (h : l.items.head? = some first) : ∃ rest, l.parts node = .node (node first) :: rest := by
  obtain ⟨_ | ⟨⟨item, delimiter⟩, pairs⟩, anchor⟩ := l
  · cases h
  · obtain rfl : item = first := Option.some.inj h
    exact ⟨_, rfl⟩

namespace Node

/-- The node begins with a token. -/
inductive Led : Node → Prop
  | token {n : Node} {t : Token} {rest : List Part} : n.parts = .token t :: rest → Led n
  | node {n m : Node} {rest : List Part} : n.parts = .node m :: rest → m.Led → Led n

/-- What the node should begin with is missing, although the node goes on after it. -/
inductive Headless : Node → Prop
  | missing {n m : Node} {rest : List Part} :
    n.parts = .node m :: rest → m.tokens = [] → n.skipped = [] → n.tokens ≠ [] → Headless n
  | first {n m : Node} {rest : List Part} : n.parts = .node m :: rest → m.Headless → Headless n

variable {n m : Node} {t : Token} {rest : List Part}

/-! ### First tokens -/

lemma firstToken?_of_token (h : n.parts = .token t :: rest) : n.firstToken? = some t := by
  rw [firstToken?_eq, h]
  rfl

lemma firstToken?_of_node (h : n.parts = .node m :: rest) :
    n.firstToken? = m.firstToken?.or n.skipped.head? := by
  rw [firstToken?_eq, h]
  rfl

lemma tokens_of_token (h : n.parts = .token t :: rest) :
    n.tokens = t :: rest.flatMap Part.tokens := by
  rw [tokens_eq, h]
  rfl

lemma tokens_of_node (h : n.parts = .node m :: rest) :
    n.tokens = m.tokens ++ rest.flatMap Part.tokens := by
  rw [tokens_eq, h]
  rfl

/-- Tokens that an invalid node skipped come after what it keeps. -/
lemma rest_of_skipped (hskipped : n.skipped ≠ []) (h : n.parts = .node m :: rest) :
    rest = n.skipped.map .token := by
  have hinvalid : ∀ (kept : Option Expr) (tokens : List Token), tokens ≠ [] →
      kept.toList.map (fun e => Part.node (ofExpr e)) ++ tokens.map .token = .node m :: rest →
      rest = tokens.map .token := by
    rintro (_ | e) tokens hne heq
    · obtain ⟨t, tokens, rfl⟩ := List.exists_cons_of_ne_nil hne
      cases heq
    · exact (List.cons.inj heq).2.symm
  cases n with
  | stat s =>
    cases s with
    | invalid kept tokens anchor => exact hinvalid kept tokens hskipped h
    | _ => exact absurd rfl hskipped
  | expr e =>
    cases e with
    | invalid kept tokens anchor => exact hinvalid kept tokens hskipped h
    | _ => exact absurd rfl hskipped
  | _ => exact absurd rfl hskipped

lemma firstToken?_mem (n : Node) : ∀ t ∈ n.firstToken?, t ∈ n.tokens := by
  intro t ht
  rcases hparts : n.parts with _ | ⟨first | m, rest⟩
  · rw [firstToken?_eq, hparts] at ht
    cases ht
  · rw [firstToken?_of_token hparts] at ht
    rw [tokens_of_token hparts]
    simp_all
  · rw [firstToken?_of_node hparts, Option.mem_def, Option.or_eq_some_iff] at ht
    rw [tokens_of_node hparts, List.mem_append]
    rcases ht with ht | ⟨-, ht⟩
    · exact .inl (firstToken?_mem m t ht)
    · have hskipped := List.mem_of_mem_head? ht
      rw [rest_of_skipped (List.ne_nil_of_mem hskipped) hparts]
      exact .inr (List.mem_flatMap.2 ⟨_, List.mem_map_of_mem hskipped, List.mem_singleton_self t⟩)
termination_by sizeOf n
decreasing_by exact sizeOf_lt_of_mem_parts (hparts ▸ List.mem_cons_self)

/-- A node that is not headless leaves no token before its first one. -/
lemma firstToken?_of_not_headless (n : Node) (h : ¬ n.Headless) :
    n.firstToken? = n.tokens.head? := by
  rcases hparts : n.parts with _ | ⟨t | m, rest⟩
  · rw [firstToken?_eq, tokens_eq, hparts]
    rfl
  · rw [firstToken?_of_token hparts, tokens_of_token hparts]
    rfl
  · have ih := firstToken?_of_not_headless m fun hm => h (.first hparts hm)
    rw [firstToken?_of_node hparts, ih, tokens_of_node hparts, List.head?_append]
    -- Where the first part has no tokens, those that were skipped come first, or there are none.
    rcases hm : m.tokens with _ | ⟨t, tokens⟩
    · by_cases hskipped : n.skipped = []
      · have hnone : n.tokens = [] :=
          Classical.byContradiction fun hne => h (.missing hparts hm hskipped hne)
        rw [tokens_of_node hparts, hm, List.nil_append] at hnone
        rw [hskipped, hnone]
      · rw [rest_of_skipped hskipped hparts, List.flatMap_map]
        simp [Part.tokens, List.flatMap_singleton']
    · rfl
termination_by sizeOf n
decreasing_by exact sizeOf_lt_of_mem_parts (hparts ▸ List.mem_cons_self)

/-- Without a head, a node has no first token, or else the first that was skipped in it. -/
lemma firstToken?_of_headless (h : n.Headless) :
    n.firstToken? = none ∨ ∃ m ∈ n.preorder, m.Headless ∧ m.skipped ≠ []
      ∧ n.firstToken? = m.skipped.head? := by
  induction h with
  | missing hparts hm hskipped _ =>
    refine .inl ?_
    rw [firstToken?_of_node hparts, hskipped, List.head?_nil, Option.or_none]
    exact Option.eq_none_iff_forall_not_mem.2 fun t ht => by
      simpa [hm] using firstToken?_mem _ t ht
  | @first n m rest hparts hm ih =>
    have hchild : m ∈ n.children := mem_children.2 (hparts ▸ List.mem_cons_self)
    rw [firstToken?_of_node hparts]
    rcases ih with hnone | ⟨k, hk, hheadless, hskipped, heq⟩
    · rw [hnone, Option.none_or]
      by_cases hskipped : n.skipped = []
      · exact .inl (by rw [hskipped]; rfl)
      · exact .inr ⟨n, n.self_mem_preorder, .first hparts hm, hskipped, rfl⟩
    · refine .inr ⟨k, mem_preorder_of_mem_children hchild hk, hheadless, hskipped, ?_⟩
      obtain ⟨t, tokens, hcons⟩ := List.exists_cons_of_ne_nil hskipped
      rw [heq, hcons]
      rfl

/-! ### Nodes that begin with a token -/

namespace Led

lemma tokens_ne_nil (h : n.Led) : n.tokens ≠ [] := by
  induction h with
  | token hparts =>
    rw [tokens_of_token hparts]
    exact List.cons_ne_nil _ _
  | node hparts _ ih =>
    rw [tokens_of_node hparts]
    exact fun hnil => ih (List.append_eq_nil_iff.1 hnil).1

lemma not_headless (h : n.Led) : ¬ n.Headless := by
  induction h with
  | token hparts => rintro (⟨hother, -⟩ | ⟨hother, -⟩) <;> cases hparts.symm.trans hother
  | node hparts hm ih =>
    rintro (⟨hother, hnil, -⟩ | ⟨hother, hheadless⟩) <;> cases hparts.symm.trans hother
    · exact hm.tokens_ne_nil hnil
    · exact ih hheadless

end Led

end Node

end LuaFront
