import LuaFront.Proofs.Chunk.Lossless
import LuaFront.Proofs.Traversal.Locate
import LuaFront.Proofs.Tree.Parts
import Mathlib.Data.List.Perm.Basic

/-!
Names, literals and dots are the leaves of a tree. A walk that skips nothing meets each token of
such a kind at a leaf, unless an invalid node keeps it.
-/

namespace LuaFront

/-- The kinds of token that make a leaf: names, numbers, strings, the words for nothing and for
truth, and dots. -/
def TokenKind.isLeaf : TokenKind → Bool
  | ident | number | string | symbol .dotDotDot => true
  | keyword .nil_ | keyword .true_ | keyword .false_ => true
  | _ => false

/-- The token of a leaf. -/
def Node.leafToken? : Node → Option Token
  | identifier id => some id.token
  | literal lit => some lit.token
  | vararg dots => some dots.token
  | _ => none

/-! ### The tokens of other nodes -/

section NotLeaf

variable {t : Token}

lemma TokenKind.isLeaf_unary {kind : TokenKind} {op : UnaryOp} (h : kind.unaryOp? = some op) :
    kind.isLeaf = false := by
  unfold unaryOp? at h
  split at h <;> first | rfl | cases h

lemma TokenKind.isLeaf_binary {kind : TokenKind} {op : BinaryOp} (h : kind.binaryOp? = some op) :
    kind.isLeaf = false := by
  unfold binaryOp? at h
  split at h <;> first | rfl | cases h

lemma Separated.Joined.not_leaf {α : Type} {l : Separated α} {node : α → Node}
    (h : l.Joined (· = .symbol .comma)) (ht : .token t ∈ l.parts node) : t.kind.isLeaf = false := by
  rw [h.kind_of_part ht]
  rfl

lemma Table.Form.not_leaf {tab : Table} (h : tab.Form) (ht : .token t ∈ tab.parts) :
    t.kind.isLeaf = false := by
  simp only [Table.parts, List.cons_append, List.mem_cons, List.mem_append, Part.token.injEq,
    List.not_mem_nil, or_false] at ht
  rcases ht with rfl | ht | rfl
  · rw [h.opening]
    rfl
  · rcases h.fields.kind_of_part ht with hkind | hkind <;> rw [hkind] <;> rfl
  · rw [h.closing]
    rfl

lemma CallArgs.Form.not_leaf {args : CallArgs} (h : args.Form) (ht : .token t ∈ args.parts) :
    t.kind.isLeaf = false := by
  cases args with
  | paren opening args closing =>
    obtain ⟨hopening, hargs, hclosing⟩ := h
    simp only [CallArgs.parts, List.cons_append, List.mem_cons, List.mem_append, Part.token.injEq,
      List.not_mem_nil, or_false] at ht
    rcases ht with rfl | ht | rfl
    · rw [hopening]
      rfl
    · exact hargs.1.not_leaf ht
    · rw [hclosing]
      rfl
  | table | string => simp [CallArgs.parts] at ht

lemma FuncBody.Form.not_leaf {f : FuncBody} (h : f.Form) (ht : .token t ∈ f.parts) :
    t.kind.isLeaf = false := by
  have hparams : .token t ∈ f.params.parts Node.ofParam → t.kind.isLeaf = false :=
    h.params.not_leaf
  obtain ⟨hopening, -, -, hclosing, hclose⟩ := h
  simp only [FuncBody.parts, List.cons_append, List.mem_cons, List.mem_append, Part.token.injEq,
    reduceCtorEq, false_or, List.not_mem_nil, or_false] at ht
  grind [TokenKind.isLeaf]

lemma Expr.Form.not_leaf {e : Expr} (h : e.Form) (hproper : Node.ofExpr e = .expr e)
    (ht : .token t ∈ e.parts) : t ∈ (Node.expr e).skipped ∨ t.kind.isLeaf = false := by
  cases e with
  | literal | vararg | name | table => cases hproper
  | invalid => exact .inl (by simpa [Expr.parts, Node.skipped] using ht)
  | unary op sign operand =>
    obtain rfl : t = sign := by simpa [Expr.parts] using ht
    exact .inr (TokenKind.isLeaf_unary h)
  | binary lhs op sign rhs =>
    obtain rfl : t = sign := by simpa [Expr.parts] using ht
    exact .inr (TokenKind.isLeaf_binary h)
  | call callee args => exact .inr (CallArgs.Form.not_leaf h (by simpa [Expr.parts] using ht))
  | methodCall receiver colon name args =>
    obtain rfl | hargs : t = colon ∨ .token t ∈ args.parts := by simpa [Expr.parts] using ht
    · exact .inr (by rw [h.1]; rfl)
    · exact .inr (h.2.not_leaf hargs)
  | function | paren | field | index =>
    simp only [Expr.Form] at h
    simp [Expr.parts] at ht
    grind [TokenKind.isLeaf]

lemma TableField.Form.not_leaf {f : TableField} (h : f.Form) (ht : .token t ∈ f.parts) :
    t.kind.isLeaf = false := by
  cases f <;> simp [TableField.parts] at ht <;> simp only [TableField.Form] at h <;>
    grind [TokenKind.isLeaf]

lemma Stat.Form.not_leaf {s : Stat} (h : s.Form) (ht : .token t ∈ s.parts) :
    t ∈ (Node.stat s).skipped ∨ t.kind.isLeaf = false := by
  have hnames := @Separated.Joined.not_leaf t Identifier
  have hexprs := @Separated.Joined.not_leaf t Expr
  cases s with
  | invalid => exact .inl (by simpa [Stat.parts, Node.skipped] using ht)
  | if_ s =>
    obtain ⟨hkeyword, hopener, hclose⟩ := h
    simp [Stat.parts, IfStat.parts] at ht
    grind [TokenKind.isLeaf]
  | numericFor s =>
    obtain ⟨hkeyword, heq, hcomma, hstep, hopener, hclose⟩ := h
    simp [Stat.parts, NumericFor.parts, Step.parts] at ht
    grind [TokenKind.isLeaf]
  | genericFor s =>
    obtain ⟨hkeyword, hlist, hin, hvalues, hopener, hclose⟩ := h
    simp [Stat.parts, GenericFor.parts] at ht
    grind [TokenKind.isLeaf, Separated.Listed]
  | call => simp [Stat.parts] at ht
  | _ =>
    simp [Stat.parts, MethodName.parts] at ht
    simp only [Stat.Form] at h
    grind [TokenKind.isLeaf, Separated.Listed, Separated.Commas]

end NotLeaf

namespace Node

variable {n : Node} {t : Token}

/-- A token of the kind of a leaf belongs to a leaf, or was skipped. -/
lemma leaf_of_part (hform : n.Form) (hproper : n.Proper) (ht : .token t ∈ n.parts)
    (hkind : t.kind.isLeaf = true) : n.leafToken? = some t ∨ t ∈ n.skipped := by
  have hleaf : t.kind.isLeaf ≠ false := by simp [hkind]
  cases n with
  | identifier | literal | vararg =>
    simp only [parts, List.mem_singleton, Part.token.injEq] at ht
    exact .inl (congrArg some ht.symm)
  | block => simp [parts] at ht
  | stat s => exact .inr ((Stat.Form.not_leaf hform ht).resolve_right hleaf)
  | expr e => exact .inr ((Expr.Form.not_leaf hform (hproper e rfl) ht).resolve_right hleaf)
  | funcBody => exact absurd (FuncBody.Form.not_leaf hform ht) hleaf
  | tableField => exact absurd (TableField.Form.not_leaf hform ht) hleaf
  | table => exact absurd (Table.Form.not_leaf hform ht) hleaf
  | elseIf | else_ =>
    simp only [Node.Form] at hform
    simp [parts] at ht
    grind [TokenKind.isLeaf]

/-- The token of a leaf is all there is of it. -/
lemma parts_of_leaf (h : n.leafToken? = some t) : n.parts = [.token t] ∧ n.skipped = [] := by
  cases n <;> cases h <;> exact ⟨rfl, rfl⟩

lemma isLeaf_of_leaf (hform : n.Form) (h : n.leafToken? = some t) : t.kind.isLeaf = true := by
  cases n with
  | identifier | vararg =>
    cases h
    rw [hform]
    rfl
  | literal lit =>
    cases h
    rw [hform]
    cases lit.kind <;> rfl
  | _ => cases h

lemma mem_parts_of_skipped (h : t ∈ n.skipped) : .token t ∈ n.parts := by
  unfold skipped at h
  split at h
  · simpa [parts, Stat.parts] using h
  · simpa [parts, Expr.parts] using h
  · cases h

end Node

namespace Parsed

open Node

namespace Outcome

variable {source : String} {read : List Token} {eof : Token} {s : ParseState}

/-- The tokens of a text follow each other. -/
lemma read_ordered (h : Outcome source read eof s) :
    read.Pairwise fun t u => t.span.stop ≤ u.span.start := by
  obtain ⟨stop, hlaid, -⟩ := h.splits.laid
  simpa [List.filterMap_map, Function.comp_def, Mark.token?] using hlaid.tokens_ordered

lemma root_form (h : Outcome source read eof s) : (ofSource source).root.All Node.Form :=
  all_iff.2 ⟨trivial, fun _ hm => h.reached.form _ (mem_children.1 hm)⟩

lemma root_proper {n : Node} (hn : n ∈ (ofSource source).root.preorder) : n.Proper := by
  have hblock : (ofSource source).root.Proper := proper_of_not_expr fun e => by simp [root]
  generalize (ofSource source).root = root at hn hblock
  induction root using Node.induction with
  | step root ih =>
    rcases mem_preorder_cases hn with rfl | ⟨c, hc, hn⟩
    · exact hblock
    · exact ih c hc hn (proper_child hc)

/-- The leaves of a tree are the tokens of their kinds that were not skipped. -/
lemma mem_leaves_iff (h : Outcome source read eof s) {t : Token} (ht : t ∈ read) :
    t ∈ (ofSource source).root.preorder.filterMap leafToken? ↔
      t.kind.isLeaf = true ∧ t ∉ (ofSource source).root.preorder.flatMap skipped := by
  constructor
  · intro hleaf
    obtain ⟨n, hn, hleaf⟩ := List.mem_filterMap.1 hleaf
    obtain ⟨hparts, hnone⟩ := parts_of_leaf hleaf
    refine ⟨isLeaf_of_leaf (h.root_form n hn) hleaf, fun hraw => ?_⟩
    obtain ⟨m, hm, hskipped⟩ := List.mem_flatMap.1 hraw
    have hown := mem_parts_of_skipped hskipped
    obtain rfl := (root_inOrder source).eq_of_own hn hm (by simp [hparts]) hown
      (h.splits.width t ht)
    simp [hnone] at hskipped
  · rintro ⟨hkind, hraw⟩
    have htokens : t ∈ (ofSource source).root.tokens := by
      rw [← h.present_eq] at ht
      exact (List.mem_filter.1 ht).1
    obtain ⟨n, hn, hown⟩ := exists_own htokens
    refine List.mem_filterMap.2 ⟨n, hn, ?_⟩
    refine (leaf_of_part (h.root_form n hn) (root_proper hn) hown hkind).resolve_right fun hs => ?_
    exact hraw (List.mem_flatMap.2 ⟨n, hn, hs⟩)

end Outcome

/-- **A walk meets every leaf**: the names, literals and dots that it visits, without those that
are missing, are the tokens of their kinds in the text, in their order and each once, all but those
that invalid nodes keep. -/
theorem leaves_visited (source : String) :
    let root := (ofSource source).root
    let leaves := (root.visited.filterMap leafToken?).filter (!·.isMissing)
    let raw := root.visited.flatMap skipped
    leaves = (Lexed.ofSource source).tokens.filter (fun t => t.kind.isLeaf && t ∉ raw)
      ∧ leaves.Pairwise (fun t u => t.span.stop ≤ u.span.start) ∧ leaves.Nodup := by
  intro root leaves raw
  obtain ⟨read, eof, s, h⟩ := exists_outcome source
  have hordered := h.read_ordered
  have hnodup : read.Nodup := by
    refine hordered.imp_of_mem fun {t u} ht _ hle heq => ?_
    subst heq
    exact absurd (h.splits.width t ht) (Nat.not_lt.2 hle)
  have hleaves : leaves.Sublist read := by
    have hfound : (root.preorder.filterMap leafToken?).Sublist root.tokens :=
      found_sublist (fun n t ht => (parts_of_leaf ht).1) root
    rw [← visited_eq] at hfound
    exact h.present_eq ▸ hfound.filter _
  have hkinds : (Lexed.ofSource source).tokens.filter (fun t => t.kind.isLeaf && t ∉ raw)
      = read.filter fun t => t.kind.isLeaf && t ∉ raw := by
    simp [h.splits.tokens, h.splits.eof_kind, TokenKind.isLeaf]
  refine ⟨?_, hordered.sublist hleaves, hnodup.sublist hleaves⟩
  rw [hkinds]
  have hperm : leaves.Perm (read.filter fun t => t.kind.isLeaf && t ∉ raw) := by
    refine (List.perm_ext_iff_of_nodup (hnodup.sublist hleaves) (hnodup.filter _)).2 fun t => ?_
    have hmem : t ∈ leaves ↔ t ∈ read ∧ t ∈ root.visited.filterMap leafToken? := by
      refine ⟨fun ht => ⟨hleaves.subset ht, (List.mem_filter.1 ht).1⟩, fun ⟨hread, ht⟩ => ?_⟩
      exact List.mem_filter.2 ⟨ht, by simp [h.splits.present hread]⟩
    rw [hmem, List.mem_filter]
    refine and_congr_right fun hread => ?_
    simpa [root, raw, visited_eq] using h.mem_leaves_iff hread
  refine hperm.eq_of_pairwise (fun t u ht hu hle hle' => ?_) (hordered.sublist hleaves)
    (hordered.filter _)
  have hwidth := h.splits.width t (hleaves.subset ht)
  have hwidth' := h.splits.width u (List.mem_filter.1 hu).1
  exact absurd (Nat.lt_of_lt_of_le hwidth (Nat.le_trans hle (Nat.le_of_lt hwidth')))
    (Nat.not_lt.2 hle')

end Parsed

end LuaFront
