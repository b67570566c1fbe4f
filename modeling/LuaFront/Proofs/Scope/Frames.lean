import LuaFront.Proofs.Scope.Declared
import LuaFront.Proofs.Scope.Tidy
import Mathlib.Data.List.Pairwise

/-!
Frames of a tidy tree. Searching for an offset that a smaller node holds, each node adds a frame of
bindings on the way inwards; these are the ones that the traversal adds to its environment there.
There is one lemma for each form of node that adds bindings or chooses its way, and one for all
other forms.
-/

namespace LuaFront

/-- What stands before the block of a loop. -/
def NumericFor.front (s : NumericFor) : List Part :=
  [.token s.keyword, .node (.identifier s.var), .token s.eq, .node (.ofExpr s.start),
    .token s.comma, .node (.ofExpr s.limit)] ++ s.step.toList.flatMap Step.parts

def GenericFor.front (s : GenericFor) : List Part :=
  .token s.keyword :: s.names.parts Node.identifier ++ .token s.in_ :: s.exprs.parts Node.ofExpr

namespace Node

variable {env env' : Env} {n m : Node} {pos : Offset} {id : Identifier}

/-- Between a node and one inside it, the search finds the bindings that the environment gains. -/
def Leads (pos : Offset) (env : Env) (n : Node) (env' : Env) (m : Node) : Prop :=
  ∃ frame, n.enclosing pos = frame ++ m.enclosing pos ∧ env' = frame.reverse ++ env

lemma leads_of_frame {frame : List Binding} (hframe : n.frame pos = frame)
    (hnames : ∀ b ∈ frame, b.name ≠ "") (hinward : n.inward pos = [m]) :
    Leads pos env n (frame.reverse ++ env) m := by
  refine ⟨frame, ?_, rfl⟩
  rw [enclosing_eq, hframe, hinward, List.filter_eq_self.2 (by simpa using hnames)]
  simp

lemma leads_of_no_frame (hframe : n.frame pos = []) (hinward : n.inward pos = [m]) :
    Leads pos env n env m := leads_of_frame hframe (by simp) hinward

/-! ### Names -/

lemma Tidy.covers_name (h : n.Tidy) (hid : identifier id ∈ n.preorder) :
    n.span.Covers id.token.span.start := h.covers (mem_tokens_of_mem_preorder hid)

lemma Tidy.name_ne_empty (h : (identifier id).Tidy) : id.name ≠ "" := by
  have hkind : id.token.kind = .ident := h.own.form
  have hpresent : id.token.isMissing = false := h.own.present _ (by simp [parts])
  simpa [Token.isMissing, hkind, Identifier.name] using hpresent

lemma Tidy.declared_named (h : n.Tidy) : ∀ b ∈ n.declared, b.name ≠ "" := by
  intro b hb
  rw [name_of_declared hb]
  exact (h.child (mem_children_of_declared hb)).name_ne_empty

/-! ### What holds an offset -/

/-- The last part of the node is a block. -/
def endsInBlock : Node → Bool
  | block _ | elseIf _ | else_ _ => true
  | _ => false

@[simp, grind =] lemma endsInBlock_ofExpr (e : Expr) : (ofExpr e).endsInBlock = false := by
  cases e <;> rfl

@[simp, grind =] lemma endsInBlock_ofParam (p : Param) : (ofParam p).endsInBlock = false := by
  cases p <;> rfl

/-- The search for the offset goes on into the node. The end of a block still belongs to it, while
other nodes have to cover the offset. -/
def Holds (pos : Offset) : Node → Prop
  | block b => (block b).span.Touches pos
  | elseIf c => (ofExpr c.cond).span.Covers pos ∨ (block c.block).span.Touches pos
  | else_ c => (block c.block).span.Touches pos
  | funcBody f => (block f.block).span.Touches pos
  | n => n.span.Covers pos

lemma holds_ofExpr {e : Expr} : (ofExpr e).Holds pos ↔ (ofExpr e).span.Covers pos := by
  cases e <;> rfl

lemma Tidy.touches_child (h : n.Tidy) (hm : m ∈ n.children) (hpos : m.span.Touches pos) :
    n.span.Touches pos := by
  obtain ⟨size, hspanned⟩ := h.spanned
  obtain ⟨hstart, hstop⟩ := hspanned.children m hm
  exact ⟨Nat.le_trans hstart hpos.1, Nat.le_trans hpos.2 hstop⟩

lemma Tidy.touches (h : n.Tidy) (hpos : n.Holds pos) : n.span.Touches pos := by
  cases n with
  | block b => exact hpos
  | elseIf c =>
    rcases hpos with hpos | hpos
    · exact h.touches_child (by simp [children, parts]) hpos.touches
    · exact h.touches_child (by simp [children, parts]) hpos
  | else_ c => exact h.touches_child (by simp [children, parts]) hpos
  | funcBody f => exact h.touches_child (by simp [children, parts, FuncBody.parts]) hpos
  | _ => exact Span.Covers.touches hpos

lemma Tidy.covers_of_holds (h : n.Tidy) (hn : n.endsInBlock = false) (hpos : n.Holds pos) :
    n.span.Covers pos := by
  cases n with
  | funcBody f =>
    have hclose : f.close ∈ (funcBody f).tokens :=
      mem_tokens_of_part (by simp [parts, FuncBody.parts])
    have hle : (block f.block).span.stop ≤ f.close.span.start :=
      h.stop_le_start (p := .node (block f.block)) (q := .token f.close)
        ((List.sublist_cons_self _ _).trans (List.sublist_append_right _ _))
    exact ⟨(h.touches hpos).1, Nat.lt_of_le_of_lt (Nat.le_trans hpos.2 hle) (h.covers hclose).2⟩
  | block b => cases hn
  | elseIf c => cases hn
  | else_ c => cases hn
  | _ => exact hpos

/-! ### Forms that add nothing -/

/-- A node that adds nothing and does not choose its way leads to the part with the name. -/
lemma Tidy.leads_reaching (h : n.Tidy) (hframe : n.frame pos = [])
    (hinward : n.inward pos = n.reaching pos) {ns rest : List Node}
    (hchildren : n.children = ns ++ rest) (hns : ∀ k ∈ ns, k.endsInBlock = false) (hm : m ∈ ns)
    (hpos : m.Holds pos) : Leads pos env n env m := by
  have hchild : m.Tidy := h.child (hchildren ▸ List.mem_append_left rest hm)
  have hblock : ∀ k ∈ ns, ∀ b, k ≠ block b := by
    rintro k hk b rfl
    cases hns _ hk
  refine leads_of_no_frame hframe ?_
  rw [hinward, h.reaching_eq hchildren hblock hm (hchild.covers_of_holds (hns m hm) hpos)]

/-- So it is where a node has no block. -/
lemma Tidy.leads_plain (h : n.Tidy) (hframe : n.frame pos = [])
    (hinward : n.inward pos = n.reaching pos)
    (hblocks : ∀ k, .node k ∈ n.parts → k.endsInBlock = false)
    (hm : m ∈ n.children) (hpos : m.Holds pos) : Leads pos env n env m := by
  have hchildren : n.children = n.children ++ [] := (List.append_nil _).symm
  refine h.leads_reaching hframe hinward hchildren ?_ hm hpos
  exact fun k hk => hblocks k (mem_children.1 hk)

lemma env_eq_of_map {ns : List Node} (hm : .inner env' m ∈ ns.map (Piece.inner env)) :
    env' = env := by
  obtain ⟨k, -, hk⟩ := List.mem_map.1 hm
  cases hk
  rfl

lemma endsInBlock_of_args {args : CallArgs} (hm : .node m ∈ args.parts) :
    m.endsInBlock = false := by
  cases args with
  | paren opening args closing =>
    obtain ⟨e, -, rfl⟩ : ∃ e ∈ args.items, ofExpr e = m := by simpa [CallArgs.parts] using hm
    exact endsInBlock_ofExpr e
  | table t =>
    obtain rfl : m = table t := by simpa [CallArgs.parts] using hm
    rfl
  | string lit =>
    obtain rfl : m = literal lit := by simpa [CallArgs.parts] using hm
    rfl

lemma Tidy.leads_expr {e : Expr} (h : (expr e).Tidy) (hm : .inner env' m ∈ (expr e).pieces env)
    (hpos : m.Holds pos) : Leads pos env (expr e) env' m := by
  have hblocks : ∀ k, .node k ∈ (expr e).parts → k.endsInBlock = false := by
    have hargs := @endsInBlock_of_args
    intro k hk
    cases e <;> simp [parts, Expr.parts, Table.parts] at hk <;> grind [endsInBlock]
  have henv : env' = env := by
    cases e with
    | field base dot name =>
      obtain ⟨henv, -⟩ : env' = env ∧ m = ofExpr base := by simpa [pieces] using hm
      exact henv
    | methodCall receiver colon name args =>
      rcases List.mem_cons.1 hm with hm | hm
      · cases hm
        rfl
      · rcases List.mem_cons.1 hm with hm | hm
        · cases hm
        · exact env_eq_of_map hm
    | _ => exact env_eq_of_map hm
  rw [henv]
  exact h.leads_plain rfl rfl hblocks (mem_children_of_inner hm) hpos

lemma Tidy.leads_tableField {f : TableField} (h : (tableField f).Tidy)
    (hm : .inner env' m ∈ (tableField f).pieces env) (hpos : m.Holds pos) :
    Leads pos env (tableField f) env' m := by
  have hblocks : ∀ k, .node k ∈ (tableField f).parts → k.endsInBlock = false := by
    intro k hk
    cases f <;> simp [parts, TableField.parts] at hk <;> grind [endsInBlock]
  have henv : env' = env := by
    cases f with
    | named name eq value =>
      obtain ⟨henv, -⟩ : env' = env ∧ m = ofExpr value := by simpa [pieces] using hm
      exact henv
    | _ => exact env_eq_of_map hm
  rw [henv]
  exact h.leads_plain rfl rfl hblocks (mem_children_of_inner hm) hpos

/-! ### Blocks -/

lemma after_eq (env : Env) (s : Stat) : s.after env = (stat s).locals.reverse ++ env := by
  cases s <;> simp [Stat.after, locals, Stat.declared]

lemma foldl_after (env : Env) (stats : List Stat) :
    stats.foldl Stat.after env = ((stats.map stat).flatMap locals).reverse ++ env := by
  induction stats generalizing env with
  | nil => rfl
  | cons s rest ih =>
    rw [List.foldl_cons, ih, after_eq]
    simp

/-- The statements before an offset are behind it, and none of them reaches it. -/
lemma Tidy.stats_behind {b : Block} (h : (block b).Tidy) {before : List Node}
    (hbefore : ∀ k ∈ before, k ∈ (block b).children ∧ k.span.stop ≤ pos) :
    ∀ k ∈ before, k.span.stop ≤ pos ∧ ∀ limit, k.reaches pos limit = false := by
  intro k hk
  obtain ⟨hchild, hstop⟩ := hbefore k hk
  refine ⟨hstop, (h.child hchild).not_reaches ?_ hstop⟩
  rintro b' rfl
  simp [children, parts, Part.node?] at hchild

lemma Tidy.locals_named {b : Block} (h : (block b).Tidy) {stats : List Node}
    (hstats : ∀ k ∈ stats, k ∈ (block b).children) : ∀ b ∈ stats.flatMap locals, b.name ≠ "" := by
  intro b hb
  obtain ⟨k, hk, hb⟩ := List.mem_flatMap.1 hb
  exact (h.child (hstats k hk)).declared_named b (declared_of_locals hb)

lemma block_children (b : Block) : (block b).children = b.stats.map stat := by
  simp [children, parts, Part.node?, Function.comp_def]

/-- What stands in a block before a statement. -/
lemma Tidy.stats_before {b : Block} (h : (block b).Tidy) {before after : List Stat} {s : Stat}
    (hstats : b.stats = before ++ s :: after) (hpos : (stat s).span.start ≤ pos) :
    (block b).children = before.map stat ++ stat s :: after.map stat
      ∧ ∀ k ∈ before.map stat, k ∈ (block b).children ∧ k.span.stop ≤ pos := by
  have hchildren : (block b).children = before.map stat ++ stat s :: after.map stat := by
    rw [block_children, hstats]
    simp
  obtain ⟨size, hspanned⟩ := h.spanned
  have hordered := hspanned.ordered
  rw [hchildren, List.pairwise_append] at hordered
  exact ⟨hchildren, fun k hk => ⟨hchildren ▸ List.mem_append_left _ hk,
    Nat.le_trans (hordered.2.2 k hk (stat s) List.mem_cons_self) hpos⟩⟩

lemma Tidy.leads_block {b : Block} (h : (block b).Tidy) (hm : .inner env' m ∈ (block b).pieces env)
    (hpos : m.Holds pos) : Leads pos env (block b) env' m := by
  obtain ⟨before, s, after, hstats, hpiece⟩ := Piece.exists_of_mem_ofStats hm
  cases hpiece
  have hpos : (stat s).span.Covers pos := hpos
  obtain ⟨hchildren, hbefore⟩ := h.stats_before hstats hpos.1
  have hsplit : splitAt pos (block b).children = (before.map stat, some (stat s)) := by
    rw [hchildren]
    refine splitAt_eq (h.stats_behind hbefore) (h.child ?_) hpos
    simp [hchildren]
  rw [foldl_after]
  refine leads_of_frame ?_ (h.locals_named fun k hk => (hbefore k hk).1) ?_
  · rw [frame, hsplit]
  · rw [inward, hsplit]
    rfl

/-- Behind a block, the search finds all its locals. -/
lemma Tidy.enclosing_behind {b : Block} (h : (block b).Tidy) (hpos : (block b).span.stop ≤ pos)
    (env : Env) : b.atEnd env = ((block b).enclosing pos).reverse ++ env := by
  obtain ⟨size, hspanned⟩ := h.spanned
  have hall := h.stats_behind fun k hk => ⟨hk, Nat.le_trans (hspanned.children k hk).2 hpos⟩
  have hnames := h.locals_named fun k hk => hk
  rw [enclosing_eq, frame, inward, splitAt_of_all hall,
    List.filter_eq_self.2 (by simpa using hnames), Block.atEnd, foldl_after, block_children]
  simp

/-! ### Loops and conditions -/

section Delimited

variable {front : List Part} {opening closing : Token} {b : Block}
  (hparts : n.parts = front ++ [Part.token opening, .node (block b), .token closing])
include hparts

/-- What a node declares is visible in the block between its tokens. -/
lemma Tidy.leads_delimited (h : n.Tidy) (hpos : (block b).span.Touches pos)
    (hframe : inside pos opening closing = true → n.frame pos = n.declared)
    (hinward : inside pos opening closing = true → n.inward pos = [block b]) :
    Leads pos env n (n.declared.reverse ++ env) (block b) := by
  have hin : inside pos opening closing = true := by
    refine h.inside_eq_true (m := block b) ?_ hpos
    rw [hparts]
    exact List.sublist_append_right _ _
  exact leads_of_frame (hframe hin) h.declared_named (hinward hin)

/-- Before the block nothing is added. -/
lemma Tidy.leads_front (h : n.Tidy) (hfront : ∀ k, .node k ∈ front → k.endsInBlock = false)
    (hm : .node m ∈ front) (hpos : m.Holds pos)
    (hframe : inside pos opening closing = false → n.frame pos = [])
    (hinward : inside pos opening closing = false → n.inward pos = n.reaching pos) :
    Leads pos env n env m := by
  have hchild : m.Tidy := h.child (mem_children.2 (by simp [hparts, hm]))
  have hstop : m.span.stop ≤ opening.span.start := by
    refine h.stop_le_start (p := .node m) (q := .token opening) ?_
    rw [hparts]
    exact (List.singleton_sublist.2 hm).append (List.sublist_append_left [Part.token opening] _)
  have hin : inside pos opening closing = false :=
    h.inside_eq_false closing (mem_tokens_of_part (by simp [hparts]))
      (Nat.le_trans (hchild.touches hpos).2 hstop)
  have hchildren : n.children = front.filterMap Part.node? ++ [block b] := by
    rw [children, hparts, List.filterMap_append]
    rfl
  refine h.leads_reaching (hframe hin) (hinward hin) hchildren ?_ ?_ hpos
  · exact fun k hk => hfront k (Part.mem_nodes.1 hk)
  · exact Part.mem_nodes.2 hm

end Delimited

/-- The locals of the block are visible in the condition too. -/
lemma Tidy.leads_repeat {keyword close : Token} {cond : Expr} {b : Block}
    (h : (stat (.repeat_ keyword b close cond)).Tidy)
    (hm : .inner env' m ∈ (stat (.repeat_ keyword b close cond)).pieces env)
    (hpos : m.Holds pos) :
    Leads pos env (stat (.repeat_ keyword b close cond)) env' m := by
  have hkeyword : keyword.span.stop ≤ (block b).span.start :=
    h.stop_le_start (p := .token keyword) (q := .node (block b)) (by simp [parts, Stat.parts])
  have hblock : (block b).Tidy := h.child (by simp [children, parts, Stat.parts])
  have hexpr : (ofExpr cond).Tidy := h.child (by simp [children, parts, Stat.parts])
  simp only [pieces, List.mem_cons, Piece.inner.injEq, List.not_mem_nil, or_false] at hm
  rcases hm with ⟨rfl, rfl⟩ | ⟨rfl, rfl⟩
  · have hpos : (block b).span.Touches pos := hpos
    have hbegun : keyword.span.stop ≤ pos := Nat.le_trans hkeyword hpos.1
    have hclose : (block b).span.stop ≤ close.span.start :=
      h.stop_le_start (p := .node (block b)) (q := .token close) (by simp [parts, Stat.parts])
    have hcond : close.span.stop ≤ (ofExpr cond).span.start :=
      h.stop_le_start (p := .token close) (q := .node (ofExpr cond)) (by simp [parts, Stat.parts])
    have hwidth := h.width close (mem_tokens_of_part (by simp [parts, Stat.parts]))
    have hcontains : (ofExpr cond).span.contains pos = false := by
      refine Span.not_contains (hexpr.span_width (ofExpr_ne_block cond)) (.inr ?_)
      exact Nat.lt_of_le_of_lt (Nat.le_trans hpos.2 hclose) (Nat.lt_of_lt_of_le hwidth hcond)
    exact leads_of_no_frame rfl (by simp [inward, hbegun, hcontains])
  · have hpos : (ofExpr cond).span.Covers pos := hexpr.covers_of_holds (by simp) hpos
    have hcond : (block b).span.stop ≤ (ofExpr cond).span.start :=
      h.stop_le_start (p := .node (block b)) (q := .node (ofExpr cond))
        (by simp [parts, Stat.parts])
    obtain ⟨size, hspanned⟩ := hblock.spanned
    have hbehind : (block b).span.stop ≤ pos := Nat.le_trans hcond hpos.1
    have hbegun : keyword.span.stop ≤ pos :=
      Nat.le_trans hkeyword (Nat.le_trans hspanned.start_le_stop hbehind)
    refine ⟨(block b).enclosing pos, ?_, hblock.enclosing_behind hbehind env⟩
    rw [enclosing_eq]
    simp [frame, inward, hbegun, hpos.contains]

/-- The loop ends with its condition. -/
lemma Tidy.stop_repeat {keyword close : Token} {cond : Expr} {b : Block}
    (h : (stat (.repeat_ keyword b close cond)).Tidy) :
    (stat (.repeat_ keyword b close cond)).span.stop = (ofExpr cond).span.stop := by
  have hspan : (stat (.repeat_ keyword b close cond)).span
      = .join keyword.span (ofExpr cond).span := by
    rw [span_eq]
    rfl
  have hkeyword := h.width keyword (mem_tokens_of_part (by simp [parts, Stat.parts]))
  have hcond : keyword.span.stop ≤ (ofExpr cond).span.start :=
    h.stop_le_start (p := .token keyword) (q := .node (ofExpr cond)) (by simp [parts, Stat.parts])
  have hexpr : (ofExpr cond).Tidy := h.child (by simp [children, parts, Stat.parts])
  have hwidth := hexpr.span_width (ofExpr_ne_block cond)
  rw [hspan]
  refine Nat.max_eq_left (Nat.le_of_lt (Nat.lt_trans hkeyword ?_))
  exact Nat.lt_of_le_of_lt hcond hwidth

/-- The condition of a branch does not contain what its block does. -/
lemma Tidy.cond_behind {c : ElseIf} (h : (elseIf c).Tidy)
    (hpos : (block c.block).span.Touches pos) : (ofExpr c.cond).span.contains pos = false := by
  have hexpr : (ofExpr c.cond).Tidy := h.child (by simp [children, parts])
  have hcond : (ofExpr c.cond).span.stop ≤ (block c.block).span.start :=
    h.stop_le_start (p := .node (ofExpr c.cond)) (q := .node (block c.block)) (by simp [parts])
  exact Span.not_contains (hexpr.span_width (ofExpr_ne_block _))
    (.inl (Nat.le_trans hcond hpos.1))

lemma Tidy.leads_elseIf {c : ElseIf} (h : (elseIf c).Tidy)
    (hm : m = ofExpr c.cond ∨ m = block c.block) (hpos : m.Holds pos) :
    Leads pos env (elseIf c) env m := by
  have hexpr : (ofExpr c.cond).Tidy := h.child (by simp [children, parts])
  rcases hm with rfl | rfl
  · have hcontains := (hexpr.covers_of_holds (by simp) hpos).contains
    exact leads_of_no_frame rfl (by rw [inward, hcontains]; rfl)
  · exact leads_of_no_frame rfl (by rw [inward, h.cond_behind hpos]; rfl)

lemma leads_else {c : Else} : Leads pos env (else_ c) env (block c.block) :=
  leads_of_no_frame rfl rfl

lemma Tidy.leads_do {keyword close : Token} {b : Block} (h : (stat (.do_ keyword b close)).Tidy)
    (hpos : (block b).Holds pos) :
    Leads pos env (stat (.do_ keyword b close)) env (block b) := by
  have hparts : (stat (.do_ keyword b close)).parts
    = [] ++ [Part.token keyword, .node (block b), .token close] := rfl
  exact h.leads_delimited hparts hpos (fun _ => rfl) fun hin => by rw [inward, hin]; rfl

lemma Tidy.leads_while {keyword opener close : Token} {cond : Expr} {b : Block}
    (h : (stat (.while_ keyword cond opener b close)).Tidy)
    (hm : m = ofExpr cond ∨ m = block b) (hpos : m.Holds pos) :
    Leads pos env (stat (.while_ keyword cond opener b close)) env m := by
  have hparts : (stat (.while_ keyword cond opener b close)).parts
    = [Part.token keyword, .node (ofExpr cond)]
      ++ [Part.token opener, .node (block b), .token close] := rfl
  rcases hm with rfl | rfl
  · exact h.leads_front hparts (by simp) (by simp) hpos (fun _ => rfl)
      fun hin => by rw [inward, hin]; rfl
  · exact h.leads_delimited hparts hpos (fun _ => rfl) fun hin => by rw [inward, hin]; rfl

lemma endsInBlock_of_numericFront {s : NumericFor} (hm : .node m ∈ s.front) :
    m.endsInBlock = false := by
  simp [NumericFor.front, Step.parts] at hm
  grind [endsInBlock]

lemma endsInBlock_of_genericFront {s : GenericFor} (hm : .node m ∈ s.front) :
    m.endsInBlock = false := by
  simp [GenericFor.front] at hm
  grind [endsInBlock]

/-- The variables of a loop are visible in its block alone. -/
lemma Tidy.leads_numericFor {s : NumericFor} (h : (stat (.numericFor s)).Tidy)
    (hm : .inner env' m ∈ (stat (.numericFor s)).pieces env) (hpos : m.Holds pos) :
    Leads pos env (stat (.numericFor s)) env' m := by
  have hparts : (stat (.numericFor s)).parts
    = s.front ++ [Part.token s.opener, .node (block s.block), .token s.close] := rfl
  have hcases : env' = env ∧ .node m ∈ s.front
      ∨ env' = (stat (.numericFor s)).declared.reverse ++ env ∧ m = block s.block := by
    simp [pieces] at hm
    simp [NumericFor.front, declared, Stat.declared, Step.parts]
    grind
  rcases hcases with ⟨rfl, hfront⟩ | ⟨rfl, rfl⟩
  · exact h.leads_front hparts (fun _ => endsInBlock_of_numericFront) hfront hpos
      (fun hin => by rw [frame, hin]; rfl) fun hin => by rw [inward, hin]; rfl
  · exact h.leads_delimited hparts hpos
      (fun hin => by rw [frame, hin]; rfl) fun hin => by rw [inward, hin]; rfl

lemma Tidy.leads_genericFor {s : GenericFor} (h : (stat (.genericFor s)).Tidy)
    (hm : .inner env' m ∈ (stat (.genericFor s)).pieces env) (hpos : m.Holds pos) :
    Leads pos env (stat (.genericFor s)) env' m := by
  have hparts : (stat (.genericFor s)).parts
    = s.front ++ [Part.token s.opener, .node (block s.block), .token s.close] := rfl
  have hcases : env' = env ∧ .node m ∈ s.front
      ∨ env' = (stat (.genericFor s)).declared.reverse ++ env ∧ m = block s.block := by
    simp [pieces] at hm
    simp [GenericFor.front, declared, Stat.declared]
    grind
  rcases hcases with ⟨rfl, hfront⟩ | ⟨rfl, rfl⟩
  · exact h.leads_front hparts (fun _ => endsInBlock_of_genericFront) hfront hpos
      (fun hin => by rw [frame, hin]; rfl) fun hin => by rw [inward, hin]; rfl
  · exact h.leads_delimited hparts hpos
      (fun hin => by rw [frame, hin]; rfl) fun hin => by rw [inward, hin]; rfl

/-! ### Functions -/

lemma Tidy.inside_funcBody {f : FuncBody} (h : (funcBody f).Tidy) (hpos : (funcBody f).Holds pos) :
    inside pos f.closing f.close = true :=
  h.inside_eq_true (m := block f.block) (List.sublist_append_right _ _) hpos

lemma Tidy.leads_funcBody {f : FuncBody} (h : (funcBody f).Tidy)
    (hpos : (block f.block).Holds pos) :
    Leads pos env (funcBody f) (f.declared.reverse ++ env) (block f.block) := by
  have hparts : (funcBody f).parts = (Part.token f.opening :: f.params.parts Node.ofParam)
    ++ [Part.token f.closing, .node (block f.block), .token f.close] := rfl
  exact h.leads_delimited hparts hpos
    (fun hin => by rw [frame, hin]; rfl) fun hin => by rw [inward, hin]; rfl

/-- A name in a function is a parameter, or stands in the block. -/
lemma funcBody_cases {f : FuncBody} (hid : identifier id ∈ (funcBody f).preorder) :
    (∃ b ∈ f.declared, b.id = id) ∨ identifier id ∈ (block f.block).preorder := by
  have hchildren : (funcBody f).children = f.params.items.map ofParam ++ [block f.block] := by
    simp [children, parts, FuncBody.parts]
  rw [preorder_eq, hchildren, List.mem_cons, List.flatMap_append, List.mem_append] at hid
  rcases hid with hid | hid | hid
  · cases hid
  · obtain ⟨m, hm, hid⟩ := List.mem_flatMap.1 hid
    obtain ⟨p, hp, rfl⟩ := List.mem_map.1 hm
    cases p with
    | name id' =>
      rw [ofParam, preorder_identifier, List.mem_singleton] at hid
      cases hid
      exact .inl ⟨_, List.mem_filterMap.2 ⟨_, hp, rfl⟩, rfl⟩
    | vararg dots =>
      rw [ofParam, preorder_eq] at hid
      simp [children, parts] at hid
  · exact .inr (by simpa using hid)

lemma leads_localFunction {keyword second : Token} {name : Identifier} {f : FuncBody}
    (h : (stat (.localFunction keyword second name f)).Tidy) :
    Leads pos env (stat (.localFunction keyword second name f))
      (.named .localFunction keyword name :: env) (funcBody f) := by
  have hframe : (stat (.localFunction keyword second name f)).frame pos
    = [.named .localFunction keyword name] := rfl
  exact leads_of_frame hframe h.declared_named rfl

lemma enclosing_eq_nil (hframe : n.frame pos = []) (h : ∀ m ∈ n.inward pos, m.enclosing pos = []) :
    n.enclosing pos = [] := by
  rw [enclosing_eq, hframe, List.flatMap_eq_nil_iff.2 h]
  rfl

lemma enclosing_identifier : (identifier id).enclosing pos = [] :=
  enclosing_eq_nil rfl fun m hm =>
    absurd (mem_children_of_mem_inward hm) (by simp [children, parts])

/-- No function is written out in the name of a function. -/
lemma enclosing_dotted {e : Expr} (h : e.IsDotted) (hn : n = ofExpr e) : n.enclosing pos = [] := by
  induction n using Node.induction generalizing e with
  | step n ih =>
    subst hn
    cases e with
    | name id =>
      refine enclosing_eq_nil rfl fun m hm => ?_
      exact absurd (mem_children_of_mem_inward hm) (by simp [ofExpr, children, parts])
    | field base dot name =>
      refine enclosing_eq_nil rfl fun m hm => ?_
      have hmem := mem_children_of_mem_inward hm
      have hcases : m = ofExpr base ∨ m = ofExpr (.name name) := by
        simpa [ofExpr, children, parts, Expr.parts] using hmem
      rcases hcases with rfl | rfl
      · exact ih _ hmem (e := base) h rfl
      · exact ih _ hmem (e := .name name) trivial rfl
    | _ => exact h.elim

/-- A method's `self` is visible in its block, and not in its name. -/
lemma Tidy.leads_function {keyword : Token} {name : Expr} {method : Option MethodName}
    {f : FuncBody} (h : (stat (.function keyword name method f)).Tidy)
    (hm : .inner env' m ∈ (stat (.function keyword name method f)).pieces env)
    (hpos : m.Holds pos) : Leads pos env (stat (.function keyword name method f)) env' m := by
  have hf : (funcBody f).Tidy := h.child (by simp [children, parts, Stat.parts])
  have hexpr : (ofExpr name).Tidy := h.child (by simp [children, parts, Stat.parts])
  have hcases : env' = env ∧ m = ofExpr name
      ∨ env' = method.toList.map (.self keyword) ++ env ∧ m = funcBody f := by
    simpa [pieces] using hm
  rcases hcases with ⟨rfl, rfl⟩ | ⟨rfl, rfl⟩
  · have hname : (ofExpr name).span.stop ≤ (funcBody f).span.start :=
      h.stop_le_start (p := .node (ofExpr name)) (q := .node (funcBody f))
        (by simp [parts, Stat.parts])
    have hmem : f.closing ∈ (funcBody f).tokens :=
      mem_tokens_of_part (by simp [parts, FuncBody.parts])
    have hin : inside pos f.closing f.close = false :=
      hf.inside_eq_false f.close hmem
        (Nat.le_trans (hexpr.touches hpos).2 (Nat.le_trans hname (hf.covers hmem).1))
    have hfunc : (funcBody f).enclosing pos = [] :=
      enclosing_eq_nil (by rw [frame, hin]; rfl) (by rw [inward, hin]; simp)
    have hdotted : name.IsDotted := h.own.sound
    refine ⟨[], ?_, rfl⟩
    rw [enclosing_dotted hdotted rfl]
    refine enclosing_eq_nil (by rw [frame, hin]; rfl) ?_
    intro m hm
    rw [List.mem_singleton.1 hm, hfunc]
  · have hin := hf.inside_funcBody hpos
    have hself : ∀ b ∈ method.toList.map (Binding.self keyword), b.name ≠ "" := by
      simp [Binding.self]
    have hframe : (stat (.function keyword name method f)).frame pos
        = method.toList.map (.self keyword) := by
      rw [frame, hin]
      rfl
    have hreverse : (method.toList.map (Binding.self keyword)).reverse
        = method.toList.map (.self keyword) := by
      cases method <;> rfl
    rw [← hreverse]
    exact leads_of_frame hframe hself rfl

end Node

end LuaFront
