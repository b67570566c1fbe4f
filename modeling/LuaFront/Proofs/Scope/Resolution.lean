import LuaFront.Proofs.Chunk.Completeness
import LuaFront.Proofs.Chunk.Lossless
import LuaFront.Proofs.Chunk.Spans
import LuaFront.Proofs.Scope.Branches
import LuaFront.Proofs.Scope.Declared
import Mathlib.Data.List.Nodup

/-!
Resolving a name is lexical scoping: what the search by offset finds is what the traversal of the
tree gives. A name that is declared is found by its place; for any other the frames on the way to
it are the environment that the traversal has there.
-/

namespace LuaFront

namespace Node

variable {env env' : Env} {n m : Node} {id : Identifier} {d d' : Option Binding}

/-! ### Names that are declared elsewhere -/

lemma Tidy.leads_stat {s : Stat} {pos : Offset} (h : (stat s).Tidy)
    (hm : .inner env' m ∈ (stat s).pieces env) (hpos : m.Holds pos) :
    Leads pos env (stat s) env' m := by
  have hchild := mem_children_of_inner hm
  cases s with
  | do_ keyword b close =>
    obtain rfl : m = block b := by simpa [children, parts, Stat.parts] using hchild
    obtain rfl := env_eq_of_map hm
    exact h.leads_do hpos
  | while_ keyword cond opener b close =>
    obtain rfl := env_eq_of_map hm
    exact h.leads_while (by simpa [children, parts, Stat.parts] using hchild) hpos
  | repeat_ keyword b close cond => exact h.leads_repeat hm hpos
  | if_ s =>
    obtain rfl := env_eq_of_map hm
    exact h.leads_if hchild hpos
  | numericFor s => exact h.leads_numericFor hm hpos
  | genericFor s => exact h.leads_genericFor hm hpos
  | function keyword name method f => exact h.leads_function hm hpos
  | localFunction keyword second name f =>
    obtain ⟨rfl, rfl⟩ : env' = .named .localFunction keyword name :: env ∧ m = funcBody f := by
      simpa [pieces] using hm
    exact leads_localFunction h
  | local_ keyword names eq values =>
    obtain rfl : env' = env := by
      rcases List.mem_append.1 hm with hm | hm
      · obtain ⟨name, -, hname⟩ := List.mem_map.1 hm
        cases hname
      · obtain ⟨value, -, hvalue⟩ := List.mem_map.1 hm
        cases hvalue
        rfl
    exact h.leads_plain rfl rfl (by simp [parts, Stat.parts]; grind [endsInBlock]) hchild hpos
  | goto_ keyword name => simp [pieces] at hm
  | label opening name closing => simp [pieces] at hm
  | _ =>
    obtain rfl := env_eq_of_map hm
    exact h.leads_plain rfl rfl (by simp [parts, Stat.parts] <;> grind [endsInBlock]) hchild hpos

/-- On the way from a node to a name inside it, the search finds what the environment gains. -/
lemma Tidy.leads {pos : Offset} (h : n.Tidy) (hm : .inner env' m ∈ n.pieces env)
    (hid : identifier id ∈ m.preorder) (hpos : m.Holds pos) : Leads pos env n env' m := by
  have hchild := mem_children_of_inner hm
  cases n with
  | block b => exact h.leads_block hm hpos
  | stat s => exact h.leads_stat hm hpos
  | elseIf c =>
    obtain rfl := env_eq_of_map hm
    exact h.leads_elseIf (by simpa [children, parts] using hchild) hpos
  | else_ c =>
    obtain rfl : m = block c.block := by simpa [children, parts] using hchild
    obtain rfl := env_eq_of_map hm
    exact leads_else
  | funcBody f =>
    have hcases : (∃ p ∈ f.params.items, .ofParam env p = Piece.inner env' m)
        ∨ env' = f.declared.reverse ++ env ∧ m = block f.block := by
      simpa [pieces] using hm
    rcases hcases with ⟨p, -, hp⟩ | ⟨rfl, rfl⟩
    -- There is no name in the three dots.
    · cases p <;> cases hp
      rw [preorder_eq] at hid
      simp [children, parts] at hid
    · exact h.leads_funcBody hpos
  | tableField f => exact h.leads_tableField hm hpos
  | expr e => exact h.leads_expr hm hpos
  | _ =>
    obtain rfl := env_eq_of_map hm
    exact h.leads_plain rfl rfl (by simp [parts, Table.parts] <;> grind [endsInBlock]) hchild hpos

lemma Tidy.touches_name {pos : Offset} (h : n.Tidy) (hid : identifier id ∈ n.preorder)
    (hpos : id.token.span.Touches pos) : n.span.Touches pos := by
  obtain ⟨size, hspanned⟩ := h.spanned
  obtain ⟨hstart, -, hstop⟩ := hspanned.tokens _ (mem_tokens_of_mem_preorder hid)
  exact ⟨Nat.le_trans hstart hpos.1, Nat.le_trans hpos.2 hstop⟩

lemma Tidy.holds_funcBody {pos : Offset} {f : FuncBody} (h : (funcBody f).Tidy)
    (hid : identifier id ∈ (funcBody f).preorder) (hfree : ∀ b ∈ (funcBody f).declared, b.id ≠ id)
    (hpos : id.token.span.Touches pos) : (funcBody f).Holds pos := by
  rcases funcBody_cases hid with ⟨b, hb, heq⟩ | hid
  · exact absurd heq (hfree b hb)
  · exact (h.child (by simp [children, parts, FuncBody.parts])).touches_name hid hpos

/-- An offset at a name is held by the nodes around the name that end in a block, and by all others
that cover it. -/
lemma Tidy.holds_name {pos : Offset} (h : n.Tidy) (hid : identifier id ∈ n.preorder)
    (hfree : ∀ b ∈ n.declared, b.id ≠ id) (hpos : id.token.span.Touches pos)
    (hcovers : ∀ k, k = n ∨ k ∈ n.children → identifier id ∈ k.preorder →
      k.endsInBlock = false → k.span.Covers pos) : n.Holds pos := by
  cases n with
  | block b => exact h.touches_name hid hpos
  | elseIf c =>
    have hchildren : (elseIf c).children = [ofExpr c.cond, block c.block] := rfl
    rcases (mem_preorder_cases hid).resolve_left (by simp) with ⟨m, hm, hid⟩
    rw [hchildren, List.mem_cons, List.mem_singleton] at hm
    rcases hm with rfl | rfl
    · exact .inl (hcovers _ (.inr (by simp [hchildren])) hid (by simp))
    · exact .inr ((h.child (by simp [hchildren])).touches_name hid hpos)
  | else_ c =>
    have hchildren : (else_ c).children = [block c.block] := rfl
    rcases (mem_preorder_cases hid).resolve_left (by simp) with ⟨m, hm, hid⟩
    rw [hchildren, List.mem_singleton] at hm
    subst hm
    exact (h.child (by simp [hchildren])).touches_name hid hpos
  | funcBody f => exact h.holds_funcBody hid hfree hpos
  | _ => exact hcovers _ (.inl rfl) hid rfl

lemma Tidy.holds_start (h : n.Tidy) (hid : identifier id ∈ n.preorder)
    (hfree : ∀ b ∈ n.declared, b.id ≠ id) : n.Holds id.token.span.start := by
  have hwidth := h.width _ (mem_tokens_of_mem_preorder hid)
  refine h.holds_name hid hfree ⟨Nat.le_refl _, Nat.le_of_lt hwidth⟩ ?_
  rintro k (rfl | hk) hid -
  · exact h.covers_name hid
  · exact (h.child hk).covers_name hid

/-- **Frames are environments**: a name that is not declared where it stands refers to the last
binding of its name among those that enclose it. -/
lemma Tidy.uses_enclosing (h : n.Tidy) (huse : (id, d) ∈ n.uses env)
    (hfree : ∀ b ∈ n.preorder.flatMap declared, b.id ≠ id) :
    d = ((n.enclosing id.token.span.start).reverse ++ env).find? (·.name = id.name) := by
  induction n using Node.induction generalizing env with
  | step n ih =>
    rcases hid : n.identifier? with _ | id'
    · rw [uses_eq hid, List.mem_flatMap] at huse
      obtain ⟨piece, hpiece, huse⟩ := huse
      cases piece with
      | declares b =>
        cases List.mem_singleton.1 huse
        exact absurd rfl (hfree b (mem_gathered (declares_mem_iff.1 hpiece)))
      | label id => cases huse
      | inner env' m =>
        have hm := mem_children_of_inner hpiece
        have hbelow : ∀ b ∈ m.preorder.flatMap declared, b.id ≠ id := fun b hb =>
          hfree b (mem_gathered_of_child hm hb)
        have hown : ∀ b ∈ m.declared, b.id ≠ id := fun b hb => hbelow b (mem_gathered hb)
        have hname := mem_preorder_of_mem_uses huse
        obtain ⟨frame, henclosing, rfl⟩ :=
          h.leads hpiece hname ((h.child hm).holds_start hname hown)
        rw [ih m hm (h.child hm) huse hbelow, henclosing, List.reverse_append, List.append_assoc]
    · rw [identifier_eq_of_identifier? hid, uses_identifier, List.mem_singleton] at huse
      cases huse
      rw [identifier_eq_of_identifier? hid, enclosing_identifier]
      rfl

/-! ### One declaration for each name -/

lemma Tidy.tokens_nodup (h : n.Tidy) : n.tokens.Nodup := by
  refine h.laid.tokens_ordered.imp_of_mem fun {t u} ht _ hle heq => ?_
  subst heq
  exact absurd (h.width t ht) (Nat.not_lt.2 hle)

lemma Tidy.uses_unique (h : n.Tidy) (huse : (id, d) ∈ n.uses env) (huse' : (id, d') ∈ n.uses env) :
    d = d' := by
  have hnodup := h.tokens_nodup.sublist (uses_sublist env n)
  have heq := List.inj_on_of_nodup_map hnodup huse huse' rfl
  exact congrArg Prod.snd heq

end Node

namespace Block

open Node

variable {root : Block} {id : Identifier} {d : Option Binding}

/-- What the traversal of a tidy tree gives for a name is what the search gives. -/
lemma resolve?_eq_of_uses (h : (block root).Tidy) (huse : (id, d) ∈ (block root).uses []) :
    root.resolve? id = d := by
  rw [resolve?, declaredBy?_eq h.laid]
  cases hfind : ((block root).preorder.flatMap declared).find? (·.id = id) with
  | some b =>
    have hb := List.mem_of_find?_eq_some hfind
    have hid : b.id = id := by simpa using List.find?_some hfind
    have hdeclared : (id, some b) ∈ (block root).uses [] := hid ▸ declared_mem_uses hb
    rw [h.uses_unique huse hdeclared]
    rfl
  | none =>
    have hfree : ∀ b ∈ (block root).preorder.flatMap declared, b.id ≠ id := by
      simpa using List.find?_eq_none.1 hfind
    rw [h.uses_enclosing huse hfree, List.append_nil, lookup?_eq]
    rfl

end Block

namespace Parsed

/-- A text about which no error is reported has a tidy tree. -/
lemma tidy_of_no_error {source : String}
    (h : ∀ d ∈ (ofSource source).diagnostics, d.severity ≠ .error) :
    (ofSource source).root.Tidy := by
  obtain ⟨read, eof, s, hout⟩ := exists_outcome source
  have hcomplete := hout.all_complete (hout.clean h)
  obtain ⟨start, stop, hlaid, -⟩ := hout.laid_root
  refine ⟨hcomplete, ⟨start, stop, hlaid⟩, fun t ht => ?_⟩
  rcases hout.mem_read ht with hread | ⟨kind, offset, hkind, rfl⟩
  · exact hout.splits.width t hread
  · have hpresent := Node.present_of_complete hcomplete ht
    simp [Token.isMissing, Token.missing, hkind] at hpresent

/-- **Resolution is lexical scoping**: in a text about which no error is reported, each name of a
variable resolves to the declaration that the traversal of the tree gives for it, and to none if the
traversal gives none. -/
theorem resolve_lexical (source : String)
    (h : ∀ d ∈ (ofSource source).diagnostics, d.severity ≠ .error) (id : Identifier)
    (hid : id ∈ (ofSource source).root.preorder.filterMap Node.identifier?)
    (hlabel : id ∉ (ofSource source).root.preorder.flatMap Node.labels) (d : Option Binding) :
    (id, d) ∈ (ofSource source).root.uses [] ↔ (ofSource source).block.resolve? id = d := by
  have htidy := tidy_of_no_error h
  obtain ⟨n, hn, hname⟩ := List.mem_filterMap.1 hid
  rw [Node.identifier_eq_of_identifier? hname] at hn
  obtain ⟨d', hd'⟩ : ∃ d', (id, d') ∈ (ofSource source).root.uses [] :=
    Node.exists_mem_uses hn hlabel
  have hresolve : (ofSource source).block.resolve? id = d' := Block.resolve?_eq_of_uses htidy hd'
  rw [hresolve]
  refine ⟨fun hd => htidy.uses_unique hd' hd, ?_⟩
  rintro rfl
  exact hd'

theorem resolve_lexical_repeat :
    let source := "local x = 1 repeat local x = x until x"
    let keyword : Token := ⟨.keyword .local_, "local", ⟨19, 24⟩, [⟨.whitespace, " ", ⟨18, 19⟩⟩]⟩
    let inner : Identifier := ⟨.ident, "x", ⟨25, 26⟩, [⟨.whitespace, " ", ⟨24, 25⟩⟩]⟩
    let cond : Identifier := ⟨.ident, "x", ⟨37, 38⟩, [⟨.whitespace, " ", ⟨36, 37⟩⟩]⟩
    (∀ d ∈ (ofSource source).diagnostics, d.severity ≠ .error)
      ∧ cond ∈ (ofSource source).root.preorder.filterMap Node.identifier?
      ∧ cond ∉ (ofSource source).root.preorder.flatMap Node.labels
      ∧ (ofSource source).block.resolve? cond = some (.named .local_ keyword inner) := by
  intro source keyword inner cond
  have h : ∀ d ∈ (ofSource source).diagnostics, d.severity ≠ .error := by decide +kernel
  have hid : cond ∈ (ofSource source).root.preorder.filterMap Node.identifier? := by
    decide +kernel
  have hlabel : cond ∉ (ofSource source).root.preorder.flatMap Node.labels := by decide +kernel
  have huse : (cond, some (.named .local_ keyword inner)) ∈ (ofSource source).root.uses [] := by
    decide +kernel
  exact ⟨h, hid, hlabel, (resolve_lexical source h cond hid hlabel _).1 huse⟩

end Parsed

end LuaFront
