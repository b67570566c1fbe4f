import LuaFront.Proofs.Parser.Displaced
import LuaFront.Proofs.Scope.Unclosed

/-!
Declarations in other places. With a statement the bindings are displaced that it declares, and the
form that it has.
-/

namespace LuaFront

namespace Displacement

variable (m : Displacement)

/-- A binding of displaced tokens. -/
def binding (b : Binding) : Binding := ⟨b.name, b.kind, m.identifier b.id, m.token b.decl⟩

variable {m}

lemma binding_named (kind : BindingKind) (decl : Token) (id : Identifier) :
    m.binding (.named kind decl id) = .named kind (m.token decl) (m.identifier id) := rfl

lemma declared_stat (s : Stat) : (m.stat s).declared = s.declared.map m.binding := by
  cases s with
  | local_ keyword names eq values =>
    simp [stat, Stat.declared, binding_named, Function.comp_def]
  | numericFor s =>
    obtain ⟨keyword, var, eq, start, comma, limit, last, opener, b, close⟩ := s
    rfl
  | genericFor s =>
    obtain ⟨keyword, names, in_, ⟨values, anchor⟩, opener, b, close⟩ := s
    simp [stat, genericFor, Stat.declared, binding_named, Function.comp_def]
  | _ => rfl

lemma declared_funcBody (f : FuncBody) : (m.funcBody f).declared = f.declared.map m.binding := by
  obtain ⟨opening, params, closing, b, close⟩ := f
  rw [FuncBody.declared, FuncBody.declared, funcBody, items_list, List.filterMap_map,
    List.map_filterMap]
  congr 1
  funext p
  cases p <;> rfl

lemma locals_stat (s : Stat) :
    (Node.stat (m.stat s)).locals = (Node.stat s).locals.map m.binding := by
  cases s with
  | local_ keyword names eq values => exact declared_stat (.local_ keyword names eq values)
  | _ => rfl

end Displacement

open Displacement in
/-- A displaced statement with nothing in its last block is such a statement. -/
lemma Stat.Shut.displaced {m : Displacement} {s : Stat} {closer : String} (h : s.Shut closer) :
    (m.stat s).Shut closer ∧ (m.stat s).lent = s.lent.map m.binding := by
  have hempty : ∀ {b : Block}, b.stats = [] → (m.block b).stats = [] := fun h => by
    rw [stats_block, h]
    rfl
  have hbody : ∀ {f : FuncBody}, f.block.stats = [] → (m.funcBody f).block.stats = [] := by
    rintro ⟨opening, params, closing, b, close⟩ h
    exact hempty h
  cases h with
  | do_ h => exact ⟨.do_ (hempty h), rfl⟩
  | while_ h => exact ⟨.while_ (hempty h), rfl⟩
  | repeat_ h => exact ⟨.repeat_ (hempty h), rfl⟩
  | then_ h => exact ⟨.then_ (hempty h), rfl⟩
  | else_ h => exact ⟨.else_ (hempty h), rfl⟩
  | @numericFor s h =>
    obtain ⟨keyword, var, eq, start, comma, limit, last, opener, b, close⟩ := s
    exact ⟨.numericFor (hempty h), declared_stat (.numericFor _)⟩
  | @genericFor s h =>
    obtain ⟨keyword, names, in_, ⟨values, anchor⟩, opener, b, close⟩ := s
    exact ⟨.genericFor (hempty h), declared_stat (.genericFor _)⟩
  | @function keyword name method f h =>
    refine ⟨.function (hbody h), ?_⟩
    rw [lent, List.map_append, ← declared_funcBody]
    cases method <;> rfl
  | @localFunction keyword second name f h =>
    exact ⟨.localFunction (hbody h),
      congrArg (Binding.named .localFunction (m.token keyword) (m.identifier name) :: ·)
        (declared_funcBody f)⟩
  | @value keyword names eq second f anchor h => exact ⟨.value (hbody h), declared_funcBody f⟩
  | @argument callee opening second f anchor closing h =>
    exact ⟨.argument (hbody h), declared_funcBody f⟩

/-- What is missing from a part is missing where the part is displaced. -/
lemma Node.whole_node {m : Displacement} {n : Node} : (m.node n).Whole ↔ n.Whole := by
  have htokens := Displacement.tokens_node (m := m) n
  constructor
  · refine fun h => ⟨fun hnil => h.read (by rw [htokens, hnil]; rfl), fun t ht => ?_⟩
    have hpresent := h.present (m.token t) (htokens ▸ List.mem_map_of_mem ht)
    rwa [Displacement.isMissing_token] at hpresent
  · refine fun h => ⟨fun hnil => h.read (List.map_eq_nil_iff.1 (htokens ▸ hnil)), fun t ht => ?_⟩
    obtain ⟨u, hu, rfl⟩ := List.mem_map.1 (htokens ▸ ht)
    rw [Displacement.isMissing_token]
    exact h.present u hu

end LuaFront
