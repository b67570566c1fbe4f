import LuaFront.Proofs.Scope.Declared
import Mathlib.Data.List.Induction
import Mathlib.Data.List.Nodup
import Mathlib.Tactic.Lemma

/-!
One binding for each name. Of all bindings that enclose an offset the last one of each name is
visible; it stands where the first one of its name stood. Looking for one name finds the same
binding.
-/

namespace LuaFront

namespace Binding

variable {b c : Binding} {bs : List Binding} {x : String}

lemma distinct_concat (bs : List Binding) (b : Binding) :
    distinct (bs ++ [b]) = b.put (distinct bs) := by
  rw [distinct, distinct, List.foldl_append]
  rfl

lemma find?_put (b : Binding) (bs : List Binding) (x : String) :
    (b.put bs).find? (·.name = x) = if b.name = x then some b else bs.find? (·.name = x) := by
  induction bs with
  | nil => by_cases hx : b.name = x <;> simp [put, hx]
  | cons c rest ih =>
    rw [put]
    split
    · next hname =>
      by_cases hx : b.name = x
      · simp [hx]
      · simp [hx, hname]
    · next hname =>
      by_cases hx : c.name = x
      · simp [← hx, Ne.symm hname]
      · simp [hx, ih]

lemma names_put (b : Binding) (bs : List Binding) :
    (b.put bs).map (·.name)
      = if b.name ∈ bs.map (·.name) then bs.map (·.name) else bs.map (·.name) ++ [b.name] := by
  induction bs with
  | nil => rfl
  | cons c rest ih =>
    rw [put]
    split
    · next hname => simp [hname]
    · next hname =>
      rw [List.map_cons, ih]
      by_cases hmem : b.name ∈ rest.map (·.name) <;> simp [hmem, Ne.symm hname]

/-- The name that is looked up is that of the last binding. -/
lemma find?_distinct (bs : List Binding) (x : String) :
    (distinct bs).find? (·.name = x) = bs.reverse.find? (·.name = x) := by
  induction bs using List.reverseRecOn with
  | nil => rfl
  | append_singleton bs b ih =>
    rw [distinct_concat, find?_put, ih, List.reverse_concat, List.find?_cons]
    by_cases hx : b.name = x <;> simp [hx]

lemma mem_names_distinct : x ∈ (distinct bs).map (·.name) ↔ x ∈ bs.map (·.name) := by
  have hsome : ((distinct bs).find? (·.name = x)).isSome
      ↔ (bs.reverse.find? (·.name = x)).isSome := by
    rw [find?_distinct]
  simpa using hsome

/-- Hidden or not, each binding leaves one of its name. -/
lemma exists_mem_distinct (hb : b ∈ bs) : ∃ c ∈ distinct bs, c.name = b.name :=
  List.mem_map.1 (mem_names_distinct.2 (List.mem_map_of_mem hb))

lemma names_nodup (bs : List Binding) : ((distinct bs).map (·.name)).Nodup := by
  induction bs using List.reverseRecOn with
  | nil => exact List.nodup_nil
  | append_singleton bs b ih =>
    rw [distinct_concat, names_put]
    split
    · exact ih
    · next hnew => exact List.nodup_append.2 ⟨ih, List.nodup_singleton _, by simpa using hnew⟩

/-- **The visible bindings are those that lookup finds.** -/
theorem mem_distinct_iff : b ∈ distinct bs ↔ bs.reverse.find? (·.name = b.name) = some b := by
  rw [← find?_distinct]
  refine ⟨fun hb => ?_, List.mem_of_find?_eq_some⟩
  cases hfind : (distinct bs).find? (·.name = b.name) with
  | none => simpa using List.find?_eq_none.1 hfind b hb
  | some c =>
    have hname : c.name = b.name := by simpa using List.find?_some hfind
    exact congrArg some (List.inj_on_of_nodup_map (names_nodup bs)
      (List.mem_of_find?_eq_some hfind) hb hname)

lemma mem_of_mem_distinct (hb : b ∈ distinct bs) : b ∈ bs :=
  List.mem_reverse.1 (List.mem_of_find?_eq_some (mem_distinct_iff.1 hb))

/-- The names come in the order of their first bindings. -/
theorem names_ordered (bs : List Binding) :
    ((distinct bs).map (·.name)).Pairwise fun x y =>
      ∀ b c, bs.find? (·.name = x) = some b → bs.find? (·.name = y) = some c →
        [b, c].Sublist bs := by
  induction bs using List.reverseRecOn with
  | nil => exact List.Pairwise.nil
  | append_singleton bs d ih =>
    have hkept : ∀ x ∈ (distinct bs).map (·.name), ∀ b,
        (bs ++ [d]).find? (·.name = x) = some b → bs.find? (·.name = x) = some b := by
      intro x hx b hb
      have hsome : (bs.find? (·.name = x)).isSome := by
        simpa [List.find?_isSome] using mem_names_distinct.1 hx
      rwa [List.find?_append, Option.or_of_isSome hsome] at hb
    have hold : ((distinct bs).map (·.name)).Pairwise fun x y =>
        ∀ b c, (bs ++ [d]).find? (·.name = x) = some b → (bs ++ [d]).find? (·.name = y) = some c →
          [b, c].Sublist (bs ++ [d]) := by
      refine ih.imp_of_mem fun hx hy hxy b c hb hc => ?_
      exact (hxy b c (hkept _ hx b hb) (hkept _ hy c hc)).trans (List.sublist_append_left _ _)
    rw [distinct_concat, names_put]
    split
    · exact hold
    · next hnew =>
      refine List.pairwise_append.2 ⟨hold, List.pairwise_singleton _ _, ?_⟩
      intro x hx y hy b c hb hc
      obtain rfl := List.mem_singleton.1 hy
      have hnone : bs.find? (·.name = d.name) = none := by
        simpa [List.find?_eq_none] using fun h => hnew (mem_names_distinct.2 h)
      rw [List.find?_append, hnone] at hc
      obtain rfl : d = c := by simpa using hc
      have hb := List.mem_of_find?_eq_some (hkept x hx b hb)
      exact (List.singleton_sublist.2 hb).append (List.Sublist.refl [d])

/-- Of bindings with distinct names no more than the first one of a name has it. -/
lemma filter_name (h : (bs.map (·.name)).Nodup) (x : String) :
    bs.filter (·.name = x) = (bs.find? (·.name = x)).toList := by
  induction bs with
  | nil => rfl
  | cons b bs ih =>
    obtain ⟨hb, hbs⟩ := List.nodup_cons.1 h
    by_cases hx : b.name = x
    · have hnone : bs.filter (·.name = x) = [] := by
        rw [List.filter_eq_nil_iff]
        intro c hc hname
        have hmem := List.mem_map_of_mem (f := (·.name)) hc
        rw [of_decide_eq_true hname, ← hx] at hmem
        exact hb hmem
      simp [hx, hnone]
    · simpa [hx] using ih hbs

end Binding

namespace Block

lemma lookup?_visible (root : Block) (pos : Offset) (name : String) :
    root.lookup? pos name = (root.visible pos).find? (·.name = name) := by
  rw [lookup?_eq, visible, Binding.find?_distinct]

/-- **Looking for a name finds what stands under it among all that is visible**, and nothing else:
the frames searched from the innermost one outwards, each from its end, give the binding that is
left when all of them are written over each other from the outermost one on. -/
theorem lookups_agree (root : Block) (pos : Offset) (name : String) :
    (root.lookup? pos name).toList = (root.visible pos).filter (·.name = name)
      ∧ (root.lookup? pos name = none ↔ name ∉ (root.visible pos).map (·.name))
      ∧ ((root.visible pos).map (·.name)).Nodup
      ∧ "" ∉ (root.visible pos).map (·.name) := by
  have hnodup : ((root.visible pos).map (·.name)).Nodup := Binding.names_nodup _
  refine ⟨?_, ?_, hnodup, ?_⟩
  · rw [lookup?_visible, Binding.filter_name hnodup]
  · rw [lookup?_visible, List.find?_eq_none]
    simp
  · intro hmem
    obtain ⟨b, hb, hname⟩ := List.mem_map.1 (Binding.mem_names_distinct.1 hmem)
    exact (Node.mem_enclosing_cases hb).1 hname

end Block

end LuaFront
