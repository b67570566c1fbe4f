import LuaFront.Proofs.Chunk.Completeness
import LuaFront.Proofs.Chunk.Lossless
import LuaFront.Proofs.Lexeme.Stacked
import LuaFront.Proofs.Scope.Displaced
import LuaFront.Proofs.Scope.Ordered

/-!
Chunks that are still being written. Such a chunk may end with the head of a statement and what is
written of the last block of that statement so far, which again may be unfinished.
-/

namespace LuaFront

/-- Where a name is declared, and as what. -/
structure Site where
  name : String
  kind : BindingKind
  span : Span
  deriving DecidableEq

def Site.shift (s : Site) (distance : Nat) : Site := { s with span := s.span.shift distance }

lemma Site.shift_shift (s : Site) (first second : Nat) :
    (s.shift first).shift second = s.shift (second + first) := by
  simp [shift, Span.shift, Nat.add_assoc, Nat.add_comm second]

def Binding.site (b : Binding) : Site := ⟨b.name, b.kind, b.id.token.span⟩

open Displacement in
/-- The bindings of a text that begins further on are declared further on. -/
lemma Binding.sites_eq {distance : Nat} {bs cs : List Binding}
    (h : bs.map (plain distance).binding = cs.map (plain 0).binding)
    (hbs : ∀ b ∈ bs, ((plain distance).span b.id.token.span).shift distance = b.id.token.span) :
    bs.map site = cs.map (·.site.shift distance) := by
  have hplain : bs.map site = (bs.map (plain distance).binding).map (·.site.shift distance) := by
    rw [List.map_map]
    exact List.map_congr_left fun b hb => congrArg (Site.mk b.name b.kind) (hbs b hb).symm
  rw [hplain, h, List.map_map]
  rfl

/-- The places that are visible are those that lookup finds. -/
lemma Binding.mem_sites_distinct {bs : List Binding} {place : Site} :
    place ∈ (distinct bs).map site
      ↔ (bs.map site).reverse.find? (·.name = place.name) = some place := by
  have hfind : (bs.map site).reverse.find? (·.name = place.name)
      = (bs.reverse.find? (·.name = place.name)).map site := by
    rw [← List.map_reverse, List.find?_map]
    rfl
  rw [hfind, Option.map_eq_some_iff, List.mem_map]
  constructor
  · rintro ⟨b, hb, rfl⟩
    exact ⟨b, mem_distinct_iff.1 hb, rfl⟩
  · rintro ⟨b, hb, rfl⟩
    exact ⟨b, mem_distinct_iff.2 hb, rfl⟩

namespace Parsed

/-! ### Open chunks -/

/-- A chunk about which nothing is reported, and which does not end with a return statement. -/
structure Finished (source : String) : Prop where
  clean : (ofSource source).diagnostics = []
  returns : ∀ s ∈ (ofSource source).block.stats.getLast?, s.isReturn = false

/-- The names that the statements of a chunk declare for what comes after them. -/
def sites (source : String) : List Site :=
  ((ofSource source).block.stats.flatMap fun s => (Node.stat s).locals).map Binding.site

/-- The head of a statement. With what closes the last block of the statement on the next line it
is that statement, about which nothing is reported. -/
structure Head (head closer : String) (a : Stat) : Prop where
  lexed : (Lexed.ofSource head).diagnostics = []
  clean : (ofSource (head ++ "\n" ++ closer)).diagnostics = []
  stats : (ofSource (head ++ "\n" ++ closer)).block.stats = [a]
  shut : a.Shut closer

/-- A chunk that may end with the head of a statement, on the next line followed by what is written
of its last block; and all names that are declared in it where it is still open. -/
inductive Open : String → List Site → Prop
  | closed {p : String} (h : Finished p) : Open p (sites p)
  | opened {p head closer upper body source : String} {a : Stat} {above below : Nat}
    {more : List Site} (hp : Finished p) (hhead : Head head closer a) (hbody : Open body more)
    (hupper : Text.Stacked p head above upper) (hsource : Text.Stacked upper body below source) :
    Open source (sites p ++ (a.lent.map (·.site.shift above) ++ more.map (·.shift below)))

/-! ### Clean chunks -/

section Clean

variable {source : String} {a : Stat}

lemma complete_of_clean (h : (ofSource source).diagnostics = []) :
    (ofSource source).root.All Node.Complete :=
  (complete_of_no_error source (by simp [h])).1

lemma stat_mem_root (ha : a ∈ (ofSource source).block.stats) :
    .stat a ∈ (ofSource source).root.children := by
  simpa [root, Node.children, Node.parts, Part.node?] using ha

lemma name_of_clean (h : (ofSource source).diagnostics = [])
    (ha : a ∈ (ofSource source).block.stats) {id : Identifier}
    (hid : id.token ∈ (Node.stat a).tokens) : id.name ≠ "" := by
  have hmem := Node.mem_tokens_of_child (stat_mem_root ha) hid
  obtain ⟨_, -, -, hkind⟩ := tokens_lossless source
  have hpresent := Node.present_of_complete (complete_of_clean h) hmem
  simpa [Token.isMissing, (hkind _ hmem).1, Identifier.name] using hpresent

end Clean

namespace Finished

variable {p : String}

lemma not_return (h : Finished p) : ∀ s ∈ (ofSource p).block.stats, s.isReturn = false := by
  intro s hs
  have hsound : (ofSource p).root.Sound :=
    (complete_of_clean h.clean _ (Node.self_mem_preorder _)).sound
  rcases List.eq_nil_or_concat (ofSource p).block.stats with hnil | ⟨front, last, hstats⟩
  · simp [hnil] at hs
  · rw [hstats, List.concat_eq_append, List.mem_append, List.mem_singleton] at hs
    rcases hs with hs | rfl
    · exact hsound s (by simpa [hstats] using hs)
    · exact h.returns s (by simp [hstats])

/-- Nothing is missing from the statements of such a chunk where they are read further on. -/
lemma whole (h : Finished p) {distance : Nat} {l : List Stat}
    (hl : l.map (Displacement.plain distance).stat
      = (ofSource p).block.stats.map (Displacement.plain 0).stat) :
    ∀ a ∈ l, (Node.stat a).Whole := by
  intro a ha
  have hmem : (Displacement.plain distance).stat a
      ∈ (ofSource p).block.stats.map (Displacement.plain 0).stat := hl ▸ List.mem_map_of_mem ha
  obtain ⟨c, hc, heq⟩ := List.mem_map.1 hmem
  have hwhole : (Node.stat c).Whole := .of_complete
    ((Node.all_iff.1 (complete_of_clean h.clean)).2 _ (stat_mem_root hc))
  have hmoved : ((Displacement.plain 0).node (.stat c)).Whole := Node.whole_node.2 hwhole
  rw [Displacement.node_stat, heq, ← Displacement.node_stat] at hmoved
  exact Node.whole_node.1 hmoved

/-- What such a chunk declares is declared further on where it is read there. -/
lemma declares (h : Finished p) {distance : Nat} {l : List Stat}
    (hl : l.map (Displacement.plain distance).stat
      = (ofSource p).block.stats.map (Displacement.plain 0).stat)
    (hspan : ∀ a ∈ l, ∀ t ∈ (Node.stat a).tokens, t.isMissing = false →
      ((Displacement.plain distance).span t.span).shift distance = t.span) :
    (l.flatMap fun a => (Node.stat a).locals).map Binding.site
      = (sites p).map (·.shift distance) := by
  have hlocals : ∀ (m : Displacement) (l : List Stat),
      (l.flatMap fun a => (Node.stat a).locals).map m.binding
        = (l.map m.stat).flatMap fun a => (Node.stat a).locals := fun m l => by
    simp [List.map_flatMap, List.flatMap_map, Displacement.locals_stat]
  rw [sites, List.map_map]
  refine Binding.sites_eq (by rw [hlocals, hl, ← hlocals]) fun c hc => ?_
  obtain ⟨a, ha, hc⟩ := List.mem_flatMap.1 hc
  have htoken := (Node.locals_sublist (.stat a)).subset (List.mem_map_of_mem hc)
  exact hspan a ha _ htoken ((h.whole hl a ha).present _ htoken)

lemma named (h : Finished p) : ∀ place ∈ sites p, place.name ≠ "" := by
  simp only [sites, List.forall_mem_map, List.mem_flatMap]
  rintro c ⟨a, ha, hc⟩
  have hname : c.name = c.id.name := Node.name_of_declared (Node.declared_of_locals hc)
  rw [Binding.site, hname]
  exact name_of_clean h.clean ha ((Node.locals_sublist (.stat a)).subset (List.mem_map_of_mem hc))

end Finished

namespace Head

variable {head closer : String} {a : Stat}

/-- What the statement declares for its last block is there. -/
lemma present (h : Head head closer a) : ∀ c ∈ a.lent, c.id.token.isMissing = false := by
  intro c hc
  have hchild := stat_mem_root (h.stats ▸ List.mem_singleton_self a)
  exact Node.present_of_complete (complete_of_clean h.clean)
    (Node.mem_tokens_of_child hchild (Stat.mem_tokens_of_lent hc))

lemma named (h : Head head closer a) : ∀ c ∈ a.lent, c.name ≠ "" := fun _ hc =>
  Stat.name_of_lent hc
    (name_of_clean h.clean (h.stats ▸ List.mem_singleton_self a) (Stat.mem_tokens_of_lent hc))

/-- What a statement with the same head declares for its last block is declared further on. -/
lemma sites_eq (h : Head head closer a) {distance : Nat} {b : Stat}
    (hlent : b.lent.map (Displacement.plain distance).binding
      = a.lent.map (Displacement.plain 0).binding)
    (hspan : ∀ t ∈ (Node.stat b).tokens, t.isMissing = false →
      ((Displacement.plain distance).span t.span).shift distance = t.span) :
    b.lent.map Binding.site = a.lent.map (·.site.shift distance) := by
  refine Binding.sites_eq hlent fun c hc => hspan _ (Stat.mem_tokens_of_lent hc) ?_
  have hmem : (Displacement.plain distance).binding c ∈ a.lent.map (Displacement.plain 0).binding :=
    hlent ▸ List.mem_map_of_mem hc
  obtain ⟨e, he, heq⟩ := List.mem_map.1 hmem
  exact (congrArg (·.id.token.isMissing) heq).symm.trans (h.present e he)

end Head

/-- Each name that is declared in such a chunk is one. -/
lemma Open.named {source : String} {places : List Site} (h : Open source places) :
    ∀ place ∈ places, place.name ≠ "" := by
  induction h with
  | closed hp => exact hp.named
  | opened hp hhead hbody hupper hsource ih =>
    simp only [List.mem_append, List.mem_map]
    rintro place (hplace | ⟨c, hc, rfl⟩ | ⟨inner, hinner, rfl⟩)
    · exact hp.named place hplace
    · exact hhead.named c hc
    · exact ih inner hinner

end Parsed

end LuaFront
