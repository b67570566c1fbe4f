import LuaFront.Proofs.Parser.Limit
import LuaFront.Proofs.Parser.Reading
import LuaFront.Proofs.Tree.Form

/-!
What a parser leaves behind. A state is reached from an earlier one by reading parts of a tree:
the marks of the parts are what the cursor passed, each part has its form, and unless something
was reported or an invalid token read, each part is complete. A node is closed by putting it in the
place of its own parts.
-/

namespace LuaFront

namespace Part

def All (P : Node → Prop) : Part → Prop
  | token _ => True
  | node n => n.All P

def Complete : Part → Prop
  | token t => t.isMissing = false ∧ t.kind ≠ .invalid
  | node n => n.All Node.Complete

end Part

namespace ParseState

/-- What holds of the state between any two steps of a parser. -/
structure Valid (s : ParseState) : Prop where
  eof : s.cursor.eof.kind = .eof
  depth : s.depth ≤ maxDepth
  gaveUp : s.tooDeep → s.cursor.current.kind = .eof ∧ s.log.entries ≠ []
  severity : ∀ d ∈ s.log.entries, d.severity = .error

/-- At any depth that there is, the same is known of a state. -/
lemma Valid.atDepth {s : ParseState} {depth : Nat} (h : s.Valid) (hdepth : depth ≤ maxDepth) :
    { s with depth := depth : ParseState }.Valid := ⟨h.eof, hdepth, h.gaveUp, h.severity⟩

lemma Valid.outward {s : ParseState} (h : s.Valid) :
    { s with depth := s.depth - 1 : ParseState }.Valid :=
  h.atDepth (Nat.le_trans (Nat.sub_le _ _) h.depth)

lemma Valid.inside {s : ParseState} (h : s.Valid) : { s with depth := 1 : ParseState }.Valid :=
  h.atDepth (by decide : 1 ≤ maxDepth)

/-- Where tokens are left, nothing was given up. -/
lemma Valid.going {s : ParseState} (h : s.Valid) (hkind : s.cursor.current.kind ≠ .eof) :
    s.tooDeep = false := Bool.eq_false_iff.2 fun hgave => hkind (h.gaveUp hgave).1

/-- Nothing was reported, and the lexer found nothing wrong with the tokens consumed. -/
structure Clean (s : ParseState) : Prop where
  log : s.log.entries = []
  read : ∀ t ∈ s.cursor.behind, t.isMissing = false ∧ t.kind ≠ .invalid

/-- The state comes after `s₀`, at a depth, by reading parts. At least `n` tokens are behind it,
and `good` holds if the state is clean. -/
structure Progress (depth : Nat) (s₀ : ParseState) (n : Nat) (good : Prop) (ps : List Part)
    (s : ParseState) : Prop where
  valid : s.Valid
  depth_eq : s.depth = depth
  tooDeep : s₀.tooDeep → s.tooDeep
  log : s₀.log.entries <+: s.log.entries
  reads : s₀.cursor.Reads (ps.flatMap Part.marks) s.cursor
  pos : n ≤ s.cursor.pos
  form : ∀ p ∈ ps, p.All Node.Form
  complete : s.Clean → ∀ p ∈ ps, p.Complete
  good : s.Clean → good

namespace Progress

variable {depth n m : Nat} {s₀ s s' : ParseState} {good other : Prop} {ps qs : List Part}

lemma start (h : s.Valid) (hn : n ≤ s.cursor.pos) : Progress s.depth s n True [] s where
  valid := h
  depth_eq := rfl
  tooDeep := id
  log := List.prefix_refl _
  reads := .refl
  pos := hn
  form := by simp
  complete := by simp
  good := fun _ => trivial

/-- A clean state is only reached from clean ones. -/
lemma clean (h : Progress depth s₀ n good ps s) (hs : s.Clean) : s₀.Clean where
  log := List.prefix_nil.1 (hs.log ▸ h.log)
  read := by
    obtain ⟨l, -, hback, -⟩ := h.reads.exists_consumed
    intro t ht
    exact hs.read t (by simp [hback, ht])

lemma trans (h : Progress depth s₀ n good ps s) (h' : Progress depth s m other qs s') :
    Progress depth s₀ m (good ∧ other) (ps ++ qs) s' where
  valid := h'.valid
  depth_eq := h'.depth_eq
  tooDeep := h'.tooDeep ∘ h.tooDeep
  log := h.log.trans h'.log
  reads := by simpa using h.reads.trans h'.reads
  pos := h'.pos
  form := by simpa [or_imp, forall_and] using ⟨h.form, h'.form⟩
  complete hs := by
    simpa [or_imp, forall_and] using ⟨h.complete (h'.clean hs), h'.complete hs⟩
  good hs := ⟨h.good (h'.clean hs), h'.good hs⟩

lemma mono (h : Progress depth s₀ n good ps s) (hm : m ≤ n) : Progress depth s₀ m good ps s :=
  { h with pos := Nat.le_trans hm h.pos }

lemma imp (h : Progress depth s₀ n good ps s) (hg : s.Clean → good → other) :
    Progress depth s₀ n other ps s :=
  { h with good := fun hs => hg hs (h.good hs) }

/-- Where something was reported, nothing more is promised. -/
lemma fail (h : Progress depth s₀ n good ps s) (hlog : s.log.entries ≠ []) :
    Progress depth s₀ n False ps s :=
  h.imp fun hs _ => hlog hs.log

lemma not_clean (h : Progress depth s₀ n False ps s) : ¬ s.Clean := h.good

/-- After an error a missing token may be put where the last token ended. -/
lemma missing {kind : TokenKind} (h : Progress depth s₀ n False ps s) (hn : 0 < n)
    (hkind : kind ≠ .eof) :
    Progress depth s₀ n good (ps ++ [Part.token (.missing kind s.cursor.lastStop)]) s := by
  refine { h with reads := ?_, form := ?_, complete := ?_, good := ?_ }
  · simpa [Part.marks] using h.reads.missing hkind (Nat.lt_of_lt_of_le hn h.pos)
  · simpa [or_imp, forall_and, Part.All] using h.form
  · exact fun hs => absurd hs h.not_clean
  · exact fun hs => absurd hs h.not_clean

/-! ### Closing nodes -/

/-- A node takes the place of its parts. -/
lemma close (h : Progress depth s₀ n good qs s) (node : Node) (hqs : qs = ps ++ node.parts)
    (hparts : node.parts ≠ []) (hform : node.Form) (hsound : s.Clean → good → node.Sound) :
    Progress depth s₀ n good (ps ++ [Part.node node]) s := by
  subst hqs
  refine { h with reads := ?_, form := ?_, complete := ?_ }
  · simpa [Part.marks, Node.marks_of_parts hparts] using h.reads
  · have hall := h.form
    simp only [List.mem_append, or_imp, forall_and] at hall
    simp only [List.mem_append, or_imp, forall_and, List.mem_singleton, forall_eq]
    exact ⟨hall.1, Node.all_iff.2 ⟨hform, fun m hm => hall.2 _ (Node.mem_children.1 hm)⟩⟩
  · intro hs
    have hall := h.complete hs
    simp only [List.mem_append, or_imp, forall_and] at hall
    simp only [List.mem_append, or_imp, forall_and, List.mem_singleton, forall_eq]
    refine ⟨hall.1, Node.all_iff.2 ⟨⟨hform, hsound hs (h.good hs), ?_⟩, ?_⟩⟩
    · exact fun t ht => (hall.2 _ ht).1
    · exact fun m hm => hall.2 _ (Node.mem_children.1 hm)

/-- A node without parts stands where the last token ended. -/
lemma closeEmpty (h : Progress depth s₀ n good ps s) (hn : 0 < n) (node : Node)
    (hparts : node.parts = []) (hanchor : node.anchor = s.cursor.lastStop) (hform : node.Form)
    (hsound : s.Clean → good → node.Sound) :
    Progress depth s₀ n good (ps ++ [Part.node node]) s := by
  have hchildren : node.children = [] := by simp [Node.children, hparts]
  refine { h with reads := ?_, form := ?_, complete := ?_ }
  · simpa [Part.marks, Node.marks_of_no_parts hparts, hanchor] using
      h.reads.anchor (Nat.lt_of_lt_of_le hn h.pos)
  · simp only [List.mem_append, or_imp, forall_and, List.mem_singleton, forall_eq]
    exact ⟨h.form, Node.all_iff.2 ⟨hform, by simp [hchildren]⟩⟩
  · intro hs
    simp only [List.mem_append, or_imp, forall_and, List.mem_singleton, forall_eq]
    refine ⟨h.complete hs, Node.all_iff.2 ⟨⟨hform, hsound hs (h.good hs), ?_⟩, ?_⟩⟩
    · simp [hparts]
    · simp [hchildren]

end Progress

/-! ### Reaching a state -/

/-- The state is reached from `s₀` by reading parts, and the nesting limit has been watched. -/
structure Reached (depth : Nat) (s₀ : ParseState) (n : Nat) (good : Prop) (ps : List Part)
    (s : ParseState) : Prop extends Progress depth s₀ n good ps s where
  watched : Watched s₀ ps s

namespace Reached

variable {depth n m : Nat} {s₀ s s' : ParseState} {good other : Prop} {ps qs : List Part}

lemma start (h : s.Valid) (hn : n ≤ s.cursor.pos) : Reached s.depth s n True [] s :=
  ⟨.start h hn, .start s⟩

lemma trans (h : Reached depth s₀ n good ps s) (h' : Reached depth s m other qs s') :
    Reached depth s₀ m (good ∧ other) (ps ++ qs) s' :=
  ⟨h.toProgress.trans h'.toProgress, h.watched.trans h'.watched h.tooDeep h'.tooDeep⟩

lemma mono (h : Reached depth s₀ n good ps s) (hm : m ≤ n) : Reached depth s₀ m good ps s :=
  ⟨h.toProgress.mono hm, h.watched⟩

lemma imp (h : Reached depth s₀ n good ps s) (hg : s.Clean → good → other) :
    Reached depth s₀ n other ps s :=
  ⟨h.toProgress.imp hg, h.watched⟩

lemma fail (h : Reached depth s₀ n good ps s) (hlog : s.log.entries ≠ []) :
    Reached depth s₀ n False ps s :=
  ⟨h.toProgress.fail hlog, h.watched⟩

lemma missing {kind : TokenKind} (h : Reached depth s₀ n False ps s) (hn : 0 < n)
    (hkind : kind ≠ .eof) :
    Reached depth s₀ n good (ps ++ [Part.token (.missing kind s.cursor.lastStop)]) s :=
  ⟨h.toProgress.missing hn hkind,
    h.watched.mono (Part.adds_of_kept_eq (by simp [Part.kept, Part.node?]))⟩

lemma close (h : Reached depth s₀ n good qs s) (node : Node)
    (hskipped : node.skipped.length ≤ 1) (hqs : qs = ps ++ node.parts)
    (hparts : node.parts ≠ []) (hform : node.Form) (hsound : s.Clean → good → node.Sound) :
    Reached depth s₀ n good (ps ++ [Part.node node]) s := by
  refine ⟨h.toProgress.close node hqs hparts hform hsound, h.watched.mono ?_⟩
  rw [hqs]
  exact Part.adds_node (.inr ⟨rfl, hskipped⟩)

lemma closeEmpty (h : Reached depth s₀ n good ps s) (hn : 0 < n) (node : Node)
    (hskipped : node.skipped.length ≤ 1) (hparts : node.parts = [])
    (hanchor : node.anchor = s.cursor.lastStop) (hform : node.Form)
    (hsound : s.Clean → good → node.Sound) :
    Reached depth s₀ n good (ps ++ [Part.node node]) s := by
  refine ⟨h.toProgress.closeEmpty hn node hparts hanchor hform hsound, h.watched.mono ?_⟩
  have hadds := @Part.adds_node ps node [] (.inr ⟨rfl, hskipped⟩)
  rwa [hparts, List.append_nil] at hadds

end Reached

end ParseState

end LuaFront
