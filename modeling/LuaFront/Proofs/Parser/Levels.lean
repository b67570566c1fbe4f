import LuaFront.Grammar.Chunk
import LuaFront.Proofs.Parser.Ensures

/-!
What the parsers of a level promise to those of the level around it, and what lists keep of the
promises of their items.
-/

namespace LuaFront.Grammar

open Parse ParseState

variable {α : Type} {depth n : Nat} {s₀ : ParseState} {good : Prop} {ps : List Part}
  {kind : TokenKind}

/-- What holds of the bottom at the depth that no state has, and is handed on from each level to the
one around it, holds of all levels at the depths where they are run. -/
lemma level_induct {P : (k : Nat) → (depth : Nat) → Prop} (hbottom : P 0 (maxDepth + 1))
    (haround : ∀ {k depth}, P k (depth + 1) → P (k + 1) depth) {k : Nat} (hk : k ≤ maxDepth + 1) :
    P k (maxDepth + 1 - k) := by
  induction k with
  | zero => exact hbottom
  | succ k ih =>
    have hinner := ih (Nat.le_of_succ_le hk)
    rw [show maxDepth + 1 - k = maxDepth + 1 - (k + 1) + 1 by omega] at hinner
    exact haround hinner

/-- At a depth the parsers of a level read what they return, and no more. An expression that may be
missing is only read when something has been read before. -/
structure Level.Good (l : Level) (depth : Nat) : Prop where
  expr : ∀ power s₀ n good ps kind, 0 < n + kind.lead →
    Ensures (Facing kind (Reached depth s₀ n good ps)) (l.expr power)
      fun e => Reached depth s₀ (n + kind.lead) good (ps ++ [.node (.ofExpr e)])
  operators : ∀ power first s₀ n good ps,
    Ensures (Reached depth s₀ (n + 1) good (ps ++ [.node (.ofExpr first)]))
      (l.operators power first)
      fun e => Reached depth s₀ (n + 1) good (ps ++ [.node (.ofExpr e)])
  suffixes : ∀ calls base s₀ n good ps,
    Ensures (Reached depth s₀ (n + 1) good (ps ++ [.node (.ofExpr base)])) (l.suffixes calls base)
      fun e => Reached depth s₀ (n + 1) good (ps ++ [.node (.ofExpr e)])
  block : ∀ anchor s₀ n good ps, Ensures (Reached depth s₀ n good ps) (l.block anchor)
    fun b s => b.anchor = anchor
      ∧ Reached depth s₀ n (good ∧ (Node.block b).Sound) (ps ++ (Node.block b).parts) s

/-- No state is as deep as the bottom. -/
lemma Level.bottom_good : Level.bottom.Good (maxDepth + 1) := by
  have hnone : ∀ {s₀ n good ps s}, ¬ Reached (maxDepth + 1) s₀ n good ps s := by
    intro s₀ n good ps s h
    have := h.valid.depth
    have := h.depth_eq
    omega
  constructor
  · exact fun power s₀ n good ps kind _ s hs => absurd hs.2 hnone
  · exact fun power first s₀ n good ps s hs => absurd hs hnone
  · exact fun calls base s₀ n good ps s hs => absurd hs hnone
  · exact fun anchor s₀ n good ps s hs => absurd hs hnone

/-! ### Lists -/

/-- An item is read as a node, after something else. -/
def Item (depth : Nat) (node : α → Node) (item : Parse α) : Prop :=
  ∀ s₀ n good ps, Ensures (Reached depth s₀ (n + 1) good ps) item
    fun a => Reached depth s₀ (n + 1) good (ps ++ [.node (node a)])

lemma reached_identifier {t : Token} {s : ParseState} (ht : t.kind = .ident)
    (h : Reached depth s₀ n good (ps ++ [Part.token t]) s) :
    Reached depth s₀ n good (ps ++ [Part.node (.identifier ⟨t⟩)]) s :=
  h.close (.identifier ⟨t⟩) (Nat.zero_le 1) rfl (by simp [Node.parts]) ht fun _ _ => trivial

lemma identifier_item : Item depth .identifier identifier := by
  intro s₀ n good ps
  refine (expect_ensures (by decide)).bindFact fun t ht => Ensures.ret fun s h => ?_
  exact reached_identifier ht h

section Items

variable {node : α → Node} {item : Parse α}

lemma moreItems_ensures (hitem : Item depth node item) (bound : Nat) (list : Separated α)
    (hlist : list.Listed) :
    Ensures (Reached depth s₀ (n + 1) good (ps ++ list.parts node)) (moreItems item bound list)
      fun l s => l.Listed ∧ Reached depth s₀ (n + 1) good (ps ++ l.parts node) s := by
  induction bound generalizing list with
  | zero => exact Ensures.ret fun s h => ⟨hlist, h⟩
  | succ bound ih =>
    refine (take?_ensures (by decide)).bindFact fun found hfound => ?_
    cases found with
    | none => exact Ensures.ret fun s h => ⟨hlist, by simpa using h⟩
    | some comma =>
      refine (hitem _ _ _ _).bind fun next => ?_
      refine (ih _ (hlist.delimit_push (hfound comma rfl))).weaken fun s h => ?_
      simpa [Separated.parts_delimit node hlist.2] using h

lemma itemsAfter_ensures (hitem : Item depth node item) {anchor : Offset} {first : α} :
    Ensures (Reached depth s₀ (n + 1) good (ps ++ [Part.node (node first)]))
      (itemsAfter item anchor first)
      fun l s => l.Listed ∧ Reached depth s₀ (n + 1) good (ps ++ l.parts node) s := by
  refine remaining_ensures fun count => ?_
  refine (moreItems_ensures hitem count _ Separated.listed_singleton).weaken fun s h => ?_
  simpa using h.2

lemma commaList_ensures (hitem : Item depth node item) :
    Ensures (Reached depth s₀ (n + 1) good ps) (commaList item)
      fun l s => l.Listed ∧ Reached depth s₀ (n + 1) good (ps ++ l.parts node) s := by
  refine lastStop_ensures fun anchor => ?_
  exact ((hitem s₀ n good ps).weaken fun s h => h.2).bind fun first => itemsAfter_ensures hitem

end Items

/-! ### Blocks -/

/-- A block without statements stands where it begins. -/
lemma Level.Good.blockHere {l : Level} (hl : l.Good depth) :
    Ensures (Reached depth s₀ (n + 1) good ps) l.blockHere
      fun b => Reached depth s₀ (n + 1) good (ps ++ [Part.node (.block b)]) := by
  intro s h
  obtain ⟨hanchor, h'⟩ := hl.block s.cursor.lastStop s (n + 1) True [] s
    (h.depth_eq ▸ Reached.start h.valid h.pos)
  have hrun : l.blockHere.run s = (l.block s.cursor.lastStop).run s := rfl
  rw [hrun]
  generalize ((l.block s.cursor.lastStop).run s).1 = b at hanchor h' ⊢
  generalize ((l.block s.cursor.lastStop).run s).2 = s' at h' ⊢
  have hall := h.trans h'
  rcases hparts : (Node.block b).parts with _ | ⟨p, rest⟩
  · rw [hparts, List.append_nil, List.append_nil] at hall
    have hcursor := (hparts ▸ h'.reads).eq_of_nil
    refine (hall.closeEmpty (Nat.succ_pos n) (.block b) (Nat.zero_le 1)
      hparts ?_ trivial fun _ hg => hg.2.2).imp fun _ hg => hg.1
    rw [Node.anchor, hanchor, hcursor]
  · refine (hall.close (.block b) (Nat.zero_le 1)
      ?_ (by simp [hparts]) trivial fun _ hg => hg.2.2).imp fun _ hg => hg.1
    simp

end LuaFront.Grammar
