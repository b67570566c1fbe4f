import LuaFront.Proofs.Chunk.Outcome
import LuaFront.Proofs.Parser.Depth
import Mathlib.Tactic.Ring

/-!
How deep the tree of a text can be. The nesting limit bounds the levels that are open at one time.
The levels of an operand are left before the operators after it are counted, so that a tree can be
deeper than the limit, but not deeper than its square.
-/

namespace LuaFront

namespace Grammar

open Parse Node

variable {depth k e b : Nat}

lemma Level.Flat.mono {l : Level} (h : l.Flat k e b) {e' b' : Nat} (he : e ≤ e') (hb : b ≤ b') :
    l.Flat k e' b' where
  expr := h.expr.imp fun _ ha => ha.mono he
  operators hfirst := (h.operators hfirst).imp fun _ ha => ha.mono (by omega)
  suffixes hbase := (h.suffixes hbase).imp fun _ ha => ha.mono (by omega)
  block := h.block.imp fun _ ha => ha.mono hb
  expr_pos := Nat.lt_of_lt_of_le h.expr_pos he
  block_pos := Nat.lt_of_lt_of_le h.block_pos hb

lemma Level.bottom_flat : Level.bottom.Flat 0 1 1 where
  expr := .ret (shallow_invalid Nat.one_pos)
  operators hfirst := .ret (hfirst.mono (by omega))
  suffixes hbase := .ret (hbase.mono (by omega))
  block := .ret (.leaf (by simp [parts]) Nat.one_pos)
  expr_pos := Nat.one_pos
  block_pos := Nat.one_pos

lemma Level.Flat.around {inner : Level} [inner.Steady] (h : inner.Flat k e b) :
    inner.around.Flat (k + 1) (max b (e + k) + 1 + k) (max b (e + 1 + k) + 1) where
  expr := exprAround_returns h
  operators hfirst := (operatorsAround_returns h hfirst).imp fun _ ha => ha.mono (by omega)
  suffixes hbase := (suffixesAround_returns h hbase).imp fun _ ha => ha.mono (by omega)
  block := blockAround_returns h
  expr_pos := by omega
  block_pos := by omega

/-- With `k` levels an expression is no deeper than the square of `k`. -/
lemma level_flat (k : Nat) : (level k).Flat k (k ^ 2 + 1) (k ^ 2 + k + 1) := by
  induction k with
  | zero => exact Level.bottom_flat
  | succ k ih =>
    have hsquare : (k + 1) ^ 2 = k ^ 2 + 2 * k + 1 := by ring
    exact ih.around.mono (by omega) (by omega)

/-- What stands in the statements of a chunk. -/
lemma outermost_block_returns {anchor : Offset} :
    Returns depth (outermost.block anchor)
      fun a => ∀ s ∈ a.stats, (Node.stat s).Shallow (maxDepth ^ 2 + maxDepth + 2) := by
  have hblock := (level_flat maxDepth).around.mono (Nat.le_refl _)
    (by omega : _ ≤ maxDepth ^ 2 + maxDepth + 3)
  refine hblock.block.imp fun a ha s hs => ha.child rfl (mem_children.2 ?_)
  simpa [parts] using hs

lemma strays_returns {bound : Nat} : Returns depth (strays bound)
    fun l => ∀ s ∈ l, (Node.stat s).Shallow (maxDepth ^ 2 + maxDepth + 2) := by
  induction bound with
  | zero => exact .ret (by simp)
  | succ bound ih =>
    have hblock : Returns depth outermost.blockHere
        fun a => ∀ s ∈ a.stats, (Node.stat s).Shallow (maxDepth ^ 2 + maxDepth + 2) :=
      .any fun _ => outermost_block_returns
    refine .any fun found => .ite (.ret (by simp)) (.any fun stray => .error ?_)
    refine hblock.bind fun rest hrest => ih.bind fun more hmore => .ret ?_
    rw [List.cons_append, List.forall_mem_cons, List.forall_mem_append]
    exact ⟨.plain (by simp [parts, Stat.parts]) rfl, hrest, hmore⟩

lemma chunk_returns (s : ParseState) :
    (Node.block (chunk.run s).1).Shallow ((maxDepth + 1) ^ 2) := by
  have h : Returns s.depth chunk fun a => (Node.block a).Shallow ((maxDepth + 1) ^ 2) := by
    refine .any fun t => outermost_block_returns.bind fun first hfirst => .any fun count => ?_
    refine strays_returns.bind fun more hmore => .ret ?_
    refine (Shallow.level (b := maxDepth ^ 2 + maxDepth + 2) ?_).mono (by decide)
    simpa [parts] using ⟨hfirst, hmore⟩
  exact h s (.at_depth s)

end Grammar

/-- The nodes on the way that goes to the child with the given number at each node. -/
def Node.follow : List Nat → Node → List Node
  | [], n => [n]
  | i :: route, n =>
    match n.children[i]? with
    | some m => n :: m.follow route
    | none => [n]

lemma Node.descends_follow (route : List Nat) (n : Node) : n.Descends (n.follow route) := by
  induction route generalizing n with
  | nil => exact .here n
  | cons i route ih =>
    unfold follow
    split
    · next m hm => exact .step (List.mem_of_getElem? hm) (ih m)
    · exact .here n

namespace Parsed

/-- **The depth of a tree is bounded** by the square of the nesting limit. -/
theorem depth_le (source : String) (way : List Node) (h : (ofSource source).root.Descends way) :
    way.countP Node.isLevel ≤ (maxDepth + 1) ^ 2 :=
  Grammar.chunk_returns (.ofTokens (Lexed.ofSource source).tokens) way h

/-- A text of 198 nested operators, and three more around them, without an error. -/
theorem depth_exceeds_limit :
    ¬ ∀ source way, (ofSource source).root.Descends way →
      way.countP Node.isLevel ≤ maxDepth + 2 := by
  intro h
  have hdeep := h ("x=" ++ String.ofList (List.replicate 198 '#') ++ "1+1+1+1") _
    (Node.descends_follow (0 :: 1 :: List.replicate 201 0) _)
  exact absurd hdeep (by decide +kernel)

/-- Through nested operators, parentheses and a chain to the name that it begins with. -/
theorem depth_le_nested :
    let root := (ofSource "x = not -(a.b.c + 1) .. d").root
    let way := root.follow [0, 1, 0, 0, 0, 0, 0, 0, 0]
    root.Descends way ∧ way.countP Node.isLevel = 9
      ∧ way.countP Node.isLevel ≤ (maxDepth + 1) ^ 2 := by
  intro root way
  have h : root.Descends way := Node.descends_follow _ _
  exact ⟨h, by decide +kernel, depth_le _ way h⟩

end Parsed

end LuaFront
