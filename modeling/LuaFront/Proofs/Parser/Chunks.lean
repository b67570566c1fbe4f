import LuaFront.Grammar.Chunk
import LuaFront.Proofs.Parser.Statements

/-!
Whole chunks. The promises of the levels hold from the bottom outwards, and a chunk is only left
at the end of input.
-/

namespace LuaFront.Grammar

open Parse ParseState

lemma Level.Good.around {inner : Level} {depth : Nat} (hinner : inner.Good (depth + 1)) :
    inner.around.Good depth where
  expr _ _ _ _ _ _ := exprAround_ensures hinner
  operators _ _ _ _ _ _ := operatorsAround_ensures hinner
  suffixes _ _ _ _ _ _ := suffixesAround_ensures hinner
  block _ _ _ _ _ := blockAround_ensures hinner

lemma level_good {k : Nat} (hk : k ≤ maxDepth + 1) : (level k).Good (maxDepth + 1 - k) :=
  level_induct (P := fun k => (level k).Good) Level.bottom_good (fun h => h.around) hk

lemma outermost_good : outermost.Good 0 := by
  simpa [outermost] using level_good (Nat.le_refl (maxDepth + 1))

section Chunk

variable {n : Nat} {s₀ : ParseState} {good : Prop} {ps : List Part}

/-- A token that strays stands before the statements after it. -/
lemma strayBlock_ensures {t : Token} :
    Ensures (Reached 0 s₀ n False (ps ++ [Part.token t])) outermost.blockHere
      fun b => Reached 0 s₀ n False
        (ps ++ [Part.node (.stat (.invalid none [t] t.span.start))] ++ (Node.block b).parts) := by
  refine lastStop_ensures fun anchor => ?_
  refine (outermost_good.block anchor _ _ _ _).consequence (fun s h => ?_) fun b s h =>
    h.2.imp fun _ hg => hg.1
  exact h.2.close (.stat (.invalid none [t] t.span.start)) (Nat.le_refl 1)
    rfl (by simp [Node.parts, Stat.parts]) trivial fun _ => False.elim

/-- Nothing strays if nothing was reported. As each step takes a token, the end of input is
reached. -/
lemma strays_ensures (bound : Nat) (hbound : s₀.cursor.ahead.length + s₀.cursor.pos ≤ bound + n) :
    Ensures (Reached 0 s₀ n good ps) (strays bound)
      fun l s => s.cursor.current.kind = .eof
        ∧ Reached 0 s₀ n (good ∧ l = []) (ps ++ l.map fun st => .node (.stat st)) s := by
  induction bound generalizing n good ps with
  | zero =>
    refine Ensures.ret fun s h => ⟨?_, by simpa using h⟩
    have hahead : s.cursor.ahead = [] := by
      have := ahead_le h
      rw [← List.length_eq_zero_iff]
      omega
    rw [Cursor.current, hahead]
    exact h.valid.eof
  | succ bound ih =>
    refine atKind_ensures ?_ (Ensures.facing fun kind => ?_)
    · exact Ensures.ret fun s h => ⟨h.1, by simpa using h.2⟩
    · by_cases heof : kind = .eof
      · exact fun s hs => absurd (hs.1.trans heof) hs.2.1
      refine ((advance_ensures heof).weaken fun s h => ⟨h.1, h.2.2⟩).bindFact fun t _ => ?_
      refine (error_ensures (ne_limitMessage (by simp))).bind fun _ => ?_
      refine strayBlock_ensures.bind fun rest => ?_
      refine (ih (by omega)).bind fun more => Ensures.ret fun s h => ⟨h.1, ?_⟩
      simpa [Node.parts] using (h.2.mono (Nat.le_succ n)).imp fun _ hg => hg.1.elim

/-- **A chunk is read to the end of input.** Its block stands where its first token begins. -/
theorem chunk_reached {s : ParseState} (hs : s.Valid) (hdepth : s.depth = 0) :
    (chunk.run s).1.anchor = s.cursor.current.span.start
      ∧ (chunk.run s).2.cursor.current.kind = .eof
      ∧ Reached 0 s 0 (Node.block (chunk.run s).1).Sound (Node.block (chunk.run s).1).parts
        (chunk.run s).2 := by
  have hstart := Reached.start hs (Nat.zero_le _)
  rw [hdepth] at hstart
  obtain ⟨hanchor, hblock⟩ := outermost_good.block s.cursor.current.span.start _ _ _ _ s hstart
  have hrun : chunk.run s = (let r := (outermost.block s.cursor.current.span.start).run s
      let l := (strays r.2.cursor.ahead.length).run r.2
      ({ r.1 with stats := r.1.stats ++ l.1 }, l.2)) := rfl
  rw [hrun]
  generalize (outermost.block s.cursor.current.span.start).run s = r at hanchor hblock ⊢
  obtain ⟨heof, hstrays⟩ := strays_ensures r.2.cursor.ahead.length (Nat.le_refl _) r.2
    (hblock.depth_eq ▸ Reached.start hblock.valid (Nat.le_refl _))
  dsimp only
  generalize (strays r.2.cursor.ahead.length).run r.2 = l at heof hstrays ⊢
  have hwhole := (hblock.trans hstrays).mono (Nat.zero_le _)
  refine ⟨hanchor, heof, Reached.imp (by simpa [Node.parts] using hwhole) ?_⟩
  rintro - ⟨hsound, hnone⟩
  rw [hnone, List.append_nil]
  exact hsound

end Chunk

end LuaFront.Grammar
