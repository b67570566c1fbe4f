import LuaFront.Proofs.Chunk.Outcome
import LuaFront.Proofs.Parser.Displaced
import LuaFront.Proofs.Tree.Bare

/-!
Texts with the same tokens. Where the tokens of two texts differ only in their places and in what is
in front of them, so do the two trees.
-/

namespace LuaFront

namespace ParseState

variable {m : Displacement} {read : List Token} {eof : Token}

/-- Before the first token of a text, nothing stands in the way of moving its tokens. -/
lemma before_follows (h : ∀ t ∈ read ++ [eof], t.span.start ≤ t.span.stop) :
    Follows m (before read eof) (before (read.map m.token) (m.token eof)) where
  cursor := rfl
  depth := rfl
  tooDeep := rfl
  log _ := rfl
  upright := h
  reported := List.forall_mem_nil _

end ParseState

lemma Lexed.Splits.upright {source : String} {read : List Token} {eof : Token}
    (h : Splits source read eof) : ∀ t ∈ read ++ [eof], t.span.start ≤ t.span.stop := by
  intro t ht
  rcases List.mem_append.1 ht with ht | ht
  · exact Nat.le_of_lt (h.width t ht)
  · rw [List.mem_singleton.1 ht, h.eof_span]
    exact Nat.le_refl _

namespace Parsed

open ParseState

/-- What the parser reads from the displaced tokens of a text, and where that leads. -/
lemma chunk_displaced {source : String} {read : List Token} {eof : Token}
    (h : Lexed.Splits source read eof) (m : Displacement) :
    (Grammar.chunk.run (.ofTokens ((Lexed.ofSource source).tokens.map m.token))).1
        = m.block (ofSource source).block
      ∧ Follows m (ending source)
        (Grammar.chunk.run (.ofTokens ((Lexed.ofSource source).tokens.map m.token))).2 := by
  have hstart : ParseState.ofTokens (Lexed.ofSource source).tokens = before read eof := by
    rw [h.tokens, ofTokens_eq h.eof_kind]
  have hstart' : ParseState.ofTokens ((Lexed.ofSource source).tokens.map m.token)
      = before (read.map m.token) (m.token eof) := by
    rw [h.tokens, List.map_append]
    exact ofTokens_eq h.eof_kind
  have hmoved := Grammar.chunk_moves _ _ (before_follows (m := m) h.upright)
  rw [← hstart, ← hstart'] at hmoved
  exact hmoved

/-- The bare tree of a text is read from its bare tokens. -/
lemma bare_eq (source : String) : (ofSource source).block.bare = (Grammar.chunk.run
    (.ofTokens ((Lexed.ofSource source).tokens.map Displacement.forget.token))).1 := by
  obtain ⟨read, eof, h⟩ := Lexed.exists_splits source
  exact (chunk_displaced h .forget).1.symm

/-- **Blanks and comments do not change the tree**: two texts whose tokens have the same kinds and
texts have the same tree, but for places and trivia, and so the same normal form. Neither needs to
be well formed. -/
theorem trivia_irrelevant (source other : String)
    (h : (Lexed.ofSource source).tokens.map (fun t => (t.kind, t.text))
      = (Lexed.ofSource other).tokens.map (fun t => (t.kind, t.text))) :
    (ofSource source).block.bare = (ofSource other).block.bare
      ∧ (ofSource source).block.normalForm = (ofSource other).block.normalForm := by
  have hbare : (ofSource source).block.bare = (ofSource other).block.bare := by
    have hforget : ∀ tokens : List Token, tokens.map Displacement.forget.token
        = (tokens.map fun t => (t.kind, t.text)).map fun p => ⟨p.1, p.2, .empty 0, []⟩ :=
      fun tokens => by rw [List.map_map]; rfl
    rw [bare_eq, bare_eq, hforget, hforget, h]
  refine ⟨hbare, ?_⟩
  rw [← Block.normalForm_bare, hbare, Block.normalForm_bare]

/-- Also where a value is missing. -/
theorem trivia_irrelevant_unfinished :
    (Lexed.ofSource "x = y = --z\n1").tokens.map (fun t => (t.kind, t.text))
        = (Lexed.ofSource "x=y=1").tokens.map (fun t => (t.kind, t.text))
      ∧ (ofSource "x = y = --z\n1").block.bare = (ofSource "x=y=1").block.bare
      ∧ (ofSource "x = y = --z\n1").block.normalForm = (ofSource "x=y=1").block.normalForm := by
  have h : (Lexed.ofSource "x = y = --z\n1").tokens.map (fun t => (t.kind, t.text))
      = (Lexed.ofSource "x=y=1").tokens.map (fun t => (t.kind, t.text)) := by decide +kernel
  exact ⟨h, trivia_irrelevant _ _ h⟩

end Parsed

end LuaFront
