import LuaFront.Proofs.Chunk.Outcome
import LuaFront.Proofs.Parser.Leading

/-!
Where the leading trivia of a node come from. They are those of its leftmost token, for all nodes
but one kind: an operation or a call whose first operand is missing has its leftmost token behind
the place of that operand, and looks for it only there.
-/

namespace LuaFront

/-- Where statements and fields begin with tokens, only an expression can lack its first part. -/
lemma Node.expr_of_headless {n : Node} (hown : n.Begun) (hchildren : ∀ m ∈ n.children, m.Begun)
    (h : n.Headless) : ∃ e, n = .expr e := by
  cases n with
  | expr e => exact ⟨e, rfl⟩
  | block b =>
    have hfirst : ∀ {m rest}, (Node.block b).parts = .node m :: rest → m.Led := by
      intro m rest hparts
      have hm : m ∈ (Node.block b).children := mem_children.2 (hparts ▸ List.mem_cons_self)
      obtain ⟨a, -, rfl⟩ : ∃ a ∈ b.stats, .stat a = m := by
        simpa [children, parts, List.filterMap_map, Part.node?] using hm
      exact hchildren _ hm rfl
    rcases h with ⟨hparts, hnil, -⟩ | ⟨hparts, hm⟩
    · exact absurd hnil (hfirst hparts).tokens_ne_nil
    · exact absurd hm (hfirst hparts).not_headless
  | table | identifier | literal | vararg => exact absurd h (Led.token rfl).not_headless
  | _ => exact absurd h (hown rfl).not_headless

namespace Parsed

open Node

lemma root_begun (source : String) : (ofSource source).root.All Begun := by
  obtain ⟨read, eof, hsplits⟩ := Lexed.exists_splits source
  have hrun : ParseState.ofTokens (Lexed.ofSource source).tokens = .before read eof := by
    rw [hsplits.tokens, ParseState.ofTokens_eq hsplits.eof_kind]
  have hvalid : (ParseState.before read eof).Valid := ParseState.before_valid hsplits.eof_kind
  have hblock := Grammar.chunk_begun hvalid rfl
  rw [← hrun] at hblock
  exact hblock

/-- **The first token of a node is the leftmost one**, and its trivia are those of the node, unless
the node is headless. A headless node is an expression whose first operand, or the first operand of
what it begins with, is missing: it has no first token and no trivia, or the first of the tokens
that were given up within it at the nesting limit. -/
theorem firstToken_leftmost (source : String) :
    ∀ n ∈ (ofSource source).root.preorder, ∀ t, n.tokens.head? = some t →
      (¬ n.Headless → n.firstToken? = some t ∧ n.leadingTrivia = t.trivia)
        ∧ (n.Headless → (∃ e, n = .expr e)
          ∧ (n.firstToken? = none ∧ n.leadingTrivia = []
            ∨ ∃ m ∈ n.preorder, m.Headless ∧ m.skipped ≠ []
              ∧ n.firstToken? = m.skipped.head?)) := by
  intro n hn t ht
  refine ⟨fun hheadless => ?_, fun hheadless => ⟨?_, ?_⟩⟩
  · have hfirst := n.firstToken?_of_not_headless hheadless
    rw [ht] at hfirst
    exact ⟨hfirst, by rw [leadingTrivia, hfirst]⟩
  · exact expr_of_headless (root_begun source n hn)
      (fun m hm => root_begun source m (mem_preorder_of_child hn hm)) hheadless
  · refine (firstToken?_of_headless hheadless).imp_left fun hnone => ⟨hnone, ?_⟩
    rw [leadingTrivia, hnone]

/-- In `x = and 1` the chunk begins with the target, and the conjunction with its operator, behind
the place of the missing operand. -/
theorem firstToken_leftmost_missing :
    let root := (ofSource "x = and 1").root
    (root ∈ root.preorder ∧ ∃ t, root.tokens.head? = some t ∧ root.firstToken? = some t)
      ∧ ∃ n ∈ root.preorder, (∃ t, n.tokens.head? = some t ∧ t.text = "and") ∧ n.Headless
        ∧ n.firstToken? = none ∧ n.leadingTrivia = [] := by
  intro root
  refine ⟨⟨root.self_mem_preorder, ?_⟩, ?_⟩
  · have hsome : root.tokens.head?.isSome = true := by decide +kernel
    obtain ⟨t, ht⟩ := Option.isSome_iff_exists.1 hsome
    have hfirst := firstToken_leftmost "x = and 1" root root.self_mem_preorder t ht
    refine ⟨t, ht, (hfirst.1 fun hheadless => ?_).1⟩
    obtain ⟨e, he⟩ := (hfirst.2 hheadless).1
    have hblock : Node.block (ofSource "x = and 1").block = .expr e := he
    cases hblock
  · have hany : root.preorder.any (fun n =>
        n.tokens.head?.any (·.text = "and")
          && n.parts.head?.any (fun p => p.node?.any (·.tokens.isEmpty))
          && n.preorder.all (·.skipped.isEmpty)) = true := by decide +kernel
    simp only [List.any_eq_true, Bool.and_eq_true, Option.any_eq_true, decide_eq_true_eq,
      List.all_eq_true, List.isEmpty_iff] at hany
    obtain ⟨n, hn, ⟨⟨t, ht, hand⟩, p, hp, m, hm, hmissing⟩, hkept⟩ := hany
    obtain ⟨rest, hparts⟩ := List.head?_eq_some_iff.1 hp
    obtain rfl : p = .node m := by
      cases p <;> cases hm
      rfl
    have hheadless : n.Headless :=
      .missing hparts hmissing (hkept n n.self_mem_preorder)
        (List.ne_nil_of_mem (List.mem_of_head? ht))
    have hfirst := (firstToken_leftmost "x = and 1" n hn t ht).2 hheadless
    refine ⟨n, hn, ⟨t, ht, hand⟩, hheadless, hfirst.2.resolve_right ?_⟩
    rintro ⟨m', hm', -, hskipped, -⟩
    exact hskipped (hkept m' hm')

/-- The conjunction in `x = and 1` begins with its operator. -/
theorem leadingTrivia_lost :
    ¬ ∀ source, ∀ n ∈ (ofSource source).root.preorder, ∀ t, n.tokens.head? = some t →
      n.firstToken? = some t ∧ n.leadingTrivia = t.trivia := by
  intro h
  have hlost : ∃ n ∈ (ofSource "x = and 1").root.preorder,
      n.tokens.head?.isSome = true ∧ n.firstToken? = none := by
    have hany : (ofSource "x = and 1").root.preorder.any
        (fun n => n.tokens.head?.isSome && n.firstToken?.isNone) = true := by decide +kernel
    simpa using hany
  obtain ⟨n, hn, hsome, hnone⟩ := hlost
  obtain ⟨t, ht⟩ := Option.isSome_iff_exists.1 hsome
  exact absurd ((h _ n hn t ht).1.symm.trans hnone) (by simp)

end Parsed

end LuaFront
