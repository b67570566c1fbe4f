import LuaFront.Proofs.Acceptance.Statements
import LuaFront.Proofs.Chunk.Outcome

/-!
What the grammar of Lua derives is parsed without an error. A parenthesis after an expression that
could end there is read as the arguments of a call, so that no derivation is accepted that takes it
for the beginning of the next statement.
-/

namespace LuaFront

namespace Grammar

open Parse ParseState
open Phrase (Derives)

lemma Level.Accepts.around {inner : Level} [inner.Steady] {depth : Nat}
    (h : inner.Accepts (depth + 1)) : inner.around.Accepts depth where
  expr := exprAround_proceeds h
  operators := operatorsAround_proceeds h
  suffixes := suffixesAround_proceeds h
  block := blockAround_proceeds h

lemma level_accepts {k : Nat} (hk : k ≤ maxDepth + 1) : (level k).Accepts (maxDepth + 1 - k) :=
  level_induct (P := fun k => (level k).Accepts) Level.bottom_accepts (fun h => h.around) hk

lemma outermost_accepts : outermost.Accepts 0 := by
  simpa [outermost] using level_accepts (Nat.le_refl (maxDepth + 1))

/-- Nothing is left after the block of a chunk. -/
lemma chunk_proceeds {o : Bool} {w : List TokenKind} (hw : Derives true .block o w) :
    Proceeds (Ready 0 w) chunk fun _ => Ready 0 [] := by
  have hfront : (TokenKind.front []).endsBlock = true := rfl
  rw [← List.append_nil w]
  refine Proceeds.current fun first => ?_
  refine (outermost_accepts.block hw hfront).bind fun block => Proceeds.remaining ?_
  exact Proceeds.ret fun s hs => hs

end Grammar

namespace Parsed

open ParseState
open Phrase (Derives)

/-- **The parser accepts the grammar**: if the tokens of a text are derived as a block, in which no
statement begins with a parenthesis after one that it would extend, then nothing is reported but by
the lexer, unless the nesting limit is exceeded. -/
theorem accepts_derived (source : String) {o : Bool}
    (h : Derives true .block o (Lexed.word source)) :
    (ending source).tooDeep = true ∨ (ending source).log.entries = []
      ∧ (ofSource source).diagnostics = Diagnostic.sorted (Lexed.ofSource source).diagnostics := by
  obtain ⟨read, eof, hsplits⟩ := Lexed.exists_splits source
  have hstart : ParseState.ofTokens (Lexed.ofSource source).tokens = before read eof := by
    rw [hsplits.tokens, ofTokens_eq hsplits.eof_kind]
  have hready : Ready 0 (Lexed.word source) (before read eof) :=
    ⟨rfl, Nat.zero_le _, rfl, rfl, hsplits.eof_kind, by simp [Lexed.word, hsplits.tokens, before]⟩
  cases hdeep : (ending source).tooDeep with
  | true => exact .inl rfl
  | false =>
    have hrun : ending source = (Grammar.chunk.run (before read eof)).2 := by
      rw [ending, hstart]
    have hlog := (Grammar.chunk_proceeds h _ hready (hrun ▸ hdeep)).log
    rw [← hrun] at hlog
    refine .inr ⟨hlog, ?_⟩
    rw [diagnostics_eq, hlog, List.append_nil]

theorem accepts_derived_return :
    let source := "t.n = -t + 2; f{ } (t) return t"
    Derives true .block false (Lexed.word source) ∧ (ending source).log.entries = [] := by
  intro source
  have hword : Lexed.word source
      = ([.ident, .symbol .dot, .ident, .symbol .eq, .symbol .minus, .ident, .symbol .plus,
          .number] : List TokenKind)
        ++ (([.symbol .semi] : List TokenKind)
          ++ (([.ident, .symbol .openBrace, .symbol .closeBrace, .symbol .openParen, .ident,
              .symbol .closeParen] : List TokenKind)
            ++ ([.keyword .return_, .ident] : List TokenKind))) := by
    decide +kernel
  have htable : Derives true .exp true [.ident] := .prefixed (.ofVar .varName)
  have hassign : Derives true .stat false [.ident, .symbol .dot, .ident, .symbol .eq,
      .symbol .minus, .ident, .symbol .plus, .number] :=
    .assign (.one (.varField (.ofVar .varName)))
      (.one (.binary (.unary (by decide) htable) (by decide) (.literal (by decide))))
  have hcall : Derives true .stat true [.ident, .symbol .openBrace, .symbol .closeBrace,
      .symbol .openParen, .ident, .symbol .closeParen] :=
    .callStat (.callOf (.ofCall (.callOf (.ofVar .varName) (.argsTable (.table .none))))
      (.argsParen (.some (.one htable))))
  have hreturn : Derives true .return_ false [.keyword .return_, .ident] :=
    .return_ (.some (.one htable)) .none
  have h : Derives true .block false (Lexed.word source) := by
    rw [hword]
    exact .stats hassign (.stats .empty (.stats hcall (.lastStat hreturn) nofun) nofun) nofun
  have hdeep : (ending source).tooDeep = false := by decide +kernel
  refine ⟨h, ?_⟩
  rcases accepts_derived source h with hfalse | ⟨hlog, -⟩
  · exact absurd (hdeep.symm.trans hfalse) Bool.false_ne_true
  · exact hlog

/-- Two statements can be read as one, which is then not a statement. -/
theorem not_accepts_ambiguous : ¬ ∀ source o, Derives false .block o (Lexed.word source) →
    (ending source).tooDeep = true ∨ (ending source).log.entries = [] := by
  intro h
  have hword : Lexed.word "a = b\n(c).d = 1" = ([.ident, .symbol .eq, .ident] : List TokenKind)
      ++ (([.symbol .openParen, .ident, .symbol .closeParen, .symbol .dot, .ident, .symbol .eq,
        .number] : List TokenKind) ++ []) := by
    decide +kernel
  have hname : Derives false .exp true [.ident] := .prefixed (.ofVar .varName)
  have hfirst : Derives false .stat true [.ident, .symbol .eq, .ident] :=
    .assign (.one .varName) (.one hname)
  have hsecond : Derives false .stat false [.symbol .openParen, .ident, .symbol .closeParen,
      .symbol .dot, .ident, .symbol .eq, .number] :=
    .assign (.one (.varField (.paren hname))) (.one (.literal (by decide)))
  have hblock : Derives false .block false (Lexed.word "a = b\n(c).d = 1") := by
    rw [hword]
    exact .stats hfirst (.stats hsecond .emptyBlock nofun) nofun
  exact absurd (h _ _ hblock) (by decide +kernel)

end Parsed

end LuaFront
