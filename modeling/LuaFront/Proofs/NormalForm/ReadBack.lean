import LuaFront.Proofs.NormalForm.Lexed
import LuaFront.Proofs.NormalForm.Reading
import LuaFront.Proofs.NormalForm.Written

/-!
Normal forms are read back. An expression that is read without an error is written token for token;
so its normal form is lexed to its words, and these are read as the expression, but for what is
erased.
-/

namespace LuaFront.Grammar

open Parse ParseState
open Diagnostic (errorSpans)

/-! ### All levels -/

lemma Level.Rereads.around {inner : Level} [inner.Steady] {depth : Nat}
    (h : inner.Rereads (depth + 1)) : inner.around.Rereads depth where
  expr := exprAround_consumes h
  operators := operatorsAround_consumes h
  suffixes := suffixesAround_consumes h

lemma level_rereads {k : Nat} (hk : k ≤ maxDepth + 1) : (level k).Rereads (maxDepth + 1 - k) :=
  level_induct (P := fun k => (level k).Rereads) Level.bottom_rereads (fun h => h.around) hk

lemma outermost_rereads : outermost.Rereads 0 := by
  simpa [outermost] using level_rereads (Nat.le_refl (maxDepth + 1))

/-! ### Normal forms -/

variable {text : String} {w : List Token} {e : Expr}

/-- The parser begins before the words of a text. -/
lemma holding_of_lexes (h : Lexes text.toList w) :
    Holding 0 w (.ofTokens (Lexed.ofSource text).tokens) := by
  obtain ⟨read, eof, hsplits⟩ := Lexed.exists_splits text
  have htokens : (read ++ [eof]).map Token.bare = w ++ [Token.missing .eof 0] := by
    rw [← hsplits.tokens, ← h.tokens 0, Lexed.ofSource, List.map_map]
    rfl
  rw [List.map_append] at htokens
  obtain ⟨hread, -⟩ := List.append_inj' htokens rfl
  rw [hsplits.tokens, ofTokens_eq hsplits.eof_kind]
  refine ⟨⟨rfl, Nat.zero_le _, rfl, rfl, hsplits.eof_kind, ?_⟩, hread⟩
  rw [← hread, List.map_map]
  rfl

lemma expression_rereads (h : e.Written) : Consumes 0 expression e.words [] (·.erased = e.erased) :=
  outermost_rereads.expr h .whole (.ofFront rfl)

/-- **Normal forms are read back**: if an expression, wherever it stands in a text, is read without
an error, and there are no functions and no strings in long brackets in it, then its normal form is
read without an error and to its end, unless the nesting limit is exceeded; and what is read is the
expression but for parentheses, the way arguments are written, delimiters, places and trivia. -/
theorem normalForm_reads_back (source : String) {t u : ParseState}
    (htokens : t.cursor.tokens = (Lexed.ofSource source).tokens) (hdeep : t.tooDeep = false)
    (hdepth : t.depth ≤ maxDepth)
    (hrun : (level (maxDepth + 1 - t.depth)).expression.run t = (e, u))
    (hlexed : ∀ token ∈ u.cursor.behind,
      token.span ∉ errorSpans (Lexed.ofSource source).diagnostics)
    (hlog : u.log.entries = [])
    (hfunction : ∀ n ∈ (Node.ofExpr e).preorder, n.kind ≠ .functionExpr)
    (hlong : ∀ token ∈ (Node.ofExpr e).tokens, token.isLongString = false) :
    let lexed := Lexed.ofSource e.normalForm
    let r := expression.run (.ofTokens lexed.tokens)
    r.2.tooDeep = true ∨ errorSpans lexed.diagnostics = [] ∧ r.2.log.entries = []
      ∧ r.2.cursor.ahead = [] ∧ r.1.erased = e.erased := by
  intro lexed r
  obtain ⟨k, hk⟩ := Nat.exists_eq_add_of_le hdepth
  rw [show maxDepth + 1 - t.depth = k + 1 by omega] at hrun
  have honward := Steady.onward (p := (level (k + 1)).expression) t
  rw [hrun] at honward
  have hclean : u.Clean := clean_of_unreported (honward.cursor.tokens_eq.trans htokens) hlexed hlog
  have hwritten := written_of_clean htokens hdeep hk.symm hrun hclean hfunction hlong
  have hlexes := Expr.lexes_normalForm hwritten
  cases hgave : r.2.tooDeep with
  | true => exact .inl rfl
  | false =>
    have hstart := holding_of_lexes hlexes
    rw [← List.append_nil e.words] at hstart
    obtain ⟨herased, hend⟩ := expression_rereads hwritten _ hstart hgave
    exact .inr ⟨hlexes.errors 0, hend.ready.log, List.map_eq_nil_iff.1 hend.ahead, herased⟩

theorem normalForm_reads_back_call :
    let source := "f\"a\"\x7b-x ^ 2; n = (1) .. ...\x7d"
    let e := (expression.run (.ofTokens (Lexed.ofSource source).tokens)).1
    let r := expression.run (.ofTokens (Lexed.ofSource e.normalForm).tokens)
    e.normalForm = "f(\"a\")(\x7b(-(x ^ 2)), n = ((1) .. ...)\x7d)"
      ∧ r.1.erased = e.erased := by
  intro source e r
  have hback := normalForm_reads_back source (t := .ofTokens (Lexed.ofSource source).tokens)
    (u := (expression.run (.ofTokens (Lexed.ofSource source).tokens)).2) (e := e)
    (by decide +kernel) rfl (Nat.zero_le _) rfl (by decide +kernel) (by decide +kernel)
    (by decide +kernel) (by decide +kernel)
  have hdeep : r.2.tooDeep = false := by decide +kernel
  rcases hback with hlimit | ⟨-, -, -, herased⟩
  · exact absurd (hdeep.symm.trans hlimit) Bool.false_ne_true
  · exact ⟨by decide +kernel, herased⟩

end LuaFront.Grammar
