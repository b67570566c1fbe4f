import LuaFront.Proofs.Chunk.Outcome
import LuaFront.Proofs.Lexeme.Errors
import LuaFront.Proofs.NormalForm.Erased
import LuaFront.Proofs.Parser.Quiet
import LuaFront.Syntax.NodeKind

/-!
Expressions that are read off a text. If no error is reported about it, an expression is made of
tokens as they stand in the text, each in its place.
-/

namespace LuaFront

open Diagnostic (errorSpans)

/-- The token is a string in long brackets. -/
def Token.isLongString (t : Token) : Bool := t.kind = .string && t.text.toList.head? = some '['

lemma Token.Legible.bare_eq {t : Token} (h : t.Legible) {sign : Symbol}
    (hkind : t.kind = .symbol sign) : t.bare = .sign sign := by
  have htext : t.text = sign.spelling := h.spelled (by rw [hkind]; rfl)
  obtain ⟨kind, text, span, trivia⟩ := t
  cases hkind
  cases htext
  rfl

/-! ### Nodes -/

namespace Node

variable {P : Node → Prop} {n m : Node}

lemma All.self (h : n.All P) : P n := (all_iff.1 h).1

lemma All.part (h : n.All P) (hm : .node m ∈ n.parts := by
    simp [ofExpr, parts, Expr.parts, TableField.parts]) : m.All P :=
  (all_iff.1 h).2 m (mem_children.2 hm)

/-- Nothing is wrong with the node, and its own tokens stand in a text as they are. -/
structure Sure (n : Node) : Prop where
  complete : n.Complete
  based : n.Based
  function : n.kind ≠ .functionExpr
  legible : ∀ t, .token t ∈ n.parts → t.Legible

lemma Sure.sign (h : n.Sure) {t : Token} {sign : Symbol} (hkind : t.kind = .symbol sign)
    (ht : .token t ∈ n.parts := by
      simp [ofExpr, parts, Expr.parts, Table.parts, TableField.parts]) : t.bare = .sign sign :=
  (h.legible t ht).bare_eq hkind

end Node

open Node

lemma Identifier.written {id : Identifier} (h : (Node.identifier id).All Sure) : id.Written :=
  ⟨h.self.complete.form, h.self.legible _ (by simp [parts])⟩

lemma Literal.written {lit : Literal} (h : (Node.literal lit).All Sure) : lit.Written :=
  ⟨h.self.complete.form, h.self.legible _ (by simp [parts])⟩

mutual

lemma written_expr : ∀ e : Expr, (ofExpr e).All Sure → e.Written
  | .literal lit, h => Literal.written h
  | .vararg dots, h => h.self.sign h.self.complete.form
  | .name id, h => Identifier.written h
  | .function _ _, h => absurd rfl h.self.function
  | .table t, h => written_table t h
  | .paren _ inner _, h => written_expr inner h.part
  | .field base dot name, h => by
    refine ⟨⟨h.self.based _ rfl, written_expr base h.part⟩, ?_, Identifier.written h.part⟩
    exact h.self.sign h.self.complete.form
  | .index base opening key closing, h => by
    obtain ⟨hopening, hclosing⟩ := h.self.complete.form
    exact ⟨⟨h.self.based _ rfl, written_expr base h.part⟩, h.self.sign hopening,
      written_expr key h.part, h.self.sign hclosing⟩
  | .call callee args, h => by
    refine ⟨⟨h.self.based _ rfl, written_expr callee h.part⟩, ?_⟩
    exact written_callArgs args fun n hn => h.part (List.mem_cons_of_mem _ hn)
  | .methodCall receiver colon name args, h => by
    obtain ⟨hcolon, -⟩ := h.self.complete.form
    refine ⟨⟨h.self.based _ rfl, written_expr receiver h.part⟩, h.self.sign hcolon,
      Identifier.written h.part, ?_⟩
    exact written_callArgs args fun n hn => h.part (List.mem_append_right _ hn)
  | .unary op sign operand, h =>
    ⟨h.self.complete.form, h.self.legible _ List.mem_cons_self, written_expr operand h.part⟩
  | .binary lhs op sign rhs, h => by
    have hsign := h.self.legible sign (by simp [ofExpr, parts, Expr.parts])
    exact ⟨written_expr lhs h.part, ⟨h.self.complete.form, hsign⟩, written_expr rhs h.part⟩
  | .invalid _ _ _, h => h.self.complete.sound.elim

lemma written_exprs : ∀ l : List (Pair Expr), (∀ p ∈ l, (ofExpr p.item).All Sure) →
    Expr.PairsWritten l
  | [], _ => trivial
  | ⟨e, _⟩ :: more, h =>
    ⟨written_expr e (h _ List.mem_cons_self),
      written_exprs more fun p hp => h p (List.mem_cons_of_mem _ hp)⟩

lemma written_callArgs : ∀ a : CallArgs, Part.Each (All Sure) a.parts → a.Written
  | .paren _ ⟨args, _⟩ _, h => by
    have hargs : ∀ p ∈ args, (ofExpr p.item).All Sure := by
      simpa [CallArgs.parts, Separated.items] using h
    exact written_exprs args hargs
  | .table t, h => written_table t (h _ List.mem_cons_self)
  | .string lit, h => Literal.written (h _ List.mem_cons_self)

lemma written_table : ∀ t : Table, (Node.table t).All Sure → t.Written
  | ⟨opening, ⟨fields, anchor⟩, closing⟩, h => by
    have hfields : ∀ p ∈ fields, (Node.tableField p.item).All Sure := by
      have hparts := each_parts_iff.2 (all_iff.1 h).2
      simpa [parts, Table.parts, Separated.items] using hparts
    have hform := h.self.complete.form
    exact ⟨h.self.sign hform.opening, written_fields fields hfields, h.self.sign hform.closing⟩

lemma written_fields : ∀ l : List (Pair TableField),
    (∀ p ∈ l, (Node.tableField p.item).All Sure) → TableField.PairsWritten l
  | [], _ => trivial
  | ⟨f, _⟩ :: more, h =>
    ⟨written_field f (h _ List.mem_cons_self),
      written_fields more fun p hp => h p (List.mem_cons_of_mem _ hp)⟩

lemma written_field : ∀ f : TableField, (Node.tableField f).All Sure → f.Written
  | .positional value, h => written_expr value h.part
  | .named name eq value, h =>
    ⟨Identifier.written h.part, h.self.sign h.self.complete.form, written_expr value h.part⟩
  | .keyed opening key closing eq value, h => by
    obtain ⟨hopening, hclosing, heq⟩ := h.self.complete.form
    exact ⟨h.self.sign hopening, written_expr key h.part, h.self.sign hclosing, h.self.sign heq,
      written_expr value h.part⟩

end

namespace Grammar

open Parse ParseState

variable {k power : Nat} {source : String} {e : Expr} {s t u : ParseState}

/-! ### Where expressions begin -/

/-- Where no operand begins, what can have suffixes is expected. -/
lemma run_operand_suffixed {inner : Level} (h : s.cursor.current.kind.canBeginExpr = false) :
    (operand inner).run s = (suffixed inner true).run s := by
  rw [operand, run_currentKind, simpleExpr]
  have hunary : s.cursor.current.kind.unaryOp? = none := by
    unfold TokenKind.unaryOp?
    split <;> simp_all [TokenKind.canBeginExpr]
  rw [hunary]
  dsimp only
  rw [run_currentKind]
  split <;> simp_all [TokenKind.canBeginExpr]

/-- Without a report and an invalid token an expression begins with a token that can begin it. -/
lemma begins_of_clean (h : Quiet ((level (k + 1)).expr power) t e u) (hclean : u.Clean) :
    t.cursor.current.kind.canBeginExpr = true := by
  by_contra hkind
  rw [Bool.not_eq_true] at hkind
  obtain ⟨v, -, hinner, rfl⟩ := Quiet.nested h
  obtain ⟨first, w, hfirst, hmore⟩ := hinner.bind
  obtain ⟨base, x, hbase, hsuffixes⟩ := (hfirst.congr (run_operand_suffixed hkind)).bind
  have hprimary := hbase.congr run_currentKind
  split at hprimary
  · next hident => simp [hident, TokenKind.canBeginExpr] at hkind
  · next hopening => simp [hopening, TokenKind.canBeginExpr] at hkind
  · next hinvalid =>
    obtain ⟨token, y, htoken, hret⟩ := hprimary.bind
    obtain ⟨-, rfl⟩ := hret.ret
    obtain ⟨rest, hahead⟩ := ahead_of_facing h.start hinvalid (by decide)
    have hadvance := Cursor.advance_of_ahead hahead (by rw [hinvalid]; decide)
    obtain ⟨l, -, hbehind, -⟩ := (hsuffixes.onward.trans hmore.onward).cursor
    have hread : t.cursor.current ∈ v.cursor.behind := by
      rw [hbehind, htoken.advance.2]
      change _ ∈ _ ++ t.cursor.advance.behind
      rw [hadvance]
      exact List.mem_append_right _ List.mem_cons_self
    exact (hclean.read _ hread).2 hinvalid
  · have hreport : (missingExpr.run { t with depth := t.depth + 1 }).2.log.entries ≠ [] :=
      run_errorExpected_ne_nil fun hgave => (h.start.gaveUp hgave).2
    rw [hprimary.run] at hreport
    exact hreport hprimary.log

/-! ### Expressions of a text -/

lemma cursor_of_tokens (h : s.cursor.tokens = (Lexed.ofSource source).tokens) :
    Lexed.Splits source (s.cursor.behind.reverse ++ s.cursor.ahead) s.cursor.eof := by
  obtain ⟨read, eof, hsplits⟩ := Lexed.exists_splits source
  obtain ⟨hread, heof⟩ := List.append_inj' (h.trans hsplits.tokens) rfl
  rw [hread, List.singleton_inj.1 heof]
  exact hsplits

/-- Nothing was read that an error is reported about. -/
lemma clean_of_unreported (htokens : s.cursor.tokens = (Lexed.ofSource source).tokens)
    (hlexed : ∀ t ∈ s.cursor.behind, t.span ∉ errorSpans (Lexed.ofSource source).diagnostics)
    (hlog : s.log.entries = []) : s.Clean := by
  have hsplits := cursor_of_tokens htokens
  refine ⟨hlog, fun t ht => ?_⟩
  have hread : t ∈ s.cursor.behind.reverse ++ s.cursor.ahead := by simp [ht]
  refine ⟨hsplits.present hread, fun hkind => hlexed t ht ?_⟩
  obtain ⟨-, last, -, -, -, hspans, -⟩ := Scanned.ofChars_errors 0 source.toList
  rw [show errorSpans (Lexed.ofSource source).diagnostics = _ from hspans]
  refine List.mem_append_left _ (List.mem_map.2 ⟨t, List.mem_filter.2 ⟨?_, by simp [hkind]⟩, rfl⟩)
  change t ∈ (Lexed.ofSource source).tokens
  rw [hsplits.tokens]
  exact List.mem_append_left _ hread

/-- A complete node is made of tokens of the text. -/
lemma legible_of_progress {n : Node} {depth count : Nat} {good : Prop}
    (h : Progress depth t count good [.node n] u)
    (htokens : t.cursor.tokens = (Lexed.ofSource source).tokens) (hclean : u.Clean)
    (hcomplete : n.All Node.Complete) (hlong : ∀ token ∈ n.tokens, token.isLongString = false) :
    ∀ token ∈ n.tokens, token.Legible := by
  intro token htoken
  obtain ⟨l, hahead, hbehind, -, hkinds, hkept⟩ := h.reads.exists_consumed
  have hread : token ∈ l := by
    have hpresent := Node.present_of_complete hcomplete htoken
    refine List.mem_of_mem_filter (p := (!·.isMissing)) ?_
    rw [← hkept, List.mem_filter]
    exact ⟨by simpa [Part.marks, Node.tokens_eq_marks] using htoken, by simp [hpresent]⟩
  have hvalid := (hclean.read token (by simp [hbehind, hread])).2
  have hmem : token ∈ (Lexed.ofSource source).tokens := by
    rw [← htokens, Cursor.tokens, hahead]
    simp [hread]
  refine Lexed.legible hmem (hkinds token hread) hvalid fun hkind => ?_
  simpa [Token.isLongString, hkind] using hlong token htoken

/-- **What is read without an error is written** in the text, token for token. -/
theorem written_of_clean (htokens : t.cursor.tokens = (Lexed.ofSource source).tokens)
    (hdeep : t.tooDeep = false) (hk : t.depth + k = maxDepth)
    (hrun : ((level (k + 1)).expr power).run t = (e, u)) (hclean : u.Clean)
    (hfunction : ∀ n ∈ (Node.ofExpr e).preorder, n.kind ≠ .functionExpr)
    (hlong : ∀ token ∈ (Node.ofExpr e).tokens, token.isLongString = false) : e.Written := by
  have hsplits := cursor_of_tokens htokens
  have honward : t.Onward u := by
    have honward := Steady.onward (p := (level (k + 1)).expr power) t
    rwa [hrun] at honward
  have hlog : t.log.entries = [] := List.prefix_nil.1 (hclean.log ▸ honward.log)
  have hvalid : t.Valid :=
    ⟨hsplits.eof_kind, by omega, fun hgave => absurd hgave (by simp [hdeep]), by simp [hlog]⟩
  have hbegins := begins_of_clean ⟨hvalid, hrun, hclean.log⟩ hclean
  have hgood := level_good (k := k + 1) (by omega)
  rw [show maxDepth + 1 - (k + 1) = t.depth by omega] at hgood
  have hreached := hgood.expr power t 0 True [] t.cursor.current.kind
    (by simp [TokenKind.lead, hbegins]) t ⟨rfl, .start hvalid (Nat.zero_le _)⟩
  have hbased : (Node.ofExpr (((level (k + 1)).expr power).run t).1).All Node.Based :=
    (level_bases (by omega) hvalid.depth).expr t (.at_depth t)
  rw [hrun] at hreached hbased
  dsimp only at hreached hbased
  have hcomplete : (Node.ofExpr e).All Node.Complete :=
    hreached.complete hclean (.node (.ofExpr e)) (by simp)
  have hlegible := legible_of_progress hreached.toProgress htokens hclean hcomplete hlong
  refine written_expr e fun n hn => ⟨hcomplete n hn, hbased n hn, hfunction n hn, ?_⟩
  exact fun token htoken => hlegible token (Node.mem_tokens_of_own hn htoken)

end Grammar

end LuaFront
