import LuaFront.Proofs.NormalForm.Erased
import Mathlib.Data.List.Forall2

/-!
Normal forms as the lexer finds them. No two pieces of a normal form run into each other: after a
number there is no letter and no dot, after a name none but the dot or colon of a suffix, and what
comes after a sign does not make another sign of it, or a comment. So what is lexed of a normal form
are the words of the expression.
-/

namespace LuaFront

open Text
open Numeral (Stops)
open Diagnostic (errorSpans)

variable {cs : List Char} {t : Token} {w : List Token}

/-- From whatever offset on, a text is lexed to some tokens and its end, and no error is found. -/
structure Lexes (cs : List Char) (w : List Token) : Prop where
  tokens : ∀ offset,
    (Scanned.ofChars offset cs).map (·.token.bare) = w ++ [Token.missing .eof 0]
  errors : ∀ offset, errorSpans ((Scanned.ofChars offset cs).flatMap (·.diagnostics)) = []

namespace Lexes

lemma nil : Lexes [] [] := by
  have hend : ∀ offset, Scanned.ofChars offset []
      = [⟨⟨.eof, "", .empty offset, []⟩, []⟩] := fun offset => by
    have hgap : Gap.ofChars offset [] = ⟨[], offset, [], []⟩ := Gap.ofChars_of_none rfl
    rw [Scanned.ofChars_of_nil (by rw [hgap]), hgap]
  constructor <;> intro offset <;> rw [hend] <;> rfl

/-- A blank stands in front of a token and does not show in it. -/
lemma blank (h : Lexes cs w) : Lexes (' ' :: cs) w := by
  have hblank : ∀ offset, ∃ trivia, Scanned.ofChars offset (' ' :: cs)
      = (Scanned.ofChars (offset + byteSize [' ']) cs).modifyHead (·.behind trivia) := by
    intro offset
    obtain ⟨trivia, hgap, -⟩ := Gap.ofChars_blanks offset cs (List.forall_mem_singleton.2
      (show isSpace ' ' = true from rfl))
    exact ⟨trivia, Scanned.ofChars_of_gap hgap⟩
  constructor <;> intro offset <;> obtain ⟨trivia, heq⟩ := hblank offset
  · rw [heq, ← h.tokens (offset + byteSize [' '])]
    cases Scanned.ofChars (offset + byteSize [' ']) cs <;> rfl
  · rw [heq, ← h.errors (offset + byteSize [' '])]
    cases Scanned.ofChars (offset + byteSize [' ']) cs <;> rfl

/-- A token in front of what it does not run on into. -/
lemma token (ht : t.Legible) (hcs : Stops t.kind.runsOn cs) (h : Lexes cs w) :
    Lexes (t.text.toList ++ cs) (t.bare :: w) := by
  obtain ⟨c, ds, htext, hgap, reports, hreports, hlexeme⟩ := ht.read hcs
  have hfirst : ∀ offset, ∃ x : Scanned, x.token.bare = t.bare ∧ errorSpans x.diagnostics = []
      ∧ Scanned.ofChars offset (t.text.toList ++ cs)
        = x :: Scanned.ofChars (offset + byteSize (c :: ds)) cs := by
    intro offset
    have hopen : Gap.ofChars offset (c :: (ds ++ cs)) = ⟨[], offset, c :: (ds ++ cs), []⟩ :=
      Gap.ofChars_of_none hgap
    refine ⟨.first ⟨[], offset, c :: (ds ++ cs), []⟩ ⟨t.kind, c :: ds, cs, reports⟩, ?_, ?_, ?_⟩
    · rw [Scanned.first, ← htext, String.ofList_toList]
      rfl
    · rw [Scanned.first, Diagnostic.errorSpans_append, Diagnostic.errorSpans_shift, hreports]
      rfl
    · rw [htext, List.cons_append, Scanned.ofChars_of_cons (by rw [hopen]), hopen, hlexeme]
  constructor <;> intro offset <;> obtain ⟨x, htoken, herrors, heq⟩ := hfirst offset
  · rw [heq, List.map_cons, h.tokens, htoken, List.cons_append]
  · rw [heq, List.flatMap_cons, Diagnostic.errorSpans_append, herrors, h.errors]
    rfl

lemma sign (sign : Symbol) (hcs : Stops sign.runsOn cs) (h : Lexes cs w) :
    Lexes (sign.chars ++ cs) (.sign sign :: w) := by
  have htext : (Token.sign sign).text.toList = sign.chars := String.toList_ofList
  rw [← htext]
  exact token (.symbol rfl htext) hcs h

end Lexes

/-! ### Where expressions end -/

lemma Numeral.Stops.never (cs : List Char) : Stops (fun _ => false) cs := by
  cases cs <;> rfl

/-- What the last token of the normal form would take along. -/
def Expr.runsOn : Expr → Char → Bool
  | .literal lit => lit.token.kind.runsOn
  | .name _ | .field _ _ _ => Word.isInner
  | _ => fun _ => false

lemma Numeral.isTail_of_isInner {c : Char} (h : Word.isInner c = true) : isTail c = true := by
  simp [isTail, h]

lemma Expr.Written.stops {e : Expr} (h : e.Written) (hcs : Stops Numeral.isTail cs) :
    Stops e.runsOn cs := by
  have hinner : Stops Word.isInner cs := hcs.mono fun _ => Numeral.isTail_of_isInner
  cases e with
  | literal lit =>
    have hkind : lit.token.kind = lit.kind.token := h.form
    rw [Expr.runsOn, hkind]
    cases lit.kind <;> first | exact hinner | exact hcs | exact hcs.mono nofun
  | name | field => exact hinner
  | _ => exact hcs.mono nofun

lemma Expr.stops_of_isPrefix {e : Expr} (h : e.isPrefix = true) (hcs : Stops Word.isInner cs) :
    Stops e.runsOn cs := by
  cases e with
  | name | field => exact hcs
  | literal | vararg | function | table | unary | binary => cases h
  | _ => exact hcs.mono nofun

/-! ### Where expressions begin -/

/-- A sign in front of the character could take it along. -/
def isJoined (c : Char) : Bool := c = '[' || c = '=' || c = '-'

lemma Token.Legible.head_word (h : t.Legible) (hkind : t.kind = .ident) :
    ∃ c ds, t.text.toList = c :: ds ∧ Word.isStart c = true := by
  cases h with
  | word htext hstart => exact ⟨_, _, htext, hstart⟩
  | number hnumber | quoted hnumber | symbol hnumber =>
    rw [hkind] at hnumber
    cases hnumber

lemma Token.Legible.head (h : t.Legible) (hsign : ∀ sign, t.kind ≠ .symbol sign) :
    ∃ c ds, t.text.toList = c :: ds ∧ isJoined c = false := by
  cases h with
  | @word c ds htext hstart =>
    have hne := Word.ne_of_isStart hstart
    exact ⟨c, ds, htext, by simp [isJoined, hne '[' rfl, hne '=' rfl, hne '-' rfl]⟩
  | number _ hspelled =>
    obtain ⟨c, ds, htext, hhead⟩ := hspelled.head
    refine ⟨c, ds, htext, ?_⟩
    rw [Bool.or_eq_true, Bool.and_eq_true, decide_eq_true_eq] at hhead
    rcases hhead with hdigit | ⟨rfl, -⟩
    · have hne : ∀ d : Char, d.isDigit = false → c ≠ d := by
        rintro d hd rfl
        rw [hdigit] at hd
        cases hd
      simp [isJoined, hne '[' rfl, hne '=' rfl, hne '-' rfl]
    · rfl
  | @quoted quote ds _ hquote htext =>
    refine ⟨quote, ds, htext, ?_⟩
    rcases hquote with rfl | rfl <;> rfl
  | @symbol sign hkind => exact absurd hkind (hsign sign)

lemma Expr.Written.head (indent : Nat) : ∀ {e : Expr}, e.Written →
    ∃ c ds, (NormalForm.expr indent e).toList = c :: ds ∧ isJoined c = false
  | .literal lit, h => by
    rw [NormalForm.expr]
    refine Token.Legible.head h.legible fun sign hkind => ?_
    have hform : lit.token.kind = lit.kind.token := h.form
    rw [hform] at hkind
    cases hlit : lit.kind <;> simp [hlit, LiteralKind.token] at hkind
  | .vararg _, _ => by
    rw [NormalForm.expr]
    exact ⟨'.', ['.', '.'], rfl, rfl⟩
  | .name id, h => by
    rw [NormalForm.expr]
    exact h.legible.head fun sign hkind => by simp [h.kind] at hkind
  | .table ⟨_, ⟨_, _⟩, _⟩, _ => by
    rw [NormalForm.expr, NormalForm.table, String.toList_append, String.toList_append]
    exact ⟨'\x7b', _, rfl, rfl⟩
  | .paren _ _ _, _ | .unary _ _ _, _ | .binary _ _ _ _, _ => by
    rw [NormalForm.expr]
    simp only [String.toList_append]
    exact ⟨'(', _, rfl, rfl⟩
  | .field base _ _, h | .index base _ _ _, h | .call base _, h | .methodCall base _ _ _, h => by
    obtain ⟨c, ds, htext, hc⟩ := Expr.Written.head indent h.1.2
    rw [NormalForm.expr]
    simp only [NormalForm.call, String.toList_append, htext]
    exact ⟨c, _, rfl, hc⟩

/-! ### Lists -/

/-- In front of what is no part of a number or a word, the text is lexed to some words. -/
def Spells (text : String) (v : List Token) : Prop :=
  ∀ ⦃cs w⦄, Stops Numeral.isTail cs → Lexes cs w → Lexes (text.toList ++ cs) (v ++ w)

lemma toList_commas (text : String) (texts : List String) :
    (NormalForm.commas (text :: texts)).toList
      = text.toList ++ texts.flatMap fun other => ',' :: ' ' :: other.toList := by
  rw [NormalForm.commas, String.toList_intercalate]
  induction texts generalizing text with
  | nil => simp
  | cons other texts ih =>
    rw [List.map_cons, List.map_cons, List.intercalate_cons_cons, ← List.map_cons, ih]
    simp

lemma spells_commas {texts : List String} {lists : List (List Token)}
    (h : List.Forall₂ Spells texts lists) :
    Spells (NormalForm.commas texts) (Token.commas lists) := by
  intro cs w hcs hw
  have hmore : ∀ {texts lists}, List.Forall₂ Spells texts lists →
      Stops Numeral.isTail (texts.flatMap (fun other => ',' :: ' ' :: other.toList) ++ cs)
        ∧ Lexes (texts.flatMap (fun other => ',' :: ' ' :: other.toList) ++ cs)
          (lists.flatMap (.sign .comma :: ·) ++ w) := by
    intro texts lists h
    induction h with
    | nil => exact ⟨hcs, hw⟩
    | cons hfirst _ ih =>
      rw [List.flatMap_cons, List.flatMap_cons, List.append_assoc, List.append_assoc]
      exact ⟨rfl, Lexes.sign .comma rfl (hfirst ih.1 ih.2).blank⟩
  cases h with
  | nil => exact hw
  | cons hfirst hrest =>
    obtain ⟨hstop, hlexes⟩ := hmore hrest
    rw [toList_commas, Token.commas, List.append_assoc, List.append_assoc]
    exact hfirst hstop hlexes

/-! ### Operators -/

lemma Lexes.word (spelling : String) (ht : t.Legible) (hspelling : t.kind.spelling? = some spelling)
    (hcs : Stops t.kind.runsOn cs) (h : Lexes cs w) :
    Lexes (spelling.toList ++ cs) (t.bare :: w) :=
  ht.spelled hspelling ▸ Lexes.token ht hcs h

lemma TokenKind.spelling?_of_binaryOp {kind : TokenKind} {op : BinaryOp}
    (h : kind.binaryOp? = some op) :
    kind.spelling? = some op.spelling ∧ kind.runsOn ' ' = false := by
  unfold binaryOp? at h
  split at h <;> cases h <;> exact ⟨by decide, rfl⟩

lemma Lexes.sign_of_unary {op : UnaryOp} (hop : t.kind.unaryOp? = some op) (ht : t.Legible)
    {c : Char} (hc : isJoined c = false) (h : Lexes (c :: cs) w) :
    Lexes ((NormalForm.sign op).toList ++ c :: cs) (t.bare :: w) := by
  obtain ⟨kind, text, span, trivia⟩ := t
  unfold TokenKind.unaryOp? at hop
  dsimp only at hop
  simp only [isJoined, Bool.or_eq_false_iff, decide_eq_false_iff_not] at hc
  split at hop <;> cases hop
  · exact Lexes.word "not" ht rfl rfl h.blank
  · exact Lexes.word "-" ht rfl (decide_eq_false hc.2) h
  · exact Lexes.word "#" ht rfl rfl h
  · exact Lexes.word "~" ht rfl (decide_eq_false hc.1.2) h

/-! ### Expressions -/

lemma Identifier.Written.lexes {id : Identifier} (h : id.Written) (hcs : Stops Word.isInner cs)
    (hw : Lexes cs w) : Lexes (id.name.toList ++ cs) (id.token.bare :: w) :=
  .token h.legible (by rwa [h.kind]) hw

/-- After a dot or a colon. -/
lemma Identifier.Written.stops {id : Identifier} (h : id.Written) {p : Char → Bool}
    (hp : ∀ c, Word.isStart c = true → p c = false) : Stops p (id.name.toList ++ cs) := by
  obtain ⟨c, ds, htext, hc⟩ := h.legible.head_word h.kind
  rw [Identifier.name, htext]
  exact hp c hc

lemma Word.not_runsOn_dot {c : Char} (h : isStart c = true) : Symbol.dot.runsOn c = false := by
  simp [Symbol.runsOn, ne_of_isStart h '.' rfl, not_isDigit_of_isStart h]

lemma Word.not_runsOn_colon {c : Char} (h : isStart c = true) : Symbol.colon.runsOn c = false := by
  simp [Symbol.runsOn, ne_of_isStart h ':' rfl]

variable (indent : Nat)

/-- After a bracket. -/
lemma Expr.Written.stops_openBracket {e : Expr} (h : e.Written) :
    Stops Symbol.openBracket.runsOn ((NormalForm.expr indent e).toList ++ cs) := by
  obtain ⟨c, ds, htext, hc⟩ := h.head indent
  simp only [isJoined, Bool.or_eq_false_iff, decide_eq_false_iff_not] at hc
  rw [htext]
  change (decide (c = '[') || decide (c = '=')) = false
  simp [hc]

mutual

/-- An expression in front of what its last token does not take along. -/
lemma lexes_expr : ∀ e : Expr, e.Written → ∀ {cs w}, Stops e.runsOn cs → Lexes cs w →
    Lexes ((NormalForm.expr indent e).toList ++ cs) (e.words ++ w)
  | .literal lit, h, cs, w, hcs, hw => by
    rw [NormalForm.expr, Expr.words]
    exact .token h.legible hcs hw
  | .vararg dots, h, cs, w, hcs, hw => by
    have hdots : dots.token.bare = .sign .dotDotDot := h
    rw [NormalForm.expr, Expr.words, hdots]
    exact .sign .dotDotDot hcs hw
  | .name id, h, cs, w, hcs, hw => by
    rw [NormalForm.expr, Expr.words]
    exact h.lexes hcs hw
  | .table t, h, cs, w, hcs, hw => by
    rw [NormalForm.expr, Expr.words]
    exact lexes_table t h hw
  | .paren _ inner _, h, cs, w, hcs, hw => by
    have hinner : inner.Written := h
    rw [NormalForm.expr, Expr.words]
    simp only [String.toList_append, List.append_assoc, List.cons_append, List.nil_append]
    refine .sign .openParen (Stops.never _) (lexes_expr inner hinner (hinner.stops rfl) ?_)
    exact .sign .closeParen hcs hw
  | .field base dot name, h, cs, w, hcs, hw => by
    obtain ⟨⟨hopen, hbase⟩, -, hname⟩ := h
    rw [NormalForm.expr, Expr.words]
    simp only [String.toList_append, List.append_assoc, List.cons_append, List.nil_append]
    refine lexes_expr base hbase (Expr.stops_of_isPrefix hopen rfl) ?_
    exact .sign .dot (hname.stops fun _ => Word.not_runsOn_dot) (hname.lexes hcs hw)
  | .index base _ key _, h, cs, w, hcs, hw => by
    obtain ⟨⟨hopen, hbase⟩, -, hkey, -⟩ := h
    rw [NormalForm.expr, Expr.words]
    simp only [String.toList_append, List.append_assoc, List.cons_append, List.nil_append]
    refine lexes_expr base hbase (Expr.stops_of_isPrefix hopen rfl) ?_
    refine .sign .openBracket (hkey.stops_openBracket indent) ?_
    exact lexes_expr key hkey (hkey.stops rfl) (.sign .closeBracket hcs hw)
  | .call callee args, h, cs, w, hcs, hw => by
    obtain ⟨⟨hopen, hcallee⟩, hargs⟩ := h
    rw [NormalForm.expr, Expr.words]
    simp only [NormalForm.call, String.toList_append, List.append_assoc]
    refine lexes_expr callee hcallee (Expr.stops_of_isPrefix hopen rfl) ?_
    exact lexes_callArgs args hargs hw
  | .methodCall receiver _ name args, h, cs, w, hcs, hw => by
    obtain ⟨⟨hopen, hreceiver⟩, -, hname, hargs⟩ := h
    rw [NormalForm.expr, Expr.words]
    simp only [NormalForm.call, String.toList_append, List.append_assoc, List.cons_append]
    refine lexes_expr receiver hreceiver (Expr.stops_of_isPrefix hopen rfl) ?_
    refine .sign .colon (hname.stops fun _ => Word.not_runsOn_colon) (hname.lexes rfl ?_)
    exact lexes_callArgs args hargs hw
  | .unary op sign operand, h, cs, w, hcs, hw => by
    obtain ⟨hop, hsign, hoperand⟩ := h
    obtain ⟨c, ds, htext, hc⟩ := hoperand.head indent
    have hstop : Stops operand.runsOn (")".toList ++ cs) := hoperand.stops rfl
    have hrest := lexes_expr operand hoperand hstop (.sign .closeParen hcs hw)
    rw [htext, List.cons_append] at hrest
    rw [NormalForm.expr, Expr.words]
    simp only [String.toList_append, List.append_assoc, List.cons_append, List.nil_append, htext]
    exact .sign .openParen (Stops.never _) (.sign_of_unary hop hsign hc hrest)
  | .binary lhs op sign rhs, h, cs, w, hcs, hw => by
    obtain ⟨hlhs, ⟨hop, hsign⟩, hrhs⟩ := h
    obtain ⟨hspelling, hblank⟩ := TokenKind.spelling?_of_binaryOp hop
    rw [NormalForm.expr, Expr.words]
    simp only [String.toList_append, List.append_assoc, List.cons_append, List.nil_append]
    refine .sign .openParen (Stops.never _) (lexes_expr lhs hlhs (hlhs.stops rfl) (.blank ?_))
    refine .word _ hsign hspelling hblank (.blank ?_)
    exact lexes_expr rhs hrhs (hrhs.stops rfl) (.sign .closeParen hcs hw)

lemma lexes_exprs : ∀ l : List (Pair Expr), Expr.PairsWritten l →
    List.Forall₂ Spells (NormalForm.exprs indent l) (Expr.wordLists l)
  | [], _ => .nil
  | ⟨e, _⟩ :: more, h => by
    obtain ⟨he, hmore⟩ := h
    exact .cons (fun cs w hcs hw => lexes_expr e he (he.stops hcs) hw) (lexes_exprs more hmore)

/-- Arguments in parentheses. -/
lemma lexes_callArgs : ∀ a : CallArgs, a.Written → ∀ {cs w}, Lexes cs w →
    Lexes ("(".toList ++ ((NormalForm.callArgs indent a).toList ++ (")".toList ++ cs)))
      (a.words ++ w)
  | .paren _ ⟨args, _⟩ _, h, cs, w, hw => by
    rw [NormalForm.callArgs, CallArgs.words]
    simp only [List.append_assoc, List.cons_append, List.nil_append]
    refine .sign .openParen (Stops.never _) (spells_commas (lexes_exprs args h) rfl ?_)
    exact .sign .closeParen (Stops.never _) hw
  | .table t, h, cs, w, hw => by
    rw [NormalForm.callArgs, CallArgs.words]
    simp only [List.append_assoc, List.cons_append, List.nil_append]
    refine .sign .openParen (Stops.never _) (lexes_table t h ?_)
    exact .sign .closeParen (Stops.never _) hw
  | .string lit, h, cs, w, hw => by
    rw [NormalForm.callArgs, CallArgs.words]
    have hstop : Stops lit.token.kind.runsOn (")".toList ++ cs) :=
      Expr.Written.stops (e := .literal lit) h rfl
    exact .sign .openParen (Stops.never _)
      (.token h.legible hstop (.sign .closeParen (Stops.never _) hw))

lemma lexes_table : ∀ t : Table, t.Written → ∀ {cs w}, Lexes cs w →
    Lexes ((NormalForm.table indent t).toList ++ cs) (t.words ++ w)
  | ⟨_, ⟨fields, _⟩, _⟩, h, cs, w, hw => by
    obtain ⟨-, hfields, -⟩ := h
    rw [NormalForm.table, Table.words]
    simp only [String.toList_append, List.append_assoc, List.cons_append, List.nil_append]
    refine .sign .openBrace (Stops.never _) (spells_commas (lexes_fields fields hfields) rfl ?_)
    exact .sign .closeBrace (Stops.never _) hw

lemma lexes_fields : ∀ l : List (Pair TableField), TableField.PairsWritten l →
    List.Forall₂ Spells (NormalForm.fields indent l) (TableField.wordLists l)
  | [], _ => .nil
  | ⟨f, _⟩ :: more, h => .cons (lexes_field f h.1) (lexes_fields more h.2)

lemma lexes_field : ∀ f : TableField, f.Written → Spells (NormalForm.field indent f) f.words
  | .positional value, h, cs, w, hcs, hw => by
    have hvalue : value.Written := h
    rw [NormalForm.field, TableField.words]
    exact lexes_expr value hvalue (hvalue.stops hcs) hw
  | .named name _ value, h, cs, w, hcs, hw => by
    obtain ⟨hname, -, hvalue⟩ := h
    rw [NormalForm.field, TableField.words]
    simp only [String.toList_append, List.append_assoc, List.cons_append]
    refine hname.lexes rfl (.blank (.sign .eq rfl (.blank ?_)))
    exact lexes_expr value hvalue (hvalue.stops hcs) hw
  | .keyed _ key _ _ value, h, cs, w, hcs, hw => by
    obtain ⟨-, hkey, -, -, hvalue⟩ := h
    rw [NormalForm.field, TableField.words]
    simp only [String.toList_append, List.append_assoc, List.cons_append]
    refine .sign .openBracket (hkey.stops_openBracket indent) ?_
    refine lexes_expr key hkey (hkey.stops rfl) (.sign .closeBracket rfl (.blank ?_))
    exact .sign .eq rfl (.blank (lexes_expr value hvalue (hvalue.stops hcs) hw))

end

/-- **The words of an expression are lexed of its normal form.** -/
theorem Expr.lexes_normalForm {e : Expr} (h : e.Written) : Lexes e.normalForm.toList e.words := by
  have hend : Stops e.runsOn [] := h.stops rfl
  have hlexes := lexes_expr 0 e h hend .nil
  rwa [List.append_nil, List.append_nil] at hlexes

end LuaFront
