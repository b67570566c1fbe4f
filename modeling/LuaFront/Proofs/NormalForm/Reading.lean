import LuaFront.Grammar.Chunk
import LuaFront.Proofs.NormalForm.Phrases

/-!
The words of an expression are read as the expression, but for what is erased. The parentheses that
the normal form puts around operations leave nothing to the powers of operators: within them there
is one operator, and its operands are words of their own.
-/

namespace LuaFront.Grammar

open Parse ParseState LuaFront.Expr
open Phrase (Stops)

variable {inner : Level} {depth power bound : Nat} {w rest : List Token} {a b e : Expr}

/-! ### Levels -/

/-- What comes after an expression does not go on with it. -/
def Ends (rest : List Token) : Prop := Stops true (rest.map (·.kind))

/-- At a depth the parsers of a level read the words of an expression as the expression. -/
structure Level.Rereads (l : Level) (depth : Nat) : Prop where
  expr : ∀ {power e w rest}, e.Written → Line power e w → Ends rest →
    Consumes depth (l.expr power) w rest fun a => a.erased = e.erased
  operators : ∀ {power a b e w rest}, Tail power b e w → a.erased = b.erased → Ends rest →
    Consumes depth (l.operators power a) w rest fun a => a.erased = e.erased
  suffixes : ∀ {a b e w rest}, Suffixes b e w → a.erased = b.erased →
    beginsSuffix true (.front (rest.map (·.kind))) = false →
    Consumes depth (l.suffixes true a) w rest fun a => a.erased = e.erased

/-- No state is as deep as the bottom. -/
lemma Level.bottom_rereads : Level.bottom.Rereads (maxDepth + 1) := by
  have hnone : ∀ {w s}, ¬ Holding (maxDepth + 1) w s := by
    intro w s h
    have := h.ready.limit
    have := h.ready.depth_eq
    omega
  constructor <;> intros <;> exact fun s hs => absurd hs hnone

lemma ends_sign {sign : Symbol} (h : Phrase.isStop (.symbol sign) = true) :
    Ends (.sign sign :: rest) := .of h

lemma front_sign_ne {sign other : Symbol} (h : sign ≠ other) :
    TokenKind.front ((Token.sign sign :: rest).map (·.kind)) ≠ .symbol other :=
  fun hfront => h (TokenKind.symbol.inj hfront)

/-! ### Commas -/

lemma length_le_more (ws : List (List Token)) :
    ws.length ≤ (ws.flatMap (Token.sign .comma :: ·)).length := by
  induction ws with
  | nil => exact Nat.le_refl _
  | cons w ws ih =>
    simp only [List.flatMap_cons, List.length_append, List.length_cons]
    omega

lemma length_le_commas {ws : List (List Token)} (h : ∀ w ∈ ws, w ≠ []) :
    ws.length ≤ (Token.commas ws).length := by
  cases ws with
  | nil => exact Nat.le_refl _
  | cons w ws =>
    have hfirst := List.length_pos_of_ne_nil (h w List.mem_cons_self)
    have hmore := length_le_more ws
    rw [Token.commas, List.length_append, List.length_cons]
    omega

lemma ends_more (ws : List (List Token)) (hrest : Ends rest) :
    Ends (ws.flatMap (.sign .comma :: ·) ++ rest) := by
  cases ws with
  | nil => exact hrest
  | cons => exact ends_sign rfl

lemma front_more (ws : List (List Token))
    (hrest : TokenKind.front (rest.map (·.kind)) ≠ .symbol .eq) :
    TokenKind.front ((ws.flatMap (Token.sign .comma :: ·) ++ rest).map (·.kind)) ≠ .symbol .eq := by
  cases ws with
  | nil => exact hrest
  | cons => exact front_sign_ne (by decide)

lemma not_beginsSuffix {k : TokenKind} {op : BinaryOp} (h : k.binaryOp? = some op) :
    beginsSuffix true k = false := by
  unfold TokenKind.binaryOp? at h
  split at h <;> first | rfl | cases h

lemma ne_eof_of_binaryOp {k : TokenKind} {op : BinaryOp} (h : k.binaryOp? = some op) :
    k ≠ .eof := by
  rintro rfl
  cases h

lemma ne_eof_of_unaryOp {k : TokenKind} {op : UnaryOp} (h : k.unaryOp? = some op) : k ≠ .eof := by
  rintro rfl
  cases h

section Inner

variable [inner.Steady] (h : inner.Rereads depth)

include h

omit [inner.Steady] in
lemma expression_consumes (he : e.Written) (hw : Line 0 e w) (hrest : Ends rest) :
    Consumes depth inner.expression w rest fun a => a.erased = e.erased :=
  h.expr he hw hrest

/-! ### Lists -/

lemma moreItems_consumes {es : List Expr} {list : Separated Expr} (hes : ∀ e ∈ es, e.Written)
    (hbound : es.length ≤ bound) (hrest : Ends rest)
    (hlast : TokenKind.front (rest.map (·.kind)) ≠ .symbol .comma) :
    Consumes depth (moreItems inner.expression bound list)
      ((es.map words).flatMap (.sign .comma :: ·)) rest
      fun l => l.items.map erased = list.items.map erased ++ es.map erased := by
  induction es generalizing bound list with
  | nil =>
    cases bound with
    | zero => exact .ret (List.append_nil _).symm
    | succ bound => exact .takeNone (w := []) hlast (.ret (List.append_nil _).symm)
  | cons e es ih =>
    obtain ⟨bound, rfl⟩ := Nat.exists_eq_add_one_of_ne_zero (Nat.ne_zero_of_lt hbound)
    obtain ⟨he, hes⟩ := List.forall_mem_cons.1 hes
    refine .take rfl (by decide) fun comma _ => ?_
    refine (expression_consumes h he .whole (ends_more _ hrest)).bind fun next hnext => ?_
    refine (ih hes (Nat.le_of_succ_le_succ hbound)).imp fun l hl => ?_
    simp [hl, hnext]

lemma exprList_consumes {e : Expr} {es : List Expr} (hes : ∀ e' ∈ e :: es, e'.Written)
    (hrest : Ends rest) (hlast : TokenKind.front (rest.map (·.kind)) ≠ .symbol .comma) :
    Consumes depth inner.exprList (Token.commas ((e :: es).map words)) rest
      fun l => l.items.map erased = (e :: es).map erased := by
  obtain ⟨he, hes⟩ := List.forall_mem_cons.1 hes
  refine .lastStop fun anchor => ?_
  refine (expression_consumes h he .whole (ends_more _ hrest)).bind fun first hfirst => ?_
  refine .remaining ((moreItems_consumes h hes ?_ hrest hlast).imp fun l hl => ?_)
  · have := length_le_more (es.map words)
    rw [List.length_map] at this
    rw [List.length_append]
    omega
  · rw [hl, Separated.items_push]
    simp [Separated.items, Separated.empty, hfirst]

/-! ### Tables -/

lemma tableField_consumes {f : TableField} (hf : f.Written) (hrest : Ends rest)
    (heq : TokenKind.front (rest.map (·.kind)) ≠ .symbol .eq) :
    Consumes depth (tableField inner) f.words rest fun a => a.erased = f.erased := by
  cases f with
  | positional value =>
    have hvalue : value.Written := hf
    have hpositional : Consumes depth (do return .positional (← inner.expression)) value.words rest
        fun a => TableField.erased a = .positional value.erased := by
      have hexpr := expression_consumes h hvalue .whole hrest
      rw [← List.append_nil value.words]
      exact hexpr.bind fun a ha => .ret (congrArg TableField.positional ha)
    obtain ⟨t, v, hwords, hfront⟩ := hvalue.front
    refine .currentKind (k := t.kind) (by rw [TableField.words, hwords]; rfl) ?_
    have hbegins := hfront.begins
    split
    · next hkind =>
      rw [hkind] at hbegins
      cases hbegins
    · next hkind =>
      refine .nextKind (k := .front ((v ++ rest).map (·.kind)))
        (by rw [TableField.words, hwords]; rfl) ?_
      rw [if_neg (hfront.second hkind rest heq)]
      exact hpositional
    · exact hpositional
  | named name eq value =>
    obtain ⟨hname, heq, hvalue⟩ := hf
    have hident : name.token.bare.kind = .ident := hname.kind
    refine .currentKind (w := name.token.bare :: _) hident (.nextKind rfl ?_)
    refine .advance (by rw [hident]; decide) fun a ha => .advance (by decide) fun b hb => ?_
    rw [← List.append_nil value.words]
    refine (expression_consumes h hvalue .whole hrest).bind fun c hc => .ret ?_
    rw [TableField.erased, TableField.erased, hc, hb, heq]
    congr 1
    exact congrArg Identifier.mk ha
  | keyed opening key closing eq value =>
    obtain ⟨hopening, hkey, hclosing, heq, hvalue⟩ := hf
    refine .currentKind rfl (.advance (by decide) fun a ha => ?_)
    refine (expression_consumes h hkey .whole (ends_sign rfl)).bind fun b hb => ?_
    refine .expectClosing rfl (by decide) fun c hc => .expect rfl (by decide) fun d hd => ?_
    rw [← List.append_nil value.words]
    refine (expression_consumes h hvalue .whole hrest).bind fun value' hvalue' => .ret ?_
    rw [TableField.erased, TableField.erased, ha, hb, hc, hd, hvalue', hopening, hclosing, heq]

omit [inner.Steady] h in
lemma field_begins {f : TableField} (hf : f.Written) :
    ∃ t v, f.words = t :: v ∧ (t.kind.canBeginExpr || t.kind = .symbol .openBracket) = true := by
  cases f with
  | positional value =>
    obtain ⟨t, v, hwords, hfront⟩ := Written.front (e := value) hf
    exact ⟨t, v, hwords, by simp [hfront.begins]⟩
  | named name eq value =>
    have hident : name.token.bare.kind = .ident := hf.1.kind
    exact ⟨_, _, rfl, by rw [hident]; rfl⟩
  | keyed => exact ⟨_, _, rfl, rfl⟩

lemma tableFields_consumes {fs : List TableField} {fields : Separated TableField}
    (hfs : ∀ f ∈ fs, f.Written) (hbound : fs.length ≤ bound) :
    Consumes depth (tableFields inner bound fields) (Token.commas (fs.map TableField.words))
      (.sign .closeBrace :: rest)
      fun l => l.items.map TableField.erased
        = fields.items.map TableField.erased ++ fs.map TableField.erased := by
  induction fs generalizing bound fields with
  | nil =>
    cases bound with
    | zero => exact .ret (List.append_nil _).symm
    | succ bound => exact .currentKind (w := []) rfl (.ret (List.append_nil _).symm)
  | cons f fs ih =>
    obtain ⟨bound, rfl⟩ := Nat.exists_eq_add_one_of_ne_zero (Nat.ne_zero_of_lt hbound)
    obtain ⟨hf, hfs⟩ := List.forall_mem_cons.1 hfs
    obtain ⟨t, v, hwords, ht⟩ := field_begins hf
    rw [List.map_cons, Token.commas]
    refine .currentKind (k := t.kind) (by rw [hwords]; rfl) ?_
    rw [if_pos ht]
    have hstop : Ends (.sign .closeBrace :: rest) := ends_sign rfl
    have hlast : TokenKind.front ((Token.sign .closeBrace :: rest).map (·.kind)) ≠ .symbol .eq :=
      front_sign_ne (by decide)
    refine (tableField_consumes h hf (ends_more _ hstop) (front_more _ hlast)).bind
      (h := fun field => Steady.cases fun next => ?_) fun a ha => ?_
    · split <;> infer_instance
    · cases fs with
      | nil =>
        refine .currentKind (w := []) rfl (.ret ?_)
        simp [ha]
      | cons g fs =>
        refine .currentKind rfl (.advance (by decide) fun sep _ => ?_)
        refine (ih hfs (Nat.le_of_succ_le_succ hbound)).imp fun l hl => ?_
        simp [hl, ha]

lemma table_consumes {t : Table} (ht : t.Written) :
    Consumes depth (table inner) t.words rest fun a => a.erased = t.erased := by
  obtain ⟨hopening, hfields, hclosing⟩ := t.written_iff.1 ht
  rw [t.words_eq]
  refine .advance (by decide) fun a ha => .remaining ?_
  have hbound : t.fields.items.length
      ≤ (Token.commas (t.fields.items.map TableField.words) ++ [Token.sign .closeBrace]
        ++ rest).length := by
    have hne : ∀ w ∈ t.fields.items.map TableField.words, w ≠ [] := by
      refine List.forall_mem_map.2 fun f hf => ?_
      obtain ⟨u, v, hwords, -⟩ := field_begins (hfields f hf)
      simp [hwords]
    have := length_le_commas hne
    rw [List.length_map] at this
    simp only [List.length_append]
    omega
  refine (tableFields_consumes h hfields hbound).bind fun fields hl => ?_
  refine .expectClosing rfl (by decide) fun c hc => .ret ?_
  rw [Table.erased_eq, Table.erased_eq, ha, hc, hopening, hclosing, hl]
  rfl

/-! ### Suffixes -/

lemma argList_consumes {es : List Expr} (hes : ∀ e ∈ es, e.Written) :
    Consumes depth (argList inner) (Token.commas (es.map words)) (.sign .closeParen :: rest)
      fun l => l.items.map erased = es.map erased := by
  cases es with
  | nil =>
    refine .atKind (w := []) (decide_eq_true rfl) ?_
    exact .lastStop fun anchor => .ret rfl
  | cons e es =>
    have hlast : TokenKind.front ((Token.sign .closeParen :: rest).map (·.kind))
      ≠ .symbol .comma := front_sign_ne (by decide)
    refine .atKind (decide_eq_false ?_) (exprList_consumes h hes (ends_sign rfl) hlast)
    obtain ⟨t, v, hwords, hfront⟩ := (hes e List.mem_cons_self).front
    rw [List.map_cons, Token.commas, hwords]
    intro hkind
    have hbegins := hfront.begins
    rw [show t.kind = .symbol .closeParen from hkind] at hbegins
    cases hbegins

lemma callArgs_consumes {args : CallArgs} (hargs : args.Written) :
    Consumes depth (callArgs inner) args.words rest fun a => a.erased = args.erased := by
  rw [args.words_eq]
  refine .currentKind rfl (.advance (by decide) fun a ha => ?_)
  refine (argList_consumes h (args.written_iff.1 hargs)).bind fun l hl => ?_
  refine .expectClosing rfl (by decide) fun c hc => .ret ?_
  rw [CallArgs.erased_eq, CallArgs.erased_eq, CallArgs.exprs, hl]

omit [inner.Steady] h in
lemma identifier_consumes {id : Identifier} (hid : id.Written) {f : Identifier → Parse Expr}
    {Q : Expr → Prop} (hf : ∀ a : Identifier, a.token.bare = id.token.bare →
      Consumes depth (f a) w rest Q) :
    Consumes depth (identifier >>= f) (id.token.bare :: w) rest Q := by
  rw [identifier, bind_assoc]
  exact .expect (t := id.token.bare) hid.kind (by decide) fun t ht => hf ⟨t⟩ ht

lemma suffix_consumes (hw : Suffix b e w) (hbase : a.erased = b.erased) :
    Consumes depth (suffix inner a) w rest fun a => a.erased = e.erased := by
  cases hw with
  | field hdot hname =>
    refine .currentKind rfl (.advance (by decide) fun dot hdot' => ?_)
    refine identifier_consumes hname fun name hname' => .ret ?_
    rw [erased, erased, hbase, hdot, hdot']
    exact congrArg (Expr.field _ _ ⟨·⟩) hname'
  | index hopening hkey hclosing =>
    refine .currentKind rfl (.advance (by decide) fun opening hopening' => ?_)
    refine (expression_consumes h hkey .whole (ends_sign rfl)).bind fun key hkey' => ?_
    refine .expectClosing rfl (by decide) fun closing hclosing' => .ret ?_
    rw [erased, erased, hbase, hopening, hopening', hkey', hclosing, hclosing']
  | method hcolon hname hargs =>
    refine .currentKind rfl (.advance (by decide) fun colon hcolon' => ?_)
    refine identifier_consumes hname fun name hname' => ?_
    rw [← List.append_nil (CallArgs.words _)]
    refine (callArgs_consumes h hargs).bind fun args hargs' => .ret ?_
    rw [erased, erased, hbase, hcolon, hcolon', hargs']
    exact congrArg (Expr.methodCall _ _ ⟨·⟩ _) hname'
  | @call args hargs =>
    have hfront : TokenKind.front ((args.words ++ rest).map (·.kind)) = .symbol .openParen := by
      rw [args.words_eq]
      rfl
    refine .currentKind hfront ?_
    rw [← List.append_nil args.words]
    refine (callArgs_consumes h hargs).bind fun args' hargs' => .ret ?_
    rw [erased, erased, hbase, hargs']

omit [inner.Steady] in
lemma primary_consumes (hw : Head b w) :
    Consumes depth (primary inner) w rest fun a => a.erased = b.erased := by
  cases hw with
  | @name id hid =>
    refine .currentKind (w := [id.token.bare]) hid.kind ?_
    refine .advance (by rw [show id.token.bare.kind = .ident from hid.kind]; decide) fun t ht => ?_
    exact .ret (congrArg (Expr.name ⟨·⟩) ht)
  | paren he hline hsame =>
    refine .currentKind rfl (.advance (by decide) fun opening _ => ?_)
    refine (expression_consumes h he hline (ends_sign rfl)).bind fun e' he' => ?_
    refine .expectClosing rfl (by decide) fun closing _ => .ret ?_
    rw [erased, he', hsame]

lemma suffixed_consumes (he : e.Written) (hform : (e.isPrefix || e.isOperation) = true)
    (hrest : beginsSuffix true (.front (rest.map (·.kind))) = false) :
    Consumes depth (suffixed inner true) e.words rest fun a => a.erased = e.erased := by
  obtain ⟨p, v, w, hp, hw, hwords⟩ := exists_suffixes he hform
  rw [hwords]
  exact (primary_consumes h hp).bind fun a ha => h.suffixes hw ha hrest

/-! ### Operands -/

lemma simpleExpr_consumes (he : e.Written)
    (hrest : beginsSuffix true (.front (rest.map (·.kind))) = false) :
    Consumes depth (simpleExpr inner) e.words rest fun a => a.erased = e.erased := by
  by_cases hform : (e.isPrefix || e.isOperation) = true
  · have hsuffixed := suffixed_consumes h he hform hrest
    obtain ⟨p, v, w, hp, hw, hwords⟩ := exists_suffixes he hform
    rw [hwords] at hsuffixed ⊢
    cases hp with
    | @name id hid => exact .currentKind (w := [id.token.bare] ++ w) hid.kind hsuffixed
    | paren => exact .currentKind rfl hsuffixed
  · cases e with
    | literal lit =>
      have hkind : lit.token.bare.kind = lit.kind.token := he.form
      have heof : lit.token.bare.kind ≠ .eof := by
        rw [hkind]
        cases lit.kind <;> decide
      have hliteral : Consumes depth (Grammar.literal lit.kind) [lit.token.bare] rest
          fun a => a.erased = (Expr.literal lit).erased :=
        .advance heof fun t ht => .ret (congrArg (Expr.literal ⟨lit.kind, ·⟩) ht)
      refine .currentKind (k := lit.kind.token) (w := [lit.token.bare]) hkind ?_
      cases hlit : lit.kind <;> rw [hlit] at hliteral <;> exact hliteral
    | vararg dots =>
      have hdots : dots.token.bare = .sign .dotDotDot := he
      rw [words, hdots]
      refine .currentKind rfl (.advance (by decide) fun t ht => .ret ?_)
      exact congrArg (Expr.vararg ⟨·⟩) (ht.trans hdots.symm)
    | table t =>
      have hfront : TokenKind.front ((t.words ++ rest).map (·.kind)) = .symbol .openBrace := by
        rw [t.words_eq]
        rfl
      rw [words]
      refine .currentKind hfront ?_
      rw [← List.append_nil t.words]
      exact (table_consumes h he).bind fun a ha => .ret (congrArg Expr.table ha)
    | function | invalid => exact he.elim
    | _ => exact absurd rfl hform

lemma operand_consumes {e : Expr} (he : e.Written)
    (hrest : beginsSuffix true (.front (rest.map (·.kind))) = false) :
    Consumes depth (operand inner) e.words rest fun a => a.erased = e.erased := by
  obtain ⟨t, v, hwords, hfront⟩ := he.front
  refine .currentKind (k := t.kind) (by rw [hwords]; rfl) ?_
  rw [hfront.operand]
  exact simpleExpr_consumes h he hrest

omit [inner.Steady] in
lemma unary_consumes {op : UnaryOp} {sign : Token} (he : (Expr.unary op sign e).Written)
    (hrest : Ends rest) :
    Consumes depth (operand inner) (sign.bare :: e.words) rest
      fun a => a.erased = (Expr.unary op sign e).erased := by
  obtain ⟨hop, -, hoperand⟩ := he
  refine .currentKind (k := sign.kind) rfl ?_
  rw [hop]
  refine .advance (t := sign.bare) (ne_eof_of_unaryOp hop) fun sign' hsign' => ?_
  rw [← List.append_nil e.words]
  refine (h.expr hoperand .whole hrest).bind fun a ha => .ret ?_
  rw [erased, erased, ha, hsign']

end Inner

/-! ### The parsers of the next level out -/

section Around

variable [inner.Steady] (h : inner.Rereads (depth + 1))

include h

lemma exprAround_consumes (he : e.Written) (hw : Line power e w) (hrest : Ends rest) :
    Consumes depth (exprAround inner power) w rest fun a => a.erased = e.erased := by
  refine .nested ?_
  cases hw with
  | whole =>
    rw [← List.append_nil e.words]
    refine (operand_consumes h he (hrest.suffix rfl)).bind fun first hfirst => ?_
    exact h.operators .nil hfirst hrest
  | @unary _ op sign operand =>
    rw [← List.append_nil (sign.bare :: operand.words)]
    refine (unary_consumes h he hrest).bind fun first hfirst => ?_
    exact h.operators .nil hfirst hrest
  | @binary lhs op sign rhs =>
    refine (operand_consumes h he.1 ?_).bind fun first hfirst => ?_
    · exact not_beginsSuffix (k := sign.kind) he.2.1.1
    · exact h.operators (.cons he) hfirst hrest

lemma operatorsAround_consumes (hw : Tail power b e w) (hfirst : a.erased = b.erased)
    (hrest : Ends rest) :
    Consumes depth (operatorsAround inner power a) w rest fun a => a.erased = e.erased := by
  cases hw with
  | nil =>
    refine .currentKind (w := []) rfl ?_
    rw [List.nil_append, hrest.operator]
    exact .ret hfirst
  | @cons lhs op sign rhs he =>
    obtain ⟨-, ⟨hop, -⟩, hrhs⟩ := he
    refine .currentKind (k := sign.kind) rfl ?_
    rw [hop]
    dsimp only
    rw [if_neg (by cases op <;> decide)]
    refine .nested (.advance (t := sign.bare) (ne_eof_of_binaryOp hop) fun sign' hsign' => ?_)
    rw [← List.append_nil rhs.words]
    refine (h.expr hrhs .whole hrest).bind fun second hsecond => ?_
    refine h.operators .nil ?_ hrest
    rw [erased, erased, hfirst, hsign', hsecond]

lemma suffixesAround_consumes (hw : Suffixes b e w) (hbase : a.erased = b.erased)
    (hrest : beginsSuffix true (.front (rest.map (·.kind))) = false) :
    Consumes depth (suffixesAround inner true a) w rest fun a => a.erased = e.erased := by
  cases hw with
  | nil =>
    refine .currentKind (w := []) rfl ?_
    rw [List.nil_append, hrest]
    exact .ret hbase
  | cons hfirst hmore =>
    obtain ⟨t, v, rfl, ht⟩ := hfirst.front
    refine .currentKind (k := t.kind) rfl ?_
    rw [if_pos ht]
    refine .nested ((suffix_consumes h hfirst hbase).bind fun c hc => ?_)
    exact h.suffixes hmore hc hrest

end Around

end LuaFront.Grammar
