import LuaFront.Proofs.Parser.Bodies
import LuaFront.Proofs.Parser.Gates

/-!
Heads of statements. Of whatever form a statement is, if its last block is not closed, it is read as
the whole statement is up to that block, and the block goes on up to the end of input.
-/

namespace LuaFront

namespace Grammar

open Parse ParseState Excerpt

variable {α β : Type} {x : Excerpt} {depth k : Nat} {s t u v : ParseState}
  {pre : Cursor → Prop} {act : α → α} {kind : TokenKind}
  {post : Block → α → Offset → Prop} {post' : Block → β → Offset → Prop}

/-! ### Any head -/

lemma current_of_tokens {n : Node} {token : Token} {parts : List Part}
    (htokens : t.cursor.ahead = n.tokens) (hparts : n.parts = .token token :: parts) :
    t.cursor.current = token := by
  rw [Cursor.current, htokens, Node.tokens_eq, hparts]
  rfl

/-- A statement that both runs choose by the kind of the current token. -/
lemma Meets.statement {p : Level → Parse Stat} {inner : Level} {a : Stat}
    {post : Block → Stat → Offset → Prop} (hecho : x.Echo depth s t)
    (hat : t.cursor.current.kind = kind) (hkind : kind ≠ .eof)
    (hq : Quiet (Grammar.statement inner) t a u)
    (h : Quiet (p inner) t a u → Meets x post ((p (level k)).run s))
    (hrun : ∀ (l : Level) (s : ParseState), s.cursor.current.kind = kind →
      (Grammar.statement l).run s = (p l).run s := by
        intro l s hs
        rw [Grammar.statement, run_currentKind, hs]) :
    Meets x post ((Grammar.statement (level k)).run s) := by
  rw [hrun _ s ((hecho.kind_eq (hat.symm ▸ hkind)).trans hat)]
  exact h (hq.congr (hrun _ t hat))

section Heads

variable (hk : depth + x.gap + k = maxDepth + 1) (hecho : x.Echo depth s t)
include hk hecho

/-- Which declaration it is shows in the token after its keyword, which a head has. -/
lemma declaredFunction_meets {keyword second : Token} {name : Identifier} {f : FuncBody}
    (hat : t.cursor.current.kind = .keyword .local_)
    (hq : Quiet (statement (level (k + x.gap))) t (.localFunction keyword second name f) u)
    (hclose : Token.frontKind x.close ≠ .eof) (hb : f.block.stats = [])
    (hgate : x.close.length = u.cursor.ahead.length + 2) :
    Meets x (Bound x (.localFunction keyword second name f)) ((statement (level k)).run s) := by
  have hsame := (hecho.kind_eq (by rw [hat]; decide)).trans hat
  obtain ⟨hnext, hq, -⟩ | ⟨-, -, _, _, _, _, hother⟩ :=
    isFunction_of_declaration (hq.congr (run_declaration hat))
  · have hnext' := (hecho.next_eq (by rw [hat]; rfl) hclose).symm.trans hnext
    rw [run_declaration hsame, if_pos hnext']
    exact localFunction_meets hk hecho hat hnext hq hb hgate
  · cases hother

lemma declaredValue_meets {keyword eq second : Token} {names : Separated Identifier}
    {f : FuncBody} {anchor : Offset} (hat : t.cursor.current.kind = .keyword .local_)
    (hq : Quiet (statement (level (k + x.gap))) t
      (.local_ keyword names (some eq) ⟨[⟨.function second f, none⟩], anchor⟩) u)
    (hclose : Token.frontKind x.close ≠ .eof) (hb : f.block.stats = [])
    (hgate : x.close.length = u.cursor.ahead.length + 2) (heq : eq.isMissing = false) :
    Meets x (Bound x (.local_ keyword names (some eq) ⟨[⟨.function second f, none⟩], anchor⟩))
      ((statement (level k)).run s) := by
  have hsame := (hecho.kind_eq (by rw [hat]; decide)).trans hat
  obtain ⟨-, -, _, _, _, _, hother⟩ | ⟨hnext, hq, -⟩ :=
    isFunction_of_declaration (hq.congr (run_declaration hat))
  · cases hother
  · rw [run_declaration hsame, if_neg fun hwhole =>
      hnext ((hecho.next_eq (by rw [hat]; rfl) hclose).trans hwhole)]
    exact localStat_meets hk hecho hat hq hb hgate heq

/-- A call has its callee in front, and all its tokens are in the text. -/
lemma argument_meets {callee : Identifier} {opening second closing : Token} {f : FuncBody}
    {anchor : Offset} {e : Expr} (he : e = .call (.name callee)
      (.paren opening ⟨[⟨.function second f, none⟩], anchor⟩ closing))
    (hq : Quiet (statement (level (k + x.gap))) t (.call e) u)
    (htokens : t.cursor.ahead = (Node.stat (.call e)).tokens)
    (hform : (Node.stat (.call e)).All Node.Form)
    (hpresent : ∀ token ∈ (Node.stat (.call e)).tokens, token.isMissing = false)
    (hb : f.block.stats = []) (hgate : x.close.length = u.cursor.ahead.length + 3) :
    Meets x (Bound x (.call e)) ((statement (level k)).run s) := by
  have hchild : Node.expr e ∈ (Node.stat (.call e)).children := by
    simp [he, Node.children, Node.parts, Stat.parts, Part.node?, Node.ofExpr]
  have hat : t.cursor.current.kind = .ident := by
    obtain ⟨hhead, hkind⟩ := Node.front_of_call he hform
    rw [Cursor.current, htokens, hhead]
    exact hkind
  have hopening : opening.isMissing = false := by
    refine hpresent opening (Node.mem_tokens_of_child hchild (Node.mem_tokens_of_part ?_))
    simp [he, Node.parts, Expr.parts, CallArgs.parts]
  subst he
  exact Meets.statement hecho hat (by decide) (p := exprStat) hq fun hq =>
    exprStat_meets hk hecho hat hq hb hgate hopening

end Heads

/-- **A statement of which only the head is left** begins in the same way as the whole statement,
unless the nesting limit is met in the head. -/
theorem statement_meets {a : Stat} {closer : String}
    (hk : depth + x.gap + k = maxDepth + 1) (hecho : x.Echo depth s t) (ha : a.Shut closer)
    (hq : Quiet (statement (level (k + x.gap))) t a u) (hu : u.cursor.ahead = [])
    (htokens : t.cursor.ahead = (Node.stat a).tokens) (hform : (Node.stat a).All Node.Form)
    (hpresent : ∀ token ∈ (Node.stat a).tokens, token.isMissing = false)
    (hlength : x.close.length = (Lexed.ofSource closer).tokens.length)
    (hclose : Token.frontKind x.close ≠ .eof)
    (hgate : ∀ gate ∈ x.rest.head?, gate.isMissing = false) :
    Meets x (Bound x a) ((statement (level k)).run s) := by
  -- How far the gate is from the end of the part, by what closes the statement.
  have hend : closer = "end" → x.close.length = 2 := by
    rintro rfl
    exact hlength.trans (by decide +kernel)
  have huntil : closer = "until true" → x.close.length = 3 := by
    rintro rfl
    exact hlength.trans (by decide +kernel)
  have hparen : closer = "end)" → x.close.length = 3 := by
    rintro rfl
    exact hlength.trans (by decide +kernel)
  have hbehind : ∀ {n}, x.close.length = n → x.close.length = u.cursor.ahead.length + n := by
    intro n hn
    rw [hn, hu, List.length_nil, Nat.zero_add]
  have hwidth := congrArg List.length htokens
  have hown := (Node.all_iff.1 hform).1
  have hat : ∀ {token parts}, (Node.stat a).parts = .token token :: parts →
      t.cursor.current.kind = token.kind := fun hparts =>
    congrArg Token.kind (current_of_tokens htokens hparts)
  cases ha with
  | @do_ keyword b close h =>
    have hat := (hat rfl).trans hown.1
    refine Meets.statement hecho hat (by decide) (p := doStat) hq fun _ =>
      doStat_meets hk hecho hat ?_
    rw [hend rfl, hwidth]
    simp [Node.tokens_eq, Node.parts, Stat.parts, Part.tokens, h]
  | @while_ keyword cond opener b close h =>
    have hat := (hat rfl).trans hown.1
    exact Meets.statement hecho hat (by decide) (p := whileStat) hq fun hq =>
      whileStat_meets hk hecho hat hq h (hbehind (hend rfl))
  | @repeat_ keyword b close lit h =>
    have hat := (hat rfl).trans hown.1
    refine Meets.statement hecho hat (by decide) (p := repeatStat) hq fun _ =>
      repeatStat_meets hk hecho hat ?_
    rw [huntil rfl, hwidth]
    simp [Node.tokens_eq, Node.parts, Stat.parts, Part.tokens, Node.ofExpr, h]
  | @then_ keyword cond opener b close h =>
    have hat := (hat rfl).trans hown.keyword
    exact Meets.statement hecho hat (by decide) (p := ifStat) hq fun hq =>
      ifStat_then_meets hk hecho hat hq h (hbehind (hend rfl)) hgate
  | @else_ keyword cond opener first second b close h =>
    have hat := (hat rfl).trans hown.keyword
    refine Meets.statement hecho hat (by decide) (p := ifStat) hq fun hq =>
      ifStat_else_meets hk hecho hat hq h (hbehind (hend rfl)) ?_
    refine hpresent opener (Node.mem_tokens_of_part ?_)
    simp [Node.parts, Stat.parts, IfStat.parts]
  | @numericFor r h =>
    have hat := (hat rfl).trans hown.keyword
    refine Meets.statement hecho hat (by decide) (p := forStat) hq fun hq =>
      forStat_meets hk hecho hat hq hclose ?_ (hbehind (hend rfl)) ?_ ?_
    · rw [hend rfl, hwidth]
      simp [Node.tokens_eq, Node.parts, Stat.parts, NumericFor.parts, Part.tokens]
    · rintro _ ⟨⟩
      exact h
    · rintro _ ⟨⟩
  | @genericFor r h =>
    have hat := (hat rfl).trans hown.keyword
    refine Meets.statement hecho hat (by decide) (p := forStat) hq fun hq =>
      forStat_meets hk hecho hat hq hclose ?_ (hbehind (hend rfl)) ?_ ?_
    · rw [hend rfl, hwidth]
      simp [Node.tokens_eq, Node.parts, Stat.parts, GenericFor.parts, Part.tokens]
      omega
    · rintro _ ⟨⟩
    · rintro _ ⟨⟩
      exact h
  | @function keyword name method f h =>
    have hat := (hat rfl).trans hown.1
    exact Meets.statement hecho hat (by decide) (p := functionStat) hq fun hq =>
      functionStat_meets hk hecho hat hq h (hbehind (hend rfl))
  | @localFunction keyword second name f h =>
    exact declaredFunction_meets hk hecho ((hat rfl).trans hown.1) hq hclose h (hbehind (hend rfl))
  | @value keyword names eq second f anchor h =>
    refine declaredValue_meets hk hecho ((hat rfl).trans hown.1) hq hclose h (hbehind (hend rfl)) ?_
    exact hpresent eq (Node.mem_tokens_of_part (by simp [Node.parts, Stat.parts]))
  | @argument callee opening second f anchor closing h =>
    exact argument_meets hk hecho rfl hq htokens hform hpresent h (hbehind (hparen rfl))

end Grammar

end LuaFront
