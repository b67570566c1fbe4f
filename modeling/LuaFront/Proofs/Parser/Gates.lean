import LuaFront.Proofs.Parser.Excerpt
import LuaFront.Proofs.Scope.Unclosed

/-!
How statements with an empty last block begin and end. The last token in front of that block is the
gate: behind it only the tokens come that close the block and what is open around it.
-/

namespace LuaFront

/-- A call of a name begins with the name. -/
lemma Node.front_of_call {e : Expr} {callee : Identifier} {args : CallArgs}
    (he : e = .call (.name callee) args) (hform : (stat (.call e)).All Form) :
    (stat (.call e)).tokens.head? = some callee.token ∧ callee.token.kind = .ident := by
  have hcall : expr e ∈ (stat (.call e)).children := by
    rw [children_callStat he]
    exact List.mem_singleton_self _
  have hname : identifier callee ∈ (expr e).children := by
    simp [he, children, parts, Expr.parts, Part.node?, ofExpr]
  refine ⟨?_, ((all_iff.1 ((all_iff.1 ((all_iff.1 hform).2 _ hcall)).2 _ hname)).1)⟩
  simp [he, tokens_eq, parts, Stat.parts, Part.tokens, ofExpr, Expr.parts]

/-- The last block of a node is empty: a token is in front of it after which the parser has nothing
to choose, and so many tokens come behind it. -/
def Node.Gated (n : Node) (count : Nat) : Prop :=
  ∃ front gate close, n.tokens = front ++ gate :: close ∧ close.length = count
    ∧ gate.kind.looksAhead = false

namespace Node.Gated

variable {n m : Node} {gate : Token} {count : Nat}

lemma of_parts {b : Block} (front back : List Part)
    (hparts : n.parts = front ++ Part.token gate :: .node (.block b) :: back)
    (hb : b.stats = []) (hback : (back.flatMap Part.tokens).length = count)
    (hgate : gate.kind.looksAhead = false) : n.Gated count := by
  refine ⟨front.flatMap Part.tokens, gate, back.flatMap Part.tokens, ?_, hback, hgate⟩
  rw [Node.tokens_eq, hparts]
  simp [Part.tokens, Node.tokens_eq (.block b), Node.parts, hb]

lemma of_child {inner : Nat} (front back : List Part)
    (hparts : n.parts = front ++ Part.node m :: back)
    (h : m.Gated inner) (hback : inner + (back.flatMap Part.tokens).length = count) :
    n.Gated count := by
  obtain ⟨lead, gate, close, htokens, hclose, hgate⟩ := h
  refine ⟨front.flatMap Part.tokens ++ lead, gate, close ++ back.flatMap Part.tokens, ?_, ?_,
    hgate⟩
  · rw [Node.tokens_eq, hparts]
    simp [Part.tokens, htokens]
  · rw [List.length_append, hclose, hback]

lemma of_funcBody {f : FuncBody} (hb : f.block.stats = []) (hform : (funcBody f).All Form) :
    (funcBody f).Gated 1 :=
  of_parts (.token f.opening :: f.params.parts Node.ofParam) [.token f.close] rfl hb rfl
    (by rw [(all_iff.1 hform).1.closing]; rfl)

lemma of_function {keyword : Token} {f : FuncBody} (hb : f.block.stats = [])
    (hform : (expr (.function keyword f)).All Form) : (expr (.function keyword f)).Gated 1 :=
  of_child [.token keyword] [] rfl
    (of_funcBody hb ((all_iff.1 hform).2 _ (by simp [children, parts, Expr.parts, Part.node?]))) rfl

/-- The last block of a call with a function is in its argument. -/
lemma of_callStat {callee : Identifier} {opening second closing : Token} {f : FuncBody}
    {anchor : Offset} {e : Expr} (he : e = .call (.name callee)
      (.paren opening ⟨[⟨.function second f, none⟩], anchor⟩ closing))
    (hb : f.block.stats = []) (hform : (stat (.call e)).All Form) :
    (stat (.call e)).Gated 2 := by
  have hcall := (all_iff.1 hform).2 (expr e) (by simp [children_callStat he])
  have hfunction := (all_iff.1 hcall).2 (.expr (.function second f)) (by
    simp [children_call he])
  have hargument : (expr e).Gated 2 :=
    .of_child [.node (.identifier callee), .token opening] [.token closing] (by
      simp [he, parts, Expr.parts, CallArgs.parts, Separated.parts, ofExpr])
      (.of_function hb hfunction) rfl
  exact .of_child [] [] (by simp [he, parts, Stat.parts, ofExpr]) hargument rfl

end Node.Gated

namespace Stat.Shut

variable {s : Stat} {closer : String}

/-- Such a statement begins with a token that begins a statement. -/
lemma begins (h : s.Shut closer) (hform : (Node.stat s).All Node.Form) :
    (Token.frontKind (Node.stat s).tokens).beginsStat = true := by
  have hown := (Node.all_iff.1 hform).1
  have hfront : ∀ {n : Node} {token parts}, n.parts = .token token :: parts →
      Token.frontKind n.tokens = token.kind := fun hparts => by
    rw [Node.tokens_eq, hparts]
    rfl
  cases h with
  | do_ | while_ | repeat_ | function | localFunction | value => rw [hfront rfl, hown.1]; rfl
  | then_ | else_ | numericFor | genericFor => rw [hfront rfl, hown.keyword]; rfl
  | @argument callee opening second f anchor closing h =>
    obtain ⟨hhead, hkind⟩ := Node.front_of_call rfl hform
    rw [Token.frontKind, hhead]
    change callee.token.kind.beginsStat = true
    rw [hkind]
    rfl

/-- Such a statement has a token in front of its last block, and behind that what closes it. -/
lemma gated (h : s.Shut closer) (hform : (Node.stat s).All Node.Form) :
    (Node.stat s).Gated ((Lexed.ofSource closer).tokens.length - 1) := by
  have hend : (Lexed.ofSource "end").tokens.length - 1 = 1 := by decide +kernel
  have huntil : (Lexed.ofSource "until true").tokens.length - 1 = 2 := by decide +kernel
  have hparen : (Lexed.ofSource "end)").tokens.length - 1 = 2 := by decide +kernel
  obtain ⟨hown, hchildren⟩ := Node.all_iff.1 hform
  have hbody : ∀ {f : FuncBody}, f.block.stats = [] →
      .funcBody f ∈ (Node.stat s).children → (Node.funcBody f).Gated 1 := fun hb hf =>
    .of_funcBody hb (hchildren _ hf)
  cases h with
  | @do_ keyword b close h =>
    rw [hend]
    exact .of_parts [] [.token close] rfl h rfl (by rw [hown.1]; rfl)
  | @while_ keyword cond opener b close h =>
    rw [hend]
    exact .of_parts [.token keyword, .node (.ofExpr cond)] [.token close] rfl h rfl
      (by rw [hown.2.1]; rfl)
  | @repeat_ keyword b close lit h =>
    rw [huntil]
    exact .of_parts [] [.token close, .node (.literal lit)] rfl h
      (by simp [Part.tokens, Node.tokens_eq, Node.parts]) (by rw [hown.1]; rfl)
  | @then_ keyword cond opener b close h =>
    rw [hend]
    exact .of_parts [.token keyword, .node (.ofExpr cond)] [.token close] rfl h rfl
      (by rw [hown.opener]; rfl)
  | @else_ keyword cond opener first second b close h =>
    have hchild := hchildren (.else_ ⟨second, b⟩) (by
      simp [Node.children, Node.parts, Stat.parts, IfStat.parts, Part.node?])
    have helse : (Node.else_ ⟨second, b⟩).Gated 0 :=
      .of_parts [] [] rfl h rfl (by rw [(Node.all_iff.1 hchild).1]; rfl)
    rw [hend]
    exact .of_child [.token keyword, .node (.ofExpr cond), .token opener, .node (.block first)]
      [.token close] rfl helse rfl
  | @numericFor r h =>
    rw [hend]
    exact .of_parts ([.token r.keyword, .node (.identifier r.var), .token r.eq,
      .node (.ofExpr r.start), .token r.comma, .node (.ofExpr r.limit)]
        ++ r.step.toList.flatMap Step.parts) [.token r.close] rfl h rfl (by rw [hown.opener]; rfl)
  | @genericFor r h =>
    rw [hend]
    exact .of_parts (.token r.keyword :: r.names.parts Node.identifier
      ++ Part.token r.in_ :: r.exprs.parts Node.ofExpr) [.token r.close] rfl h rfl
      (by rw [hown.opener]; rfl)
  | @function keyword name method f h =>
    rw [hend]
    refine .of_child
      ([.token keyword, .node (.ofExpr name)] ++ method.toList.flatMap MethodName.parts) [] rfl
      (hbody h ?_) rfl
    simp [Node.children, Node.parts, Stat.parts, Part.node?]
  | @localFunction keyword second name f h =>
    rw [hend]
    refine .of_child [.token keyword, .token second, .node (.identifier name)] [] rfl
      (hbody h ?_) rfl
    simp [Node.children, Node.parts, Stat.parts, Part.node?]
  | @value keyword names eq second f anchor h =>
    have hfunction := hchildren (.expr (.function second f)) (by
      simp [Node.children, Node.parts, Stat.parts, Part.node?, Separated.parts, Node.ofExpr])
    rw [hend]
    exact .of_child (.token keyword :: names.parts Node.identifier ++ [Part.token eq]) []
      (by simp [Node.parts, Stat.parts, Separated.parts, Node.ofExpr])
      (.of_function h hfunction) rfl
  | @argument callee opening second f anchor closing h =>
    rw [hparen]
    exact .of_callStat rfl h hform

end Stat.Shut
end LuaFront
