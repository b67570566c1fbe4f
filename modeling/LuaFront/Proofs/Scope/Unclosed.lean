import LuaFront.Proofs.Scope.Declared
import LuaFront.Proofs.Scope.Tidy

/-!
Blocks that are still being written. Where a text ends in an unclosed statement, the search for the
bindings at its end goes into the block of that statement, and finds there what the statement
declares for it.
-/

namespace LuaFront

/-- The names that a statement makes visible in its last block. -/
def Stat.lent : Stat → List Binding
  | numericFor s => (Stat.numericFor s).declared
  | genericFor s => (Stat.genericFor s).declared
  | function keyword _ method f => method.toList.map (.self keyword) ++ f.declared
  | localFunction keyword _ name f => .named .localFunction keyword name :: f.declared
  | local_ _ _ _ ⟨[⟨.function _ f, _⟩], _⟩ => f.declared
  | call (.call _ (.paren _ ⟨[⟨.function _ f, _⟩], _⟩ _)) => f.declared
  | _ => []

/-- A statement that lacks the token that closes its last block, and that block. -/
inductive Stat.Bears : Stat → Block → Prop
  | do_ {keyword : Token} {b : Block} {close : Token} (h : close.isMissing = true) :
    Bears (.do_ keyword b close) b
  | while_ {keyword : Token} {cond : Expr} {opener : Token} {b : Block} {close : Token}
    (h : close.isMissing = true) : Bears (.while_ keyword cond opener b close) b
  | repeat_ {keyword : Token} {b : Block} {close : Token} {skipped : List Token} {anchor : Offset}
    (h : close.isMissing = true) :
    Bears (.repeat_ keyword b close (.invalid none skipped anchor)) b
  | then_ {keyword : Token} {cond : Expr} {opener : Token} {b : Block} {close : Token}
    (hopener : opener.isMissing = false) (h : close.isMissing = true) :
    Bears (.if_ ⟨keyword, cond, opener, b, [], none, close⟩) b
  | else_ {keyword : Token} {cond : Expr} {opener : Token} {first : Block} {second : Token}
    {b : Block} {close : Token} (hopener : opener.isMissing = false)
    (h : close.isMissing = true) :
    Bears (.if_ ⟨keyword, cond, opener, first, [], some ⟨second, b⟩, close⟩) b
  | numericFor {s : NumericFor} (h : s.close.isMissing = true) : Bears (.numericFor s) s.block
  | genericFor {s : GenericFor} (h : s.close.isMissing = true) : Bears (.genericFor s) s.block
  | function {keyword : Token} {name : Expr} {method : Option MethodName} {f : FuncBody}
    (h : f.close.isMissing = true) : Bears (.function keyword name method f) f.block
  | localFunction {keyword second : Token} {name : Identifier} {f : FuncBody}
    (h : f.close.isMissing = true) : Bears (.localFunction keyword second name f) f.block
  | value {keyword : Token} {names : Separated Identifier} {eq second : Token} {f : FuncBody}
    {anchor : Offset} (heq : eq.isMissing = false) (h : f.close.isMissing = true) :
    Bears (.local_ keyword names (some eq) ⟨[⟨.function second f, none⟩], anchor⟩) f.block
  | argument {callee : Identifier} {opening second : Token} {f : FuncBody} {anchor : Offset}
    {closing : Token} (hopening : opening.isMissing = false) (h : f.close.isMissing = true)
    (hclosing : closing.span.stop = f.close.span.stop) :
    Bears (.call (.call (.name callee)
      (.paren opening ⟨[⟨.function second f, none⟩], anchor⟩ closing))) f.block

/-- A statement with nothing in its last block, and the text that closes that block and what is
open around it. -/
inductive Stat.Shut : Stat → String → Prop
  | do_ {keyword : Token} {b : Block} {close : Token} (h : b.stats = []) :
    Shut (.do_ keyword b close) "end"
  | while_ {keyword : Token} {cond : Expr} {opener : Token} {b : Block} {close : Token}
    (h : b.stats = []) : Shut (.while_ keyword cond opener b close) "end"
  | repeat_ {keyword : Token} {b : Block} {close : Token} {lit : Literal} (h : b.stats = []) :
    Shut (.repeat_ keyword b close (.literal lit)) "until true"
  | then_ {keyword : Token} {cond : Expr} {opener : Token} {b : Block} {close : Token}
    (h : b.stats = []) : Shut (.if_ ⟨keyword, cond, opener, b, [], none, close⟩) "end"
  | else_ {keyword : Token} {cond : Expr} {opener : Token} {first : Block} {second : Token}
    {b : Block} {close : Token} (h : b.stats = []) :
    Shut (.if_ ⟨keyword, cond, opener, first, [], some ⟨second, b⟩, close⟩) "end"
  | numericFor {s : NumericFor} (h : s.block.stats = []) : Shut (.numericFor s) "end"
  | genericFor {s : GenericFor} (h : s.block.stats = []) : Shut (.genericFor s) "end"
  | function {keyword : Token} {name : Expr} {method : Option MethodName} {f : FuncBody}
    (h : f.block.stats = []) : Shut (.function keyword name method f) "end"
  | localFunction {keyword second : Token} {name : Identifier} {f : FuncBody}
    (h : f.block.stats = []) : Shut (.localFunction keyword second name f) "end"
  | value {keyword : Token} {names : Separated Identifier} {eq second : Token} {f : FuncBody}
    {anchor : Offset} (h : f.block.stats = []) :
    Shut (.local_ keyword names (some eq) ⟨[⟨.function second f, none⟩], anchor⟩) "end"
  | argument {callee : Identifier} {opening second : Token} {f : FuncBody} {anchor : Offset}
    {closing : Token} (h : f.block.stats = []) :
    Shut (.call (.call (.name callee)
      (.paren opening ⟨[⟨.function second f, none⟩], anchor⟩ closing))) "end)"

/-- A part of a text in which no token is missing. -/
structure Node.Whole (n : Node) : Prop where
  read : n.tokens ≠ []
  present : ∀ t ∈ n.tokens, t.isMissing = false

/-- A block at the end of a text, which may end in an unclosed statement, and the names that are
declared in it and in the blocks in it that are still being written. -/
inductive Block.Unfinished : Block → List Binding → Prop
  | closed {b : Block} (h : ∀ s ∈ b.stats, (Node.stat s).Whole) :
    Unfinished b (b.stats.flatMap fun s => (Node.stat s).locals)
  | opened {b inner : Block} {done : List Stat} {last : Stat} {more : List Binding}
    (hstats : b.stats = done ++ [last]) (h : ∀ s ∈ done, (Node.stat s).Whole)
    (hlast : last.Bears inner) (hinner : inner.Unfinished more) :
    Unfinished b ((done.flatMap fun s => (Node.stat s).locals) ++ (last.lent ++ more))

namespace Node

variable {n m : Node} {pos : Offset}

/-! ### Trees at the end of a text -/

/-- The text of a tree ends at an offset, and its tokens follow each other. -/
structure EndsBy (pos : Offset) (n : Node) : Prop where
  laid : n.InOrder
  spanned : ∀ m ∈ n.preorder, m.Spanned pos
  width : ∀ t ∈ n.tokens, t.isMissing = false → t.span.start < t.span.stop

namespace EndsBy

lemma child (h : n.EndsBy pos) (hm : m ∈ n.children) : m.EndsBy pos where
  laid := h.laid.child hm
  spanned k hk := h.spanned k (mem_preorder_of_mem_children hm hk)
  width t ht := h.width t (mem_tokens_of_child hm ht)

lemma start_le (h : n.EndsBy pos) : n.span.start ≤ pos :=
  have hspanned := h.spanned n n.self_mem_preorder
  Nat.le_trans hspanned.start_le_stop hspanned.stop_le

lemma stop_le (h : n.EndsBy pos) : n.span.stop ≤ pos :=
  (h.spanned n n.self_mem_preorder).stop_le

lemma token_stop_le (h : n.EndsBy pos) {t : Token} (ht : t ∈ n.tokens) : t.span.stop ≤ pos :=
  Nat.le_trans ((h.spanned n n.self_mem_preorder).tokens t ht).2.2 h.stop_le

/-- The last part of a node ends where the node does. -/
lemma stop_eq_of_last (h : n.EndsBy pos) {p : Part} (hp : n.parts.getLast? = some p) :
    n.span.stop = p.span.stop := by
  obtain ⟨start, stop, hlaid⟩ := h.laid
  have hne : n.parts ≠ [] := by
    rintro hnil
    simp [hnil] at hp
  have hplaced := placed hlaid
  exact hplaced.stop_eq.trans (stop_of_last placed_parts hp (laid_parts hlaid hne)).symm

/-- What comes before a token that is there ends before the end of the text. -/
lemma stop_lt (h : n.EndsBy pos) {p : Part} {t : Token} (hparts : [p, .token t].Sublist n.parts)
    (ht : t.isMissing = false) : p.span.stop < pos := by
  have hmem : t ∈ n.tokens := mem_tokens_of_part (hparts.subset (by simp))
  have hle : p.span.stop ≤ t.span.start :=
    List.pairwise_iff_forall_sublist.1 h.laid.parts_ordered hparts
  exact Nat.lt_of_le_of_lt hle (Nat.lt_of_lt_of_le (h.width t hmem ht) (h.token_stop_le hmem))

lemma not_contains (h : n.EndsBy pos) (hstop : n.span.stop < pos) :
    n.span.contains pos = false := by
  have hle := (h.spanned n n.self_mem_preorder).start_le_stop
  unfold Span.contains
  split
  · simpa using Nat.ne_of_gt (Nat.lt_of_le_of_lt hle hstop)
  · simp [Nat.not_lt.2 (Nat.le_of_lt hstop)]

/-- In a construct that is not closed, the end of the text is behind any token. -/
lemma inside_eq (h : n.EndsBy pos) {t close : Token} (ht : t ∈ n.tokens)
    (hclose : close.isMissing = true) : inside pos t close = true := by
  simp [inside, h.token_stop_le ht, hclose]

end EndsBy

/-! ### Closed statements -/

lemma Whole.of_complete {s : Stat} (h : (stat s).All Complete) : (stat s).Whole := by
  obtain ⟨t, ht⟩ := exists_token_of_complete h (by simp)
  exact ⟨List.ne_nil_of_mem ht, fun _ => present_of_complete h⟩

lemma Whole.not_reaches (h : n.Whole) (hn : n.EndsBy pos) (limit : Offset) :
    n.reaches pos limit = false := by
  obtain ⟨t, ht⟩ := List.exists_mem_of_ne_nil _ h.read
  have hspan := (hn.spanned n n.self_mem_preorder).tokens t ht
  have hwidth := hn.width t ht (h.present t ht)
  have hlt : n.span.start < n.span.stop :=
    Nat.lt_of_le_of_lt hspan.1 (Nat.lt_of_lt_of_le hwidth hspan.2.2)
  rw [reaches, isUnclosed_of_present h.present, Bool.and_false, Bool.or_false]
  exact Span.not_contains hlt (.inl hn.stop_le)

lemma splitAt_whole {done : List Stat} {rest : List Node}
    (h : ∀ s ∈ done, (stat s).Whole ∧ (stat s).EndsBy pos) :
    splitAt pos (done.map stat ++ rest)
      = (done.map stat ++ (splitAt pos rest).1, (splitAt pos rest).2) := by
  refine splitAt_append ?_
  simp only [List.forall_mem_map]
  exact fun s hs => ⟨(h s hs).2.stop_le, (h s hs).1.not_reaches (h s hs).2⟩

/-! ### Unclosed statements -/

lemma isUnclosed_of_last (hclose : n.blockClose? = none)
    (hlast : n.children.getLast? = some m) (hstop : m.span.stop = n.span.stop) :
    n.isUnclosed = m.isUnclosed := by
  rw [isUnclosed, hclose]
  have hattach : n.children.attach.getLast?.map (·.1) = some m := by
    rw [← List.getLast?_map, List.attach_map_subtype_val, hlast]
  cases hfound : n.children.attach.getLast? with
  | none => simp [hfound] at hattach
  | some found =>
    obtain ⟨last, hmem⟩ := found
    obtain rfl : last = m := by simpa [hfound] using hattach
    simp [hstop]

section FuncBody

variable {f : FuncBody} {keyword : Token}

lemma isUnclosed_funcBody (h : f.close.isMissing = true) : (funcBody f).isUnclosed = true := by
  rw [isUnclosed]
  exact h

lemma EndsBy.funcBody_stop (hn : (funcBody f).EndsBy pos) :
    (funcBody f).span.stop = f.close.span.stop :=
  hn.stop_eq_of_last (p := .token f.close) (by simp [parts, FuncBody.parts, List.getLast?_cons])

lemma EndsBy.body (hn : (expr (.function keyword f)).EndsBy pos) : (funcBody f).EndsBy pos :=
  hn.child (by simp [children, parts, Expr.parts, Part.node?])

lemma EndsBy.function_stop (hn : (expr (.function keyword f)).EndsBy pos) :
    (expr (.function keyword f)).span.stop = (funcBody f).span.stop :=
  hn.stop_eq_of_last (p := .node (funcBody f)) (by simp [parts, Expr.parts])

lemma EndsBy.isUnclosed_function (hn : (expr (.function keyword f)).EndsBy pos)
    (h : f.close.isMissing = true) : (expr (.function keyword f)).isUnclosed = true := by
  rw [isUnclosed_of_last (m := funcBody f) rfl
    (by simp [children, parts, Expr.parts, Part.node?]) hn.function_stop.symm]
  exact isUnclosed_funcBody h

end FuncBody

/-! ### The search at the end of a text -/

lemma enclosing_of_inward {l : List Binding} (hframe : n.frame pos = l)
    (hinward : n.inward pos = [m]) :
    n.enclosing pos = l.filter (·.name ≠ "") ++ m.enclosing pos := by
  rw [enclosing_eq, hframe, hinward]
  simp

/-- Where a function is not closed, its parameters are found, and what its block declares. -/
lemma EndsBy.enclosing_funcBody {f : FuncBody} (hn : (funcBody f).EndsBy pos)
    (h : f.close.isMissing = true) :
    (funcBody f).enclosing pos
      = f.declared.filter (·.name ≠ "") ++ (block f.block).enclosing pos := by
  have hinside : inside pos f.closing f.close = true :=
    hn.inside_eq (mem_tokens_of_part (by simp [parts, FuncBody.parts])) h
  refine enclosing_of_inward ?_ ?_
  · rw [frame, if_pos hinside]
    rfl
  · rw [inward, if_pos hinside]

lemma EndsBy.enclosing_function {f : FuncBody} {keyword : Token}
    (hn : (expr (.function keyword f)).EndsBy pos) (h : f.close.isMissing = true)
    (hpos : pos ≤ unbounded) :
    (expr (.function keyword f)).enclosing pos
      = f.declared.filter (·.name ≠ "") ++ (block f.block).enclosing pos := by
  have hreaches : (funcBody f).reaches pos unbounded = true := by
    simp [reaches, hn.body.start_le, hpos, isUnclosed_funcBody h]
  rw [enclosing_of_inward (m := funcBody f) (l := []) rfl, hn.body.enclosing_funcBody h]
  · rfl
  · have hchildren : (expr (.function keyword f)).children = [funcBody f] := by
      simp [children, parts, Expr.parts, Part.node?]
    have hinward : (expr (.function keyword f)).inward pos
        = (expr (.function keyword f)).reaching pos := rfl
    rw [hinward, reaching, hchildren, reaching?, startOf, if_pos hreaches]
    rfl

lemma isUnclosed_identifier (id : Identifier) : (identifier id).isUnclosed = false := by
  rw [Node.isUnclosed]
  have hnone : (identifier id).children.attach.getLast? = none := by
    simp [children, parts]
  rw [hnone]
  rfl

lemma EndsBy.identifier_not_reaches {id : Identifier} (hn : (identifier id).EndsBy pos)
    (hstop : (identifier id).span.stop < pos) (limit : Offset) :
    (identifier id).reaches pos limit = false := by
  simp [reaches, hn.not_contains hstop, isUnclosed_identifier]

lemma reaching?_append {before rest : List Node}
    (h : ∀ k ∈ before, ∀ limit, k.reaches pos limit = false) :
    reaching? pos (before ++ rest) = reaching? pos rest := by
  induction before with
  | nil => rfl
  | cons k before ih =>
    rw [List.cons_append, reaching?, h k List.mem_cons_self]
    exact ih fun k hk => h k (List.mem_cons_of_mem _ hk)

section Call

variable {callee : Identifier} {opening second : Token} {f : FuncBody} {anchor : Offset}
  {closing : Token} {e : Expr}

lemma children_call
    (he : e = .call (.name callee)
      (.paren opening ⟨[⟨.function second f, none⟩], anchor⟩ closing)) :
    (expr e).children = [identifier callee, expr (.function second f)] := by
  simp [he, children, parts, Expr.parts, CallArgs.parts, Part.node?, Separated.parts, ofExpr]

lemma EndsBy.isUnclosed_call (hn : (expr e).EndsBy pos)
    (he : e = .call (.name callee)
      (.paren opening ⟨[⟨.function second f, none⟩], anchor⟩ closing))
    (h : f.close.isMissing = true) (hclosing : closing.span.stop = f.close.span.stop) :
    (expr e).isUnclosed = true := by
  have hchildren := children_call he
  have hfunction : (expr (.function second f)).EndsBy pos := hn.child (by simp [hchildren])
  have hstop : (expr (.function second f)).span.stop = (expr e).span.stop := by
    rw [hfunction.function_stop, hfunction.body.funcBody_stop, ← hclosing,
      hn.stop_eq_of_last (p := .token closing)
        (by simp [he, parts, Expr.parts, CallArgs.parts, List.getLast?_cons])]
    rfl
  rw [isUnclosed_of_last (by rw [he]; rfl) (by rw [hchildren]; rfl) hstop]
  exact hfunction.isUnclosed_function h

lemma EndsBy.enclosing_call (hn : (expr e).EndsBy pos)
    (he : e = .call (.name callee)
      (.paren opening ⟨[⟨.function second f, none⟩], anchor⟩ closing))
    (hopening : opening.isMissing = false) (h : f.close.isMissing = true) (hpos : pos ≤ unbounded) :
    (expr e).enclosing pos
      = f.declared.filter (·.name ≠ "") ++ (block f.block).enclosing pos := by
  have hchildren := children_call he
  have hfunction : (expr (.function second f)).EndsBy pos := hn.child (by simp [hchildren])
  have hcallee : (identifier callee).reaches pos (startOf [expr (.function second f)]) = false :=
    (hn.child (by simp [hchildren])).identifier_not_reaches
      (hn.stop_lt (p := .node (identifier callee)) (t := opening)
        (by simp [he, parts, Expr.parts, CallArgs.parts, ofExpr]) hopening) _
  have hreaches : (expr (.function second f)).reaches pos unbounded = true := by
    simp [reaches, hfunction.start_le, hpos, hfunction.isUnclosed_function h]
  have hframe : (expr e).frame pos = [] := rfl
  rw [enclosing_of_inward (m := expr (.function second f)) hframe,
    hfunction.enclosing_function h hpos]
  · rfl
  · have hinward : (expr e).inward pos = (expr e).reaching pos := rfl
    rw [hinward, reaching, hchildren, reaching?, hcallee, reaching?, startOf, if_pos hreaches]
    rfl

lemma children_callStat {args : CallArgs} (he : e = .call (.name callee) args) :
    (stat (.call e)).children = [expr e] := by
  simp [he, children, parts, Stat.parts, Part.node?, ofExpr]

lemma EndsBy.enclosing_callStat (hn : (stat (.call e)).EndsBy pos)
    (he : e = .call (.name callee)
      (.paren opening ⟨[⟨.function second f, none⟩], anchor⟩ closing))
    (hopening : opening.isMissing = false) (h : f.close.isMissing = true)
    (hclosing : closing.span.stop = f.close.span.stop) (hpos : pos ≤ unbounded) :
    (stat (.call e)).enclosing pos
      = f.declared.filter (·.name ≠ "") ++ (block f.block).enclosing pos := by
  have hchildren := children_callStat he
  have hcall : (expr e).EndsBy pos := hn.child (by simp [hchildren])
  have hreaches : (expr e).reaches pos unbounded = true := by
    simp [reaches, hcall.start_le, hpos, hcall.isUnclosed_call he h hclosing]
  have hframe : (stat (.call e)).frame pos = [] := rfl
  rw [enclosing_of_inward (m := expr e) hframe, hcall.enclosing_call he hopening h hpos]
  · rfl
  · have hinward : (stat (.call e)).inward pos = (stat (.call e)).reaching pos := rfl
    rw [hinward, reaching, hchildren, reaching?, startOf, if_pos hreaches]
    rfl

end Call

/-- The names of a declaration are passed by, and its value is gone into. -/
lemma EndsBy.inward_value {keyword eq second : Token} {names : Separated Identifier}
    {f : FuncBody} {anchor : Offset}
    (hn : (stat (.local_ keyword names (some eq)
      ⟨[⟨.function second f, none⟩], anchor⟩)).EndsBy pos)
    (heq : eq.isMissing = false) (h : f.close.isMissing = true) (hpos : pos ≤ unbounded) :
    (stat (.local_ keyword names (some eq) ⟨[⟨.function second f, none⟩], anchor⟩)).inward pos
        = [expr (.function second f)]
      ∧ (expr (.function second f)).EndsBy pos := by
  have hchildren : (stat (.local_ keyword names (some eq)
      ⟨[⟨.function second f, none⟩], anchor⟩)).children
        = names.items.map identifier ++ [expr (.function second f)] := by
    simp [children, Node.parts, Stat.parts, Separated.items, ofExpr]
  have hfunction : (expr (.function second f)).EndsBy pos := hn.child (by simp [hchildren])
  have hnames : ∀ k ∈ names.items.map identifier, ∀ limit, k.reaches pos limit = false := by
    simp only [List.forall_mem_map]
    intro id hid
    have hchild : identifier id ∈ names.items.map identifier := List.mem_map_of_mem hid
    have hpart : Part.node (identifier id) ∈ names.parts identifier := by
      rwa [← Separated.nodes_parts, Part.mem_nodes] at hchild
    refine (hn.child (hchildren ▸ List.mem_append_left _ hchild)).identifier_not_reaches
      (hn.stop_lt (p := .node (identifier id)) (t := eq) ?_ heq)
    exact .cons _ (.trans ((List.singleton_sublist.2 hpart).append (.refl [Part.token eq]))
      (List.sublist_append_left ..))
  have hreaching : (stat (.local_ keyword names (some eq)
      ⟨[⟨.function second f, none⟩], anchor⟩)).inward pos = Node.reaching pos _ := rfl
  have hreaches : (expr (.function second f)).reaches pos unbounded = true := by
    simp [Node.reaches, hfunction.start_le, hpos, hfunction.isUnclosed_function h]
  refine ⟨?_, hfunction⟩
  rw [hreaching, reaching, hchildren, reaching?_append hnames, reaching?, startOf,
    if_pos hreaches]
  rfl

/-- The condition of an if statement is before a token that is there. -/
lemma EndsBy.cond_not_contains {s : IfStat} (hn : (stat (.if_ s)).EndsBy pos)
    (hopener : s.opener.isMissing = false) : (ofExpr s.cond).span.contains pos = false := by
  refine (hn.child ?_).not_contains
    (hn.stop_lt (p := .node (ofExpr s.cond)) (t := s.opener) ?_ hopener)
  · simp [children, Node.parts, Stat.parts, IfStat.parts, Part.node?]
  · simp [Node.parts, Stat.parts, IfStat.parts]

lemma enclosing_invalid (skipped : List Token) (anchor : Offset) :
    (ofExpr (.invalid none skipped anchor)).enclosing pos = [] := by
  have hchildren : (ofExpr (.invalid none skipped anchor)).children = [] := by
    simp [children, parts, ofExpr, Expr.parts, Part.node?]
  have hinward : (ofExpr (.invalid none skipped anchor)).inward pos
      = (ofExpr (.invalid none skipped anchor)).reaching pos := rfl
  have hframe : (ofExpr (.invalid none skipped anchor)).frame pos = [] := rfl
  rw [enclosing_eq, hframe, hinward, reaching, hchildren]
  rfl

end Node

/-! ### Unclosed statements -/

/-- What a statement makes visible is declared in it, but for `self`, which its method declares. -/
lemma Stat.declared_of_lent {s : Stat} {b : Binding} (hb : b ∈ s.lent) :
    (∃ n ∈ (Node.stat s).preorder, b ∈ n.declared)
      ∨ b.name = "self" ∧ .identifier b.id ∈ (Node.stat s).children := by
  have hself := Node.self_mem_preorder (.stat s)
  have hbody : ∀ {n : Node} {f : FuncBody}, n ∈ (Node.stat s).preorder → .funcBody f ∈ n.children →
      b ∈ f.declared → ∃ n ∈ (Node.stat s).preorder, b ∈ n.declared := fun hn hf hb =>
    ⟨_, Node.mem_preorder_of_child hn hf, hb⟩
  have hfunction : ∀ {n : Node} (keyword : Token) {f : FuncBody}, n ∈ (Node.stat s).preorder →
      .expr (.function keyword f) ∈ n.children → b ∈ f.declared →
      ∃ n ∈ (Node.stat s).preorder, b ∈ n.declared := fun {_} _ {f} hn h hb =>
    hbody (Node.mem_preorder_of_child hn h)
      (by simp [Node.children, Node.parts, Expr.parts, Part.node?]) hb
  unfold lent at hb
  split at hb
  · exact .inl ⟨_, hself, hb⟩
  · exact .inl ⟨_, hself, hb⟩
  · next keyword name method f =>
    rcases List.mem_append.1 hb with hb | hb
    · obtain ⟨m, hm, rfl⟩ := List.mem_map.1 hb
      refine .inr ⟨rfl, ?_⟩
      simp [Node.children, Node.parts, Stat.parts, Part.node?, MethodName.parts,
        Option.mem_toList.1 hm, Binding.self]
    · refine .inl (hbody hself ?_ hb)
      simp [Node.children, Node.parts, Stat.parts, Part.node?]
  · next keyword second name f =>
    rcases List.mem_cons.1 hb with rfl | hb
    · exact .inl ⟨_, hself, List.mem_singleton_self _⟩
    · refine .inl (hbody hself ?_ hb)
      simp [Node.children, Node.parts, Stat.parts, Part.node?]
  · next _ _ _ keyword f _ _ =>
    refine .inl (hfunction keyword hself ?_ hb)
    simp [Node.children, Node.parts, Stat.parts, Part.node?, Separated.parts, Node.ofExpr]
  · next callee opening keyword f delimiter anchor closing =>
    refine .inl (hfunction (n := .expr (.call callee
      (.paren opening ⟨[⟨.function keyword f, delimiter⟩], anchor⟩ closing))) keyword
      (Node.mem_preorder_of_child hself ?_) ?_ hb)
    · simp [Node.children, Node.parts, Stat.parts, Part.node?, Node.ofExpr]
    · simp [Node.children, Node.parts, Expr.parts, CallArgs.parts, Part.node?, Separated.parts,
        Node.ofExpr]
  · cases hb

lemma Stat.mem_tokens_of_lent {s : Stat} {b : Binding} (hb : b ∈ s.lent) :
    b.id.token ∈ (Node.stat s).tokens := by
  rcases Stat.declared_of_lent hb with ⟨n, hn, hb⟩ | ⟨-, hid⟩
  · exact Node.mem_tokens_of_mem_preorder
      (Node.mem_preorder_of_child hn (Node.mem_children_of_declared hb))
  · exact Node.mem_tokens_of_mem_preorder
      (Node.mem_preorder_of_child (Node.self_mem_preorder _) hid)

/-- What a statement makes visible has a name, unless the token is missing that declares it. -/
lemma Stat.name_of_lent {s : Stat} {b : Binding} (hb : b ∈ s.lent) (h : b.id.name ≠ "") :
    b.name ≠ "" := by
  rcases Stat.declared_of_lent hb with ⟨n, -, hb⟩ | ⟨hself, -⟩
  · rwa [Node.name_of_declared hb]
  · rw [hself]
    decide

namespace Stat.Bears

open Node

variable {s : Stat} {b : Block} {pos : Offset}

lemma isUnclosed (h : s.Bears b) (hn : (stat s).EndsBy pos) :
    (stat s).isUnclosed = true := by
  cases h with
  | do_ h | while_ h | repeat_ h | then_ _ h | else_ _ h | numericFor h | genericFor h =>
    rw [Node.isUnclosed]
    exact h
  | @function _ _ _ f h | @localFunction _ _ _ f h =>
    rw [isUnclosed_of_last (m := funcBody f) rfl
      (by simp [children, Node.parts, Stat.parts, Part.node?, List.getLast?_cons])
      (hn.stop_eq_of_last (p := .node (funcBody f))
        (by simp [Node.parts, Stat.parts, List.getLast?_cons])).symm]
    exact isUnclosed_funcBody h
  | @value _ _ _ second f _ _ h =>
    have hchild : (expr (.function second f)).EndsBy pos := hn.child (by
      simp [children, Node.parts, Stat.parts, Part.node?, Separated.parts, ofExpr])
    rw [isUnclosed_of_last (m := expr (.function second f)) rfl
      (by simp [children, Node.parts, Stat.parts, Part.node?, Separated.parts, ofExpr,
        List.getLast?_cons])
      (hn.stop_eq_of_last (p := .node (expr (.function second f)))
        (by simp [Node.parts, Stat.parts, Separated.parts, ofExpr, List.getLast?_cons])).symm]
    exact hchild.isUnclosed_function h
  | @argument callee opening second f anchor closing _ h hclosing =>
    generalize he : Expr.call (.name callee)
      (.paren opening ⟨[⟨.function second f, none⟩], anchor⟩ closing) = e at hn ⊢
    have hchildren := children_callStat he.symm
    have hstop := hn.stop_eq_of_last (p := .node (expr e)) (by
      simp [← he, Node.parts, Stat.parts, ofExpr])
    rw [isUnclosed_of_last rfl (by rw [hchildren]; rfl) hstop.symm]
    exact (hn.child (by simp [hchildren])).isUnclosed_call he.symm h hclosing

lemma reaches (h : s.Bears b) (hn : (stat s).EndsBy pos) (hpos : pos ≤ unbounded) :
    (stat s).reaches pos unbounded = true := by
  simp [Node.reaches, hn.start_le, hpos, h.isUnclosed hn]

/-- In an unclosed statement the end of the text is in its last block. -/
lemma enclosing_eq (h : s.Bears b) (hn : (stat s).EndsBy pos) (hpos : pos ≤ unbounded) :
    (stat s).enclosing pos
      = s.lent.filter (·.name ≠ "") ++ (block b).enclosing pos := by
  have htoken : ∀ t, .token t ∈ (stat s).parts → t ∈ (stat s).tokens := fun _ =>
    mem_tokens_of_part
  cases h with
  | @do_ keyword _ close h =>
    have hinside := hn.inside_eq (htoken keyword (by simp [Node.parts, Stat.parts])) h
    refine enclosing_of_inward rfl ?_
    rw [inward, if_pos hinside]
  | @while_ keyword cond opener _ close h =>
    have hinside := hn.inside_eq (htoken opener (by simp [Node.parts, Stat.parts])) h
    refine enclosing_of_inward rfl ?_
    rw [inward, if_pos hinside]
  | @repeat_ keyword _ close skipped anchor h =>
    have hstop := hn.token_stop_le (htoken keyword (by simp [Node.parts, Stat.parts]))
    have hframe : (stat (.repeat_ keyword b close (.invalid none skipped anchor))).frame pos = [] :=
      rfl
    rw [Node.enclosing_eq, hframe, inward, if_pos hstop]
    split <;> simp [enclosing_invalid, lent]
  | @then_ keyword cond opener _ close hopener h =>
    have hinside := hn.inside_eq (htoken opener (by simp [Node.parts, Stat.parts, IfStat.parts])) h
    have hcond : (ofExpr cond).span.contains pos = false := hn.cond_not_contains hopener
    refine enclosing_of_inward rfl ?_
    simp [inward, IfStat.branch?, IfStat.branches, hcond, hinside]
  | @else_ keyword cond opener first second _ close hopener h =>
    have hcond : (ofExpr cond).span.contains pos = false := hn.cond_not_contains hopener
    have helse : (Node.else_ ⟨second, b⟩).EndsBy pos := hn.child (by
      simp [children, Node.parts, Stat.parts, IfStat.parts, Part.node?])
    have hinside : inside pos second close = true := by
      have hstop := helse.token_stop_le (t := second) (mem_tokens_of_part (by simp [Node.parts]))
      simp [inside, hstop, h]
    rw [enclosing_of_inward (m := Node.else_ ⟨second, b⟩) (l := []) rfl,
      enclosing_of_inward (n := Node.else_ ⟨second, b⟩) (m := block b) (l := []) rfl rfl]
    · rfl
    · simp [inward, IfStat.branch?, IfStat.branches, hcond, hinside]
  | @numericFor s h =>
    have hopener := htoken s.opener (by simp [Node.parts, Stat.parts, NumericFor.parts])
    have hinside := hn.inside_eq hopener h
    refine enclosing_of_inward ?_ ?_
    · rw [frame, if_pos hinside]
      rfl
    · rw [inward, if_pos hinside]
  | @genericFor s h =>
    have hopener := htoken s.opener (by simp [Node.parts, Stat.parts, GenericFor.parts])
    have hinside := hn.inside_eq hopener h
    refine enclosing_of_inward ?_ ?_
    · rw [frame, if_pos hinside]
      rfl
    · rw [inward, if_pos hinside]
  | @function keyword name method f h =>
    have hbody : (funcBody f).EndsBy pos := hn.child (by
      simp [children, Node.parts, Stat.parts, Part.node?])
    have hinside := hbody.inside_eq (t := f.closing)
      (mem_tokens_of_part (by simp [Node.parts, FuncBody.parts])) h
    rw [enclosing_of_inward (l := method.toList.map (.self keyword)) (m := funcBody f) ?_ rfl,
      hbody.enclosing_funcBody h, lent, List.filter_append, List.append_assoc]
    exact if_pos hinside
  | @localFunction keyword second name f h =>
    have hbody : (funcBody f).EndsBy pos := hn.child (by
      simp [children, Node.parts, Stat.parts, Part.node?])
    rw [enclosing_of_inward (m := funcBody f) rfl rfl, hbody.enclosing_funcBody h,
      ← List.append_assoc, ← List.filter_append]
    rfl
  | @value keyword names eq second f anchor heq h =>
    obtain ⟨hinward, hfunction⟩ := hn.inward_value heq h hpos
    rw [enclosing_of_inward rfl hinward, hfunction.enclosing_function h hpos]
    rfl
  | @argument callee opening second f anchor closing hopening h hclosing =>
    generalize he : Expr.call (.name callee)
      (.paren opening ⟨[⟨.function second f, none⟩], anchor⟩ closing) = e at hn ⊢
    rw [hn.enclosing_callStat he.symm hopening h hclosing hpos, ← he]
    rfl

lemma endsBy (h : s.Bears b) (hn : (stat s).EndsBy pos) : (block b).EndsBy pos := by
  have hbody : ∀ {f : FuncBody}, (funcBody f).EndsBy pos → (block f.block).EndsBy pos := fun hf =>
    hf.child (by simp [children, Node.parts, FuncBody.parts, Part.node?])
  cases h with
  | do_ | while_ | repeat_ | then_ | numericFor | genericFor =>
    refine hn.child ?_
    simp [children, Node.parts, Stat.parts, IfStat.parts, NumericFor.parts, GenericFor.parts,
      Part.node?]
  | @else_ _ _ _ _ second =>
    refine (hn.child (m := Node.else_ ⟨second, b⟩) ?_).child ?_ <;>
      simp [children, Node.parts, Stat.parts, IfStat.parts, Part.node?]
  | @function _ _ _ f | @localFunction _ _ _ f =>
    refine hbody (hn.child (m := funcBody f) ?_)
    simp [children, Node.parts, Stat.parts, Part.node?]
  | @value _ _ _ second f =>
    have hfunction : (expr (.function second f)).EndsBy pos := hn.child (by
      simp [children, Node.parts, Stat.parts, Separated.items, ofExpr])
    exact hbody hfunction.body
  | @argument callee opening second f anchor closing =>
    generalize he : Expr.call (.name callee)
      (.paren opening ⟨[⟨.function second f, none⟩], anchor⟩ closing) = e at hn
    have hcall : (expr e).EndsBy pos := hn.child (by simp [children_callStat he.symm])
    have hfunction : (expr (.function second f)).EndsBy pos :=
      hcall.child (by simp [children_call he.symm])
    exact hbody hfunction.body

end Stat.Bears

namespace Block.Unfinished

open Node

variable {b : Block} {bindings : List Binding} {pos : Offset}

/-- **At the end of a text that ends in unclosed statements**, what is visible is what the blocks
that are still being written declare, and what the unclosed statements declare for them. -/
theorem enclosing_eq (h : b.Unfinished bindings) (hb : (block b).EndsBy pos)
    (hpos : pos ≤ unbounded) :
    (block b).enclosing pos = bindings.filter (·.name ≠ "") := by
  induction h with
  | @closed b h =>
    have hchildren : (block b).children = b.stats.map stat := by
      simp [children, Node.parts, List.filterMap_map, Function.comp_def, Part.node?]
    have hwhole : ∀ s ∈ b.stats, (stat s).Whole ∧ (stat s).EndsBy pos := fun s hs =>
      ⟨h s hs, hb.child (hchildren ▸ List.mem_map_of_mem hs)⟩
    have hsplit : splitAt pos (block b).children = (b.stats.map stat, none) := by
      rw [hchildren, ← List.append_nil (b.stats.map stat), splitAt_whole hwhole]
      simp [splitAt]
    rw [Node.enclosing_eq, frame, inward, hsplit, List.flatMap_map]
    simp
  | @opened b inner done last more hstats h hlast _ ih =>
    have hchildren : (block b).children = done.map stat ++ [stat last] := by
      simp [children, Node.parts, hstats, List.filterMap_map, Function.comp_def, Part.node?]
    have hwhole : ∀ s ∈ done, (stat s).Whole ∧ (stat s).EndsBy pos := fun s hs =>
      ⟨h s hs, hb.child (hchildren ▸ List.mem_append_left _ (List.mem_map_of_mem hs))⟩
    have hends : (stat last).EndsBy pos := hb.child (by simp [hchildren])
    have hsplit : splitAt pos (block b).children = (done.map stat, some (stat last)) := by
      rw [hchildren, splitAt_whole hwhole, splitAt, startOf, if_pos (hlast.reaches hends hpos),
        List.append_nil]
    rw [Node.enclosing_eq, frame, inward, hsplit, List.flatMap_map]
    simp [hlast.enclosing_eq hends hpos, ih (hlast.endsBy hends)]

end Block.Unfinished

end LuaFront
