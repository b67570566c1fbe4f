import LuaFront.Syntax.Tree

/-!
One view of every part of a tree. A node is seen as the sequence of its parts, tokens and smaller
nodes, in the order of the text. Its tokens, its span, its first token and its child nodes are all
read off the parts.
-/

namespace LuaFront

/-- A part of a tree that has a kind and a span. Names, literals and dots are nodes wherever they
stand, and so are tables; an expression that is one of these is seen as such. -/
inductive Node where
  | block (block : Block)
  | stat (stat : Stat)
  | elseIf (clause : ElseIf)
  | else_ (clause : Else)
  | funcBody (body : FuncBody)
  | tableField (field : TableField)
  | table (table : Table)
  | expr (expr : Expr)
  | identifier (id : Identifier)
  | literal (lit : Literal)
  | vararg (dots : Vararg)

inductive Part where
  | token (token : Token)
  | node (node : Node)

def Part.node? : Part → Option Node
  | token _ => none
  | node n => some n

namespace Node

def ofExpr : Expr → Node
  | .name id => .identifier id
  | .literal lit => .literal lit
  | .vararg dots => .vararg dots
  | .table t => .table t
  | e => .expr e

def ofParam : Param → Node
  | .name id => .identifier id
  | .vararg dots => .vararg dots

end Node

/-! ### Parts -/

/-- The items of a list as nodes, with the delimiters between them. -/
def Separated.parts {α : Type} (node : α → Node) (l : Separated α) : List Part :=
  l.pairs.flatMap fun pair => .node (node pair.item) :: pair.delimiter.toList.map .token

def CallArgs.parts : CallArgs → List Part
  | paren opening args closing =>
    .token opening :: args.parts Node.ofExpr ++ [.token closing]
  | table t => [.node (.table t)]
  | string lit => [.node (.literal lit)]

def Table.parts (t : Table) : List Part :=
  .token t.opening :: t.fields.parts Node.tableField ++ [.token t.closing]

def Expr.parts : Expr → List Part
  | literal lit => [.token lit.token]
  | vararg dots => [.token dots.token]
  | name id => [.token id.token]
  | function keyword body => [.token keyword, .node (.funcBody body)]
  | table t => t.parts
  | paren opening inner closing => [.token opening, .node (.ofExpr inner), .token closing]
  | field base dot id => [.node (.ofExpr base), .token dot, .node (.identifier id)]
  | index base opening key closing =>
    [.node (.ofExpr base), .token opening, .node (.ofExpr key), .token closing]
  | call callee args => .node (.ofExpr callee) :: args.parts
  | methodCall receiver colon id args =>
    [.node (.ofExpr receiver), .token colon, .node (.identifier id)] ++ args.parts
  | unary _ sign operand => [.token sign, .node (.ofExpr operand)]
  | binary lhs _ sign rhs => [.node (.ofExpr lhs), .token sign, .node (.ofExpr rhs)]
  | invalid kept skipped _ =>
    kept.toList.map (fun e => .node (.ofExpr e)) ++ skipped.map .token

def TableField.parts : TableField → List Part
  | positional value => [.node (.ofExpr value)]
  | named name eq value => [.node (.identifier name), .token eq, .node (.ofExpr value)]
  | keyed opening key closing eq value =>
    [.token opening, .node (.ofExpr key), .token closing, .token eq, .node (.ofExpr value)]

def FuncBody.parts (f : FuncBody) : List Part :=
  .token f.opening :: f.params.parts Node.ofParam
    ++ [.token f.closing, .node (.block f.block), .token f.close]

def IfStat.parts (s : IfStat) : List Part :=
  [.token s.keyword, .node (.ofExpr s.cond), .token s.opener, .node (.block s.block)]
    ++ s.elseIfs.map (fun clause => .node (.elseIf clause))
    ++ s.else_.toList.map (fun clause => .node (.else_ clause)) ++ [.token s.close]

def Step.parts (s : Step) : List Part := [.token s.comma, .node (.ofExpr s.value)]

def NumericFor.parts (s : NumericFor) : List Part :=
  [.token s.keyword, .node (.identifier s.var), .token s.eq, .node (.ofExpr s.start),
    .token s.comma, .node (.ofExpr s.limit)] ++ s.step.toList.flatMap Step.parts
    ++ [.token s.opener, .node (.block s.block), .token s.close]

def GenericFor.parts (s : GenericFor) : List Part :=
  .token s.keyword :: s.names.parts Node.identifier ++ .token s.in_ :: s.exprs.parts Node.ofExpr
    ++ [.token s.opener, .node (.block s.block), .token s.close]

def MethodName.parts (m : MethodName) : List Part := [.token m.colon, .node (.identifier m.name)]

def Stat.parts : Stat → List Part
  | empty semi => [.token semi]
  | assign targets eq values =>
    targets.parts Node.ofExpr ++ .token eq :: values.parts Node.ofExpr
  | call e => [.node (.ofExpr e)]
  | do_ keyword block close => [.token keyword, .node (.block block), .token close]
  | while_ keyword cond opener block close =>
    [.token keyword, .node (.ofExpr cond), .token opener, .node (.block block), .token close]
  | repeat_ keyword block close cond =>
    [.token keyword, .node (.block block), .token close, .node (.ofExpr cond)]
  | if_ s => s.parts
  | numericFor s => s.parts
  | genericFor s => s.parts
  | function keyword name method body =>
    [.token keyword, .node (.ofExpr name)] ++ method.toList.flatMap MethodName.parts
      ++ [.node (.funcBody body)]
  | localFunction keyword second name body =>
    [.token keyword, .token second, .node (.identifier name), .node (.funcBody body)]
  | local_ keyword names eq values =>
    .token keyword :: names.parts Node.identifier ++ eq.toList.map .token
      ++ values.parts Node.ofExpr
  | return_ keyword values semi =>
    .token keyword :: values.parts Node.ofExpr ++ semi.toList.map .token
  | break_ keyword => [.token keyword]
  | goto_ keyword name => [.token keyword, .node (.identifier name)]
  | label opening name closing => [.token opening, .node (.identifier name), .token closing]
  | invalid kept skipped _ =>
    kept.toList.map (fun e => .node (.ofExpr e)) ++ skipped.map .token

/-- The tokens and nodes that a node is made of, in the order of the text. -/
def Node.parts : Node → List Part
  | block b => b.stats.map fun s => .node (.stat s)
  | stat s => s.parts
  | elseIf c =>
    [.token c.keyword, .node (.ofExpr c.cond), .token c.opener, .node (.block c.block)]
  | else_ c => [.token c.keyword, .node (.block c.block)]
  | funcBody f => f.parts
  | tableField f => f.parts
  | table t => t.parts
  | expr e => e.parts
  | identifier id => [.token id.token]
  | literal lit => [.token lit.token]
  | vararg dots => [.token dots.token]

/-- The nodes among the parts. -/
def Node.children (n : Node) : List Node := n.parts.filterMap Part.node?

theorem Node.mem_children {n m : Node} : m ∈ n.children ↔ .node m ∈ n.parts := by
  simp only [children, List.mem_filterMap]
  constructor
  · rintro ⟨part, hpart, hm⟩
    cases part with
    | token => cases hm
    | node => cases hm; exact hpart
  · exact fun h => ⟨_, h, rfl⟩

/-! ### Parts are smaller -/

theorem Node.sizeOf_ofExpr_le (e : Expr) : sizeOf (ofExpr e) ≤ 1 + sizeOf e := by
  cases e <;> simp only [ofExpr, expr.sizeOf_spec, identifier.sizeOf_spec, literal.sizeOf_spec,
    vararg.sizeOf_spec, table.sizeOf_spec, Expr.name.sizeOf_spec, Expr.literal.sizeOf_spec,
    Expr.vararg.sizeOf_spec, Expr.table.sizeOf_spec, Nat.le_refl] <;> omega

theorem Separated.sizeOf_lt_of_mem_parts {α : Type} [SizeOf α] {node : α → Node}
    {l : Separated α} {n : Node} (hnode : ∀ a, sizeOf (node a) ≤ 1 + sizeOf a)
    (h : .node n ∈ l.parts node) : sizeOf n < sizeOf l := by
  obtain ⟨pairs, anchor⟩ := l
  simp only [parts, List.mem_flatMap] at h
  obtain ⟨⟨item, delimiter⟩, hmem, h⟩ := h
  have hsize := List.sizeOf_lt_of_mem hmem
  have := hnode item
  simp only [List.mem_cons, Part.node.injEq, List.mem_map, reduceCtorEq, and_false, exists_false,
    or_false] at h
  subst h
  simp only [Separated.mk.sizeOf_spec, Pair.mk.sizeOf_spec] at hsize ⊢
  omega

theorem Separated.exprs_lt {l : Separated Expr} {n : Node} (h : .node n ∈ l.parts Node.ofExpr) :
    sizeOf n < sizeOf l := sizeOf_lt_of_mem_parts Node.sizeOf_ofExpr_le h

theorem Separated.fields_lt {l : Separated TableField} {n : Node}
    (h : .node n ∈ l.parts Node.tableField) : sizeOf n < sizeOf l :=
  sizeOf_lt_of_mem_parts (by simp) h

theorem Separated.identifiers_lt {l : Separated Identifier} {n : Node}
    (h : .node n ∈ l.parts Node.identifier) : sizeOf n < sizeOf l :=
  sizeOf_lt_of_mem_parts (by simp) h

theorem Separated.params_lt {l : Separated Param} {n : Node}
    (h : .node n ∈ l.parts Node.ofParam) : sizeOf n < sizeOf l :=
  sizeOf_lt_of_mem_parts (by intro p; cases p <;> simp [Node.ofParam]) h

theorem Table.sizeOf_lt_of_mem_parts {t : Table} {n : Node} (h : .node n ∈ t.parts) :
    sizeOf n < sizeOf t := by
  obtain ⟨opening, fields, closing⟩ := t
  simp only [Table.parts, List.mem_append, List.mem_cons, reduceCtorEq, false_or,
    List.not_mem_nil, or_false] at h
  have := Separated.fields_lt h
  simp only [Table.mk.sizeOf_spec]
  omega

theorem CallArgs.sizeOf_lt_of_mem_parts {a : CallArgs} {n : Node} (h : .node n ∈ a.parts) :
    sizeOf n < 1 + sizeOf a := by
  cases a <;> simp [CallArgs.parts] at h
  · have := Separated.exprs_lt h; simp; omega
  · subst h; simp
  · subst h; simp

theorem Expr.sizeOf_lt_of_mem_parts {e : Expr} {n : Node} (h : .node n ∈ e.parts) :
    sizeOf n < 1 + sizeOf e := by
  have hexpr := Node.sizeOf_ofExpr_le
  have htable := @Table.sizeOf_lt_of_mem_parts
  have hargs := @CallArgs.sizeOf_lt_of_mem_parts
  cases e <;> simp [Expr.parts] at h ⊢
  all_goals grind [Node.funcBody.sizeOf_spec, Node.identifier.sizeOf_spec]

theorem TableField.sizeOf_lt_of_mem_parts {f : TableField} {n : Node} (h : .node n ∈ f.parts) :
    sizeOf n < 1 + sizeOf f := by
  have hexpr := Node.sizeOf_ofExpr_le
  cases f <;> simp [TableField.parts] at h ⊢ <;> grind [Node.identifier.sizeOf_spec]

theorem FuncBody.sizeOf_lt_of_mem_parts {f : FuncBody} {n : Node} (h : .node n ∈ f.parts) :
    sizeOf n < 1 + sizeOf f := by
  have hparams := @Separated.params_lt
  obtain ⟨opening, params, closing, block, close⟩ := f
  simp [FuncBody.parts] at h ⊢
  grind [Node.block.sizeOf_spec]

theorem IfStat.sizeOf_lt_of_mem_parts {s : IfStat} {n : Node} (h : .node n ∈ s.parts) :
    sizeOf n < 1 + sizeOf s := by
  have hexpr := Node.sizeOf_ofExpr_le
  have hmem := @List.sizeOf_lt_of_mem ElseIf
  obtain ⟨keyword, cond, opener, block, elseIfs, else_, close⟩ := s
  cases else_ <;> simp [IfStat.parts] at h ⊢ <;>
    grind [Node.block.sizeOf_spec, Node.elseIf.sizeOf_spec, Node.else_.sizeOf_spec]

theorem NumericFor.sizeOf_lt_of_mem_parts {s : NumericFor} {n : Node} (h : .node n ∈ s.parts) :
    sizeOf n < 1 + sizeOf s := by
  have hexpr := Node.sizeOf_ofExpr_le
  obtain ⟨keyword, var, eq, start, comma, limit, _ | ⟨comma, value⟩, opener, block, close⟩ := s <;>
    simp [NumericFor.parts, Step.parts] at h ⊢ <;>
    grind [Node.block.sizeOf_spec, Node.identifier.sizeOf_spec]

theorem GenericFor.sizeOf_lt_of_mem_parts {s : GenericFor} {n : Node} (h : .node n ∈ s.parts) :
    sizeOf n < 1 + sizeOf s := by
  have hnames := @Separated.identifiers_lt
  have hexprs := @Separated.exprs_lt
  obtain ⟨keyword, names, in_, exprs, opener, block, close⟩ := s
  simp [GenericFor.parts] at h ⊢
  grind [Node.block.sizeOf_spec]

theorem Stat.sizeOf_lt_of_mem_parts {s : Stat} {n : Node} (h : .node n ∈ s.parts) :
    sizeOf n < 1 + sizeOf s := by
  have hexpr := Node.sizeOf_ofExpr_le
  have hexprs := @Separated.exprs_lt
  have hnames := @Separated.identifiers_lt
  have hif := @IfStat.sizeOf_lt_of_mem_parts
  have hnum := @NumericFor.sizeOf_lt_of_mem_parts
  have hgen := @GenericFor.sizeOf_lt_of_mem_parts
  have hmethod : ∀ m : MethodName, sizeOf m.name < sizeOf m := fun ⟨_, _⟩ => by
    simp only [MethodName.mk.sizeOf_spec]
    omega
  cases s <;> simp [Stat.parts, MethodName.parts] at h ⊢
  all_goals
    grind [Node.block.sizeOf_spec, Node.identifier.sizeOf_spec, Node.funcBody.sizeOf_spec]

theorem Node.sizeOf_lt_of_mem_parts {n m : Node} (h : .node m ∈ n.parts) :
    sizeOf m < sizeOf n := by
  have hexpr := Node.sizeOf_ofExpr_le
  have hmem := @List.sizeOf_lt_of_mem Stat
  have h₁ := @Stat.sizeOf_lt_of_mem_parts
  have h₂ := @FuncBody.sizeOf_lt_of_mem_parts
  have h₃ := @TableField.sizeOf_lt_of_mem_parts
  have h₄ := @Table.sizeOf_lt_of_mem_parts
  have h₅ := @Expr.sizeOf_lt_of_mem_parts
  cases n
  case block b =>
    obtain ⟨stats, anchor⟩ := b
    simp [Node.parts] at h ⊢
    grind [Node.stat.sizeOf_spec]
  case elseIf c =>
    obtain ⟨keyword, cond, opener, block⟩ := c
    simp [Node.parts] at h ⊢
    grind [Node.block.sizeOf_spec]
  case else_ c =>
    obtain ⟨keyword, block⟩ := c
    simp [Node.parts] at h ⊢
    grind [Node.block.sizeOf_spec]
  all_goals simp [Node.parts] at h ⊢
  all_goals grind

theorem Node.sizeOf_lt_of_mem_children {n m : Node} (h : m ∈ n.children) :
    sizeOf m < sizeOf n := sizeOf_lt_of_mem_parts (mem_children.1 h)

end LuaFront
