import LuaFront.Diagnostic.Log
import LuaFront.Grammar.Statement
import LuaFront.Proofs.Tree.Marks
import Mathlib.Data.List.Basic
import Mathlib.Order.MinMax

/-!
Trees in other places. A displacement moves tokens and gives them other trivia; it keeps their kinds
and texts, and their order. What is made of tokens is displaced with them, and with a node its parts
and its span are displaced.
-/

namespace LuaFront

/-- Moves tokens and changes what is in front of them. The start of the text stays where it is, and
what is missing still has nothing in front of it. -/
structure Displacement where
  offset : Offset → Offset
  trivia : List Trivia → List Trivia
  monotone : Monotone offset
  zero : offset 0 = 0
  none : trivia [] = []

namespace Displacement

variable (m : Displacement)

def span (s : Span) : Span := ⟨m.offset s.start, m.offset s.stop⟩

def token (t : Token) : Token := { t with span := m.span t.span, trivia := m.trivia t.trivia }

def label (l : Label) : Label := { l with span := m.span l.span }

def diagnostic (d : Diagnostic) : Diagnostic :=
  { d with span := m.span d.span, labels := d.labels.map m.label }

def log (l : Log) : Log := ⟨l.entries.map m.diagnostic⟩

def identifier (id : Identifier) : Identifier := ⟨m.token id.token⟩

def literal (lit : Literal) : Literal := ⟨lit.kind, m.token lit.token⟩

def vararg (dots : Vararg) : Vararg := ⟨m.token dots.token⟩

def param : Param → Param
  | .name id => .name (m.identifier id)
  | .vararg dots => .vararg (m.vararg dots)

def method (name : MethodName) : MethodName := ⟨m.token name.colon, m.identifier name.name⟩

/-- A list with its delimiters, given what becomes of the items. -/
def list {α : Type} (item : α → α) (l : Separated α) : Separated α :=
  ⟨l.pairs.map fun pair => ⟨item pair.item, pair.delimiter.map m.token⟩, m.offset l.anchor⟩

mutual

def expr : Expr → Expr
  | .literal lit => .literal (m.literal lit)
  | .vararg dots => .vararg (m.vararg dots)
  | .name id => .name (m.identifier id)
  | .function keyword body => .function (m.token keyword) (funcBody body)
  | .table t => .table (table t)
  | .paren opening inner closing => .paren (m.token opening) (expr inner) (m.token closing)
  | .field base dot name => .field (expr base) (m.token dot) (m.identifier name)
  | .index base opening key closing =>
    .index (expr base) (m.token opening) (expr key) (m.token closing)
  | .call callee args => .call (expr callee) (callArgs args)
  | .methodCall receiver colon name args =>
    .methodCall (expr receiver) (m.token colon) (m.identifier name) (callArgs args)
  | .unary op sign operand => .unary op (m.token sign) (expr operand)
  | .binary lhs op sign rhs => .binary (expr lhs) op (m.token sign) (expr rhs)
  | .invalid kept skipped anchor =>
    .invalid (keptExpr kept) (skipped.map m.token) (m.offset anchor)

def keptExpr : Option Expr → Option Expr
  | .none => .none
  | some e => some (expr e)

def exprPairs : List (Pair Expr) → List (Pair Expr)
  | [] => []
  | ⟨e, delimiter⟩ :: more => ⟨expr e, delimiter.map m.token⟩ :: exprPairs more

def callArgs : CallArgs → CallArgs
  | .paren opening ⟨args, anchor⟩ closing =>
    .paren (m.token opening) ⟨exprPairs args, m.offset anchor⟩ (m.token closing)
  | .table t => .table (table t)
  | .string lit => .string (m.literal lit)

def table : Table → Table
  | ⟨opening, ⟨fields, anchor⟩, closing⟩ =>
    ⟨m.token opening, ⟨fieldPairs fields, m.offset anchor⟩, m.token closing⟩

def fieldPairs : List (Pair TableField) → List (Pair TableField)
  | [] => []
  | ⟨f, delimiter⟩ :: more => ⟨field f, delimiter.map m.token⟩ :: fieldPairs more

def field : TableField → TableField
  | .positional value => .positional (expr value)
  | .named name eq value => .named (m.identifier name) (m.token eq) (expr value)
  | .keyed opening key closing eq value =>
    .keyed (m.token opening) (expr key) (m.token closing) (m.token eq) (expr value)

def funcBody : FuncBody → FuncBody
  | ⟨opening, params, closing, b, close⟩ =>
    ⟨m.token opening, m.list m.param params, m.token closing, block b, m.token close⟩

def block : Block → Block
  | ⟨ss, anchor⟩ => ⟨stats ss, m.offset anchor⟩

def stats : List Stat → List Stat
  | [] => []
  | s :: more => stat s :: stats more

def stat : Stat → Stat
  | .empty semi => .empty (m.token semi)
  | .assign ⟨targets, first⟩ eq ⟨values, second⟩ =>
    .assign ⟨exprPairs targets, m.offset first⟩ (m.token eq) ⟨exprPairs values, m.offset second⟩
  | .call e => .call (expr e)
  | .do_ keyword b close => .do_ (m.token keyword) (block b) (m.token close)
  | .while_ keyword cond opener b close =>
    .while_ (m.token keyword) (expr cond) (m.token opener) (block b) (m.token close)
  | .repeat_ keyword b close cond =>
    .repeat_ (m.token keyword) (block b) (m.token close) (expr cond)
  | .if_ s => .if_ (ifStat s)
  | .numericFor s => .numericFor (numericFor s)
  | .genericFor s => .genericFor (genericFor s)
  | .function keyword name method f =>
    .function (m.token keyword) (expr name) (method.map m.method) (funcBody f)
  | .localFunction keyword second name f =>
    .localFunction (m.token keyword) (m.token second) (m.identifier name) (funcBody f)
  | .local_ keyword names eq ⟨values, anchor⟩ =>
    .local_ (m.token keyword) (m.list m.identifier names) (eq.map m.token)
      ⟨exprPairs values, m.offset anchor⟩
  | .return_ keyword ⟨values, anchor⟩ semi =>
    .return_ (m.token keyword) ⟨exprPairs values, m.offset anchor⟩ (semi.map m.token)
  | .break_ keyword => .break_ (m.token keyword)
  | .goto_ keyword name => .goto_ (m.token keyword) (m.identifier name)
  | .label opening name closing =>
    .label (m.token opening) (m.identifier name) (m.token closing)
  | .invalid kept skipped anchor =>
    .invalid (keptExpr kept) (skipped.map m.token) (m.offset anchor)

def ifStat : IfStat → IfStat
  | ⟨keyword, cond, opener, b, clauses, last, close⟩ =>
    ⟨m.token keyword, expr cond, m.token opener, block b, elseIfs clauses, elseOption last,
      m.token close⟩

def elseIfs : List ElseIf → List ElseIf
  | [] => []
  | c :: more => elseIf c :: elseIfs more

def elseIf : ElseIf → ElseIf
  | ⟨keyword, cond, opener, b⟩ => ⟨m.token keyword, expr cond, m.token opener, block b⟩

def elseOption : Option Else → Option Else
  | .none => .none
  | some c => some (else_ c)

def else_ : Else → Else
  | ⟨keyword, b⟩ => ⟨m.token keyword, block b⟩

def numericFor : NumericFor → NumericFor
  | ⟨keyword, var, eq, start, comma, limit, last, opener, b, close⟩ =>
    ⟨m.token keyword, m.identifier var, m.token eq, expr start, m.token comma, expr limit,
      stepOption last, m.token opener, block b, m.token close⟩

def stepOption : Option Step → Option Step
  | .none => .none
  | some ⟨comma, value⟩ => some ⟨m.token comma, expr value⟩

def genericFor : GenericFor → GenericFor
  | ⟨keyword, names, in_, ⟨values, anchor⟩, opener, b, close⟩ =>
    ⟨m.token keyword, m.list m.identifier names, m.token in_,
      ⟨exprPairs values, m.offset anchor⟩, m.token opener, block b, m.token close⟩

end

/-! ### Lists and options -/

variable {m} {α : Type}

@[simp] lemma keptExpr_eq (e : Option Expr) : m.keptExpr e = e.map m.expr := by
  cases e <;> rfl

@[simp] lemma elseOption_eq (c : Option Else) : m.elseOption c = c.map m.else_ := by
  cases c <;> rfl

def step (m : Displacement) (s : Step) : Step := ⟨m.token s.comma, m.expr s.value⟩

@[simp] lemma stepOption_eq (s : Option Step) : m.stepOption s = s.map m.step := by
  rcases s with _ | ⟨comma, value⟩ <;> rfl

@[simp] lemma stats_eq (ss : List Stat) : m.stats ss = ss.map m.stat := by
  induction ss with
  | nil => rfl
  | cons s ss ih => rw [stats, ih, List.map_cons]

lemma stats_block (b : Block) : (m.block b).stats = m.stats b.stats := by
  cases b
  rfl

@[simp] lemma elseIfs_eq (cs : List ElseIf) : m.elseIfs cs = cs.map m.elseIf := by
  induction cs with
  | nil => rfl
  | cons c cs ih => rw [elseIfs, ih, List.map_cons]

@[simp] lemma exprPairs_eq (pairs : List (Pair Expr)) (anchor : Offset) :
    ⟨m.exprPairs pairs, m.offset anchor⟩ = m.list m.expr ⟨pairs, anchor⟩ := by
  have hpairs : m.exprPairs pairs = (m.list m.expr ⟨pairs, anchor⟩).pairs := by
    induction pairs with
    | nil => rfl
    | cons pair pairs ih => rw [exprPairs, ih, list, list, List.map_cons]
  rw [hpairs]
  rfl

@[simp] lemma fieldPairs_eq (pairs : List (Pair TableField)) (anchor : Offset) :
    ⟨m.fieldPairs pairs, m.offset anchor⟩ = m.list m.field ⟨pairs, anchor⟩ := by
  have hpairs : m.fieldPairs pairs = (m.list m.field ⟨pairs, anchor⟩).pairs := by
    induction pairs with
    | nil => rfl
    | cons pair pairs ih => rw [fieldPairs, ih, list, list, List.map_cons]
  rw [hpairs]
  rfl

@[simp] lemma list_empty (item : α → α) (anchor : Offset) :
    m.list item (.empty anchor) = .empty (m.offset anchor) := rfl

@[simp] lemma list_push (item : α → α) (l : Separated α) (a : α) :
    m.list item (l.push a) = (m.list item l).push (item a) := by
  simp [list, Separated.push]

@[simp] lemma list_delimit (item : α → α) (l : Separated α) (t : Token) :
    m.list item (l.delimit t) = (m.list item l).delimit (m.token t) := by
  obtain ⟨pairs, anchor⟩ := l
  rcases pairs.eq_nil_or_concat with rfl | ⟨front, ⟨last, _ | delimiter⟩, rfl⟩ <;>
    simp [list, Separated.delimit]

@[simp] lemma items_list (item : α → α) (l : Separated α) :
    (m.list item l).items = l.items.map item := by
  simp [list, Separated.items]

/-! ### Nodes -/

def node (m : Displacement) : Node → Node
  | .block b => .block (m.block b)
  | .stat s => .stat (m.stat s)
  | .elseIf c => .elseIf (m.elseIf c)
  | .else_ c => .else_ (m.else_ c)
  | .funcBody f => .funcBody (m.funcBody f)
  | .tableField f => .tableField (m.field f)
  | .table t => .table (m.table t)
  | .expr e => .expr (m.expr e)
  | .identifier id => .identifier (m.identifier id)
  | .literal lit => .literal (m.literal lit)
  | .vararg dots => .vararg (m.vararg dots)

def part (m : Displacement) : Part → Part
  | .token t => .token (m.token t)
  | .node n => .node (m.node n)

@[simp] lemma node_block (b : Block) : m.node (.block b) = .block (m.block b) := rfl

@[simp] lemma node_stat (s : Stat) : m.node (.stat s) = .stat (m.stat s) := rfl

@[simp] lemma node_elseIf (c : ElseIf) : m.node (.elseIf c) = .elseIf (m.elseIf c) := rfl

@[simp] lemma node_else (c : Else) : m.node (.else_ c) = .else_ (m.else_ c) := rfl

@[simp] lemma node_funcBody (f : FuncBody) : m.node (.funcBody f) = .funcBody (m.funcBody f) := rfl

@[simp] lemma node_tableField (f : TableField) :
    m.node (.tableField f) = .tableField (m.field f) := rfl

@[simp] lemma node_table (t : Table) : m.node (.table t) = .table (m.table t) := rfl

@[simp] lemma node_identifier (id : Identifier) :
    m.node (.identifier id) = .identifier (m.identifier id) := rfl

@[simp] lemma node_literal (lit : Literal) : m.node (.literal lit) = .literal (m.literal lit) := rfl

@[simp] lemma node_ofExpr (e : Expr) : m.node (.ofExpr e) = .ofExpr (m.expr e) := by
  cases e <;> rfl

@[simp] lemma node_ofParam (p : Param) : m.node (.ofParam p) = .ofParam (m.param p) := by
  cases p <;> rfl

@[simp] lemma part_token (t : Token) : m.part (.token t) = .token (m.token t) := rfl

@[simp] lemma part_node (n : Node) : m.part (.node n) = .node (m.node n) := rfl

lemma parts_list {item : α → α} {toNode : α → Node}
    (h : ∀ a, m.node (toNode a) = toNode (item a)) (l : Separated α) :
    (m.list item l).parts toNode = (l.parts toNode).map m.part := by
  simp only [Separated.parts, list, List.flatMap_map, List.map_flatMap]
  refine congrArg (l.pairs.flatMap ·) (funext fun pair => ?_)
  cases pair.delimiter <;> simp [h]

@[simp] lemma parts_exprs (l : Separated Expr) :
    (m.list m.expr l).parts .ofExpr = (l.parts .ofExpr).map m.part := parts_list node_ofExpr l

@[simp] lemma parts_names (l : Separated Identifier) :
    (m.list m.identifier l).parts .identifier = (l.parts .identifier).map m.part :=
  parts_list node_identifier l

@[simp] lemma parts_params (l : Separated Param) :
    (m.list m.param l).parts .ofParam = (l.parts .ofParam).map m.part := parts_list node_ofParam l

@[simp] lemma parts_table (t : Table) : (m.table t).parts = t.parts.map m.part := by
  obtain ⟨opening, ⟨fields, anchor⟩, closing⟩ := t
  simp [table, Table.parts, parts_list node_tableField]

@[simp] lemma parts_callArgs (a : CallArgs) : (m.callArgs a).parts = a.parts.map m.part := by
  cases a <;> simp [callArgs, CallArgs.parts]

@[simp] lemma parts_expr (e : Expr) : (m.expr e).parts = e.parts.map m.part := by
  cases e with
  | invalid kept skipped anchor => cases kept <;> simp [expr, Expr.parts]
  | _ => simp [expr, Expr.parts, literal, vararg, identifier]

@[simp] lemma parts_field (f : TableField) : (m.field f).parts = f.parts.map m.part := by
  cases f <;> simp [field, TableField.parts]

@[simp] lemma parts_funcBody (f : FuncBody) : (m.funcBody f).parts = f.parts.map m.part := by
  obtain ⟨opening, params, closing, b, close⟩ := f
  simp [funcBody, FuncBody.parts]

@[simp] lemma parts_block (b : Block) :
    (Node.block (m.block b)).parts = (Node.block b).parts.map m.part := by
  obtain ⟨ss, anchor⟩ := b
  simp [block, Node.parts]

@[simp] lemma parts_elseIf (c : ElseIf) :
    (Node.elseIf (m.elseIf c)).parts = (Node.elseIf c).parts.map m.part := by
  obtain ⟨keyword, cond, opener, b⟩ := c
  simp [elseIf, Node.parts]

@[simp] lemma parts_else (c : Else) :
    (Node.else_ (m.else_ c)).parts = (Node.else_ c).parts.map m.part := by
  obtain ⟨keyword, b⟩ := c
  simp [else_, Node.parts]

@[simp] lemma parts_ifStat (s : IfStat) : (m.ifStat s).parts = s.parts.map m.part := by
  obtain ⟨keyword, cond, opener, b, clauses, _ | last, close⟩ := s <;>
    simp [ifStat, IfStat.parts]

@[simp] lemma parts_numericFor (s : NumericFor) :
    (m.numericFor s).parts = s.parts.map m.part := by
  obtain ⟨keyword, var, eq, start, comma, limit, _ | last, opener, b, close⟩ := s <;>
    simp [numericFor, NumericFor.parts, Step.parts, step]

@[simp] lemma parts_genericFor (s : GenericFor) :
    (m.genericFor s).parts = s.parts.map m.part := by
  obtain ⟨keyword, names, in_, ⟨values, anchor⟩, opener, b, close⟩ := s
  simp [genericFor, GenericFor.parts]

@[simp] lemma parts_stat (s : Stat) : (m.stat s).parts = s.parts.map m.part := by
  cases s with
  | function _ _ method =>
    cases method <;> simp [stat, Stat.parts, MethodName.parts, Displacement.method]
  | local_ _ _ eq => cases eq <;> simp [stat, Stat.parts]
  | return_ _ _ semi => cases semi <;> simp [stat, Stat.parts]
  | invalid kept => cases kept <;> simp [stat, Stat.parts]
  | _ => simp [stat, Stat.parts]

@[simp] lemma parts_node (n : Node) : (m.node n).parts = n.parts.map m.part := by
  cases n with
  | block b => exact parts_block b
  | elseIf c => exact parts_elseIf c
  | else_ c => exact parts_else c
  | stat s => exact parts_stat s
  | funcBody f => exact parts_funcBody f
  | tableField f => exact parts_field f
  | table t => exact parts_table t
  | expr e => exact parts_expr e
  | identifier | literal | vararg => rfl

lemma tokens_node (n : Node) : (m.node n).tokens = n.tokens.map m.token := by
  induction n using Node.induction with
  | step n ih =>
    rw [Node.tokens_eq, Node.tokens_eq, parts_node, List.flatMap_map, List.map_flatMap]
    refine List.flatMap_congr fun p hp => ?_
    cases p with
    | token t => rfl
    | node k => exact ih k (Node.mem_children.2 hp)

lemma anchor_node (n : Node) : (m.node n).anchor = m.offset n.anchor := by
  cases n with
  | block b => cases b; rfl
  | stat s => cases s <;> first | rfl | exact m.zero.symm
  | expr e => cases e <;> first | rfl | exact m.zero.symm
  | _ => exact m.zero.symm

/-! ### Spans -/

lemma span_join (first last : Span) :
    m.span (.join first last) = .join (m.span first) (m.span last) := by
  simp [span, Span.join, m.monotone.map_max]

/-- **A displaced node spans what the node spanned.** -/
theorem span_node (n : Node) : (m.node n).span = m.span n.span := by
  induction n using Node.induction with
  | step n ih =>
    have hpart : ∀ p ∈ n.parts, (m.part p).span = m.span p.span := by
      intro p hp
      cases p with
      | token t => rfl
      | node k => exact ih k (Node.mem_children.2 hp)
    rw [Node.span_eq, Node.span_eq, parts_node, List.head?_map, List.getLast?_map, anchor_node]
    rcases hfirst : n.parts.head? with _ | first
    · rfl
    rcases hlast : n.parts.getLast? with _ | last
    · rfl
    have hf := hpart first (List.mem_of_head? hfirst)
    have hl := hpart last (List.mem_of_getLast? hlast)
    simp [hf, hl, span_join]

end Displacement

end LuaFront
