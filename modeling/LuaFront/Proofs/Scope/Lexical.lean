import LuaFront.Editor.Occurrence
import LuaFront.Proofs.Tree.Marks

/-!
Lexical scoping, as a traversal of the tree that takes the visible bindings along and asks for no
offset. It gives every name of a variable in the tree, with what the name refers to.
-/

namespace LuaFront

/-- The bindings visible somewhere, the innermost and latest ones first. -/
abbrev Env := List Binding

/-- What stands at a node for the traversal. -/
inductive Piece where
  /-- A name that is declared here. -/
  | declares (b : Binding)
  /-- A name that names no variable. -/
  | label (id : Identifier)
  /-- A smaller node, and the bindings visible in it. -/
  | inner (env : Env) (n : Node)

def Piece.node : Piece → Node
  | declares b => .identifier b.id
  | label id => .identifier id
  | inner _ n => n

/-- What is visible after a statement. -/
def Stat.after (env : Env) : Stat → Env
  | local_ keyword names _ _ => (names.items.map (.named .local_ keyword)).reverse ++ env
  | localFunction keyword _ name _ => .named .localFunction keyword name :: env
  | _ => env

/-- What is visible at the end of a block. -/
def Block.atEnd (env : Env) (b : Block) : Env := b.stats.foldl Stat.after env

namespace Piece

/-- Each statement sees what those before it declare. -/
def ofStats (env : Env) : List Stat → List Piece
  | [] => []
  | s :: rest => .inner env (.stat s) :: ofStats (s.after env) rest

def ofParam (env : Env) : Param → Piece
  | .name id => .declares (.named .parameter id.token id)
  | .vararg dots => .inner env (.vararg dots)

end Piece

namespace Node

/-- What stands at a node where an environment is visible. -/
def pieces (env : Env) : Node → List Piece
  | block b => Piece.ofStats env b.stats
  | stat (.local_ keyword names _ values) =>
    names.items.map (fun id => .declares (.named .local_ keyword id))
      ++ values.items.map fun e => .inner env (.ofExpr e)
  | stat (.localFunction keyword _ name f) =>
    let b := .named .localFunction keyword name
    [.declares b, .inner (b :: env) (.funcBody f)]
  | stat (.function keyword name method f) =>
    -- A method has a parameter that is not written out.
    let self := method.toList.map (.self keyword)
    .inner env (.ofExpr name) :: method.toList.map (fun m => .label m.name)
      ++ [.inner (self ++ env) (.funcBody f)]
  | stat (.numericFor s) =>
    let b := .named .loopVariable s.keyword s.var
    [.declares b, .inner env (.ofExpr s.start), .inner env (.ofExpr s.limit)]
      ++ s.step.toList.map (fun step => .inner env (.ofExpr step.value))
      ++ [.inner (b :: env) (.block s.block)]
  | stat (.genericFor s) =>
    let bs := s.names.items.map (.named .loopVariable s.keyword)
    bs.map .declares ++ s.exprs.items.map (fun e => .inner env (.ofExpr e))
      ++ [.inner (bs.reverse ++ env) (.block s.block)]
  | stat (.repeat_ _ b _ cond) => [.inner env (.block b), .inner (b.atEnd env) (.ofExpr cond)]
  | stat (.goto_ _ name) => [.label name]
  | stat (.label _ name _) => [.label name]
  | funcBody f =>
    f.params.items.map (.ofParam env) ++ [.inner (f.declared.reverse ++ env) (.block f.block)]
  | tableField (.named name _ value) => [.label name, .inner env (.ofExpr value)]
  | expr (.field base _ name) => [.inner env (.ofExpr base), .label name]
  | expr (.methodCall receiver _ name args) =>
    .inner env (.ofExpr receiver) :: .label name
      :: (args.parts.filterMap Part.node?).map (.inner env)
  | n => n.children.map (.inner env)

end Node

/-! ### The pieces of a node are its children -/

@[simp] lemma Part.nodes_token (t : Token) (ps : List Part) :
    (token t :: ps).filterMap node? = ps.filterMap node? := rfl

@[simp] lemma Part.nodes_node (n : Node) (ps : List Part) :
    (node n :: ps).filterMap node? = n :: ps.filterMap node? := rfl

@[simp] lemma Separated.nodes_parts {α : Type} (node : α → Node) (l : Separated α) :
    (l.parts node).filterMap Part.node? = l.items.map node := by
  rw [parts, items, List.filterMap_flatMap]
  induction l.pairs with
  | nil => rfl
  | cons pair pairs ih =>
    rw [List.flatMap_cons, ih]
    simp [Part.node?]

lemma Part.mem_nodes {m : Node} {ps : List Part} : m ∈ ps.filterMap node? ↔ .node m ∈ ps := by
  refine ⟨fun h => ?_, fun h => List.mem_filterMap.2 ⟨_, h, rfl⟩⟩
  obtain ⟨p, hp, hm⟩ := List.mem_filterMap.1 h
  cases p <;> cases hm
  exact hp

@[simp] lemma Separated.node_mem_parts {α : Type} {node : α → Node} {l : Separated α} {m : Node} :
    .node m ∈ l.parts node ↔ ∃ a ∈ l.items, node a = m := by
  rw [← Part.mem_nodes, nodes_parts, List.mem_map]

lemma Piece.ofStats_nodes (env : Env) (stats : List Stat) :
    (ofStats env stats).map node = stats.map .stat := by
  induction stats generalizing env with
  | nil => rfl
  | cons s rest ih => simp [ofStats, node, ih]

lemma Piece.exists_of_mem_ofStats {env : Env} {stats : List Stat} {piece : Piece}
    (h : piece ∈ ofStats env stats) :
    ∃ before s after, stats = before ++ s :: after
      ∧ piece = .inner (before.foldl Stat.after env) (.stat s) := by
  induction stats generalizing env with
  | nil => cases h
  | cons s rest ih =>
    rcases List.mem_cons.1 h with rfl | h
    · exact ⟨[], s, rest, rfl, rfl⟩
    · obtain ⟨before, s', after, rfl, rfl⟩ := ih h
      exact ⟨s :: before, s', after, rfl, rfl⟩

lemma Piece.ofParam_node (env : Env) : node ∘ ofParam env = Node.ofParam := by
  funext p
  cases p <;> rfl

lemma Node.pieces_nodes (env : Env) (n : Node) : (n.pieces env).map Piece.node = n.children := by
  unfold pieces
  split
  case h_1 b =>
    rw [Piece.ofStats_nodes]
    simp [children, parts, Part.node?, Function.comp_def]
  case h_4 keyword name method f =>
    cases method <;> simp [children, parts, Stat.parts, MethodName.parts, Piece.node]
  case h_5 s =>
    cases hstep : s.step <;>
      simp [children, parts, Stat.parts, NumericFor.parts, Step.parts, hstep, Piece.node,
        Binding.named]
  case h_10 f =>
    simp [children, parts, FuncBody.parts, Piece.ofParam_node, Piece.node]
  all_goals
    simp [children, parts, Stat.parts, GenericFor.parts, Expr.parts, TableField.parts, Part.node?,
      Piece.node, Function.comp_def, Binding.named]

namespace Node

variable {env env' : Env} {n m : Node}

lemma mem_children_of_inner (h : .inner env' m ∈ n.pieces env) : m ∈ n.children := by
  rw [← pieces_nodes env n]
  exact List.mem_map_of_mem (f := Piece.node) h

/-- The names of variables in a tree, with what each refers to where an environment is visible. A
name without a binding is global. -/
def uses (env : Env) : Node → List (Identifier × Option Binding)
  | identifier id => [(id, env.find? (·.name = id.name))]
  | n => (n.pieces env).attach.flatMap fun
    | ⟨.declares b, _⟩ => [(b.id, some b)]
    | ⟨.label _, _⟩ => []
    | ⟨.inner env m, _⟩ => m.uses env
termination_by n => sizeOf n
decreasing_by exact sizeOf_lt_of_mem_children (mem_children_of_inner ‹_›)

end Node

/-- The names of variables in a piece. -/
def Piece.uses : Piece → List (Identifier × Option Binding)
  | declares b => [(b.id, some b)]
  | label _ => []
  | inner env n => n.uses env

namespace Node

variable {env env' : Env} {n m : Node} {id : Identifier} {d : Option Binding}

@[simp] lemma uses_identifier :
    (identifier id).uses env = [(id, env.find? (·.name = id.name))] := by
  rw [uses]

lemma uses_eq (h : n.identifier? = none) : n.uses env = (n.pieces env).flatMap Piece.uses := by
  rw [uses]
  · conv => rhs; rw [← List.attach_map_subtype_val (n.pieces env), List.flatMap_map]
    congr 1
    funext ⟨piece, hpiece⟩
    cases piece <;> rfl
  · rintro id rfl
    cases h

/-! ### What the traversal meets -/

lemma pieces_cases (env : Env) (h : m ∈ n.children) :
    (∃ env', .inner env' m ∈ n.pieces env) ∨ (∃ b, .declares b ∈ n.pieces env ∧ m = identifier b.id)
      ∨ ∃ id, .label id ∈ n.pieces env ∧ m = identifier id := by
  rw [← pieces_nodes env n] at h
  obtain ⟨piece, hpiece, rfl⟩ := List.mem_map.1 h
  cases piece with
  | declares b => exact .inr (.inl ⟨b, hpiece, rfl⟩)
  | label id => exact .inr (.inr ⟨id, hpiece, rfl⟩)
  | inner env' m => exact .inl ⟨env', hpiece⟩

/-- What a node declares is what the traversal meets as declared there. -/
lemma declares_mem_iff {b : Binding} : .declares b ∈ n.pieces env ↔ b ∈ n.declared := by
  unfold pieces
  split
  case h_1 block =>
    refine iff_of_false (fun h => ?_) List.not_mem_nil
    obtain ⟨before, s, after, -, h⟩ := Piece.exists_of_mem_ofStats h
    cases h
  case h_10 f =>
    simp only [declared, FuncBody.declared, List.mem_append, List.mem_map, List.mem_filterMap,
      List.mem_singleton, reduceCtorEq, or_false]
    refine exists_congr fun p => and_congr_right fun _ => ?_
    cases p <;> simp [Piece.ofParam, Param.declared?]
  case h_14 =>
    refine iff_of_false (by simp) ?_
    unfold declared Stat.declared
    split <;> simp_all
  all_goals simp [declared, Stat.declared]

lemma label_mem_iff : .label id ∈ n.pieces env ↔ id ∈ n.labels := by
  unfold pieces
  split
  case h_1 block =>
    refine iff_of_false (fun h => ?_) List.not_mem_nil
    obtain ⟨before, s, after, -, h⟩ := Piece.exists_of_mem_ofStats h
    cases h
  case h_4 keyword name method f =>
    cases method <;> simp [labels, eq_comm]
  case h_10 f =>
    simp only [labels, List.mem_append, List.mem_map, List.mem_singleton, reduceCtorEq, or_false,
      List.not_mem_nil, iff_false, not_exists, not_and]
    intro p _
    cases p <;> simp [Piece.ofParam]
  case h_14 =>
    refine iff_of_false (by simp) ?_
    unfold labels
    split <;> grind
  all_goals simp [labels]

lemma preorder_identifier : (identifier id).preorder = [identifier id] := by
  rw [preorder_eq]
  rfl

lemma identifier_eq_of_identifier? (h : n.identifier? = some id) : n = identifier id := by
  cases n <;> cases h
  rfl

/-- A name that is declared refers to its declaration. -/
lemma declared_mem_uses {b : Binding} (h : b ∈ n.preorder.flatMap declared) :
    (b.id, some b) ∈ n.uses env := by
  obtain ⟨k, hk, hb⟩ := List.mem_flatMap.1 h
  clear h
  induction n using Node.induction generalizing env with
  | step n ih =>
    rcases hid : n.identifier? with _ | id
    · rw [uses_eq hid, List.mem_flatMap]
      rcases mem_preorder_cases hk with rfl | ⟨m, hm, hk⟩
      · exact ⟨.declares b, declares_mem_iff.2 hb, List.mem_singleton_self _⟩
      · rcases pieces_cases env hm with ⟨env', hinner⟩ | ⟨b', -, rfl⟩ | ⟨id, -, rfl⟩
        · exact ⟨.inner env' m, hinner, ih m hm hk⟩
        -- A name itself declares nothing.
        all_goals
          rw [preorder_identifier, List.mem_singleton] at hk
          rw [hk] at hb
          cases hb
    · rw [identifier_eq_of_identifier? hid, preorder_identifier, List.mem_singleton] at hk
      rw [hk] at hb
      cases hb

/-- The traversal meets every name that is no label. -/
lemma exists_mem_uses (h : identifier id ∈ n.preorder) (hlabel : id ∉ n.preorder.flatMap labels) :
    ∃ d, (id, d) ∈ n.uses env := by
  induction n using Node.induction generalizing env with
  | step n ih =>
    rcases hid : n.identifier? with _ | id'
    · simp only [uses_eq hid, List.mem_flatMap]
      rw [preorder_eq, List.flatMap_cons, List.mem_append, not_or] at hlabel
      obtain ⟨hown, hbelow⟩ := hlabel
      rcases mem_preorder_cases h with rfl | ⟨m, hm, hmem⟩
      · cases hid
      · rcases pieces_cases env hm with ⟨env', hinner⟩ | ⟨b, hb, rfl⟩ | ⟨id', hid', rfl⟩
        · have hm' : id ∉ m.preorder.flatMap labels := by
            intro hid
            obtain ⟨k, hk, hid⟩ := List.mem_flatMap.1 hid
            exact hbelow (List.mem_flatMap.2 ⟨k, List.mem_flatMap.2 ⟨m, hm, hk⟩, hid⟩)
          obtain ⟨d, hd⟩ : ∃ d, (id, d) ∈ m.uses env' := ih m hm hmem hm'
          exact ⟨d, .inner env' m, hinner, hd⟩
        · rw [preorder_identifier, List.mem_singleton] at hmem
          cases hmem
          exact ⟨some b, .declares b, hb, List.mem_singleton_self _⟩
        · rw [preorder_identifier, List.mem_singleton] at hmem
          cases hmem
          exact absurd (label_mem_iff.1 hid') hown
    · rw [identifier_eq_of_identifier? hid, preorder_identifier, List.mem_singleton] at h
      cases h
      rw [identifier_eq_of_identifier? hid, uses_identifier]
      exact ⟨_, List.mem_singleton_self _⟩

/-! ### The order of the names -/

/-- The traversal meets the names in the order of the text, each once. -/
lemma uses_sublist (env : Env) (n : Node) :
    ((n.uses env).map fun use => use.1.token).Sublist n.tokens := by
  induction n using Node.induction generalizing env with
  | step n ih =>
    rcases hid : n.identifier? with _ | id
    · rw [uses_eq hid, List.map_flatMap]
      refine List.Sublist.trans ?_ n.tokens_children_sublist
      rw [← pieces_nodes env n, List.flatMap_map]
      refine List.Sublist.flatMap_right _ fun piece hpiece => ?_
      cases piece with
      | declares b => simp [Piece.uses, Piece.node, tokens_eq, parts, Part.tokens]
      | label id => exact List.nil_sublist _
      | inner env' m => exact ih m (mem_children_of_inner hpiece) env'
    · rw [identifier_eq_of_identifier? hid]
      simp [tokens_eq, parts, Part.tokens]

/-- The names of a tree stand in the order of the text, each once. -/
lemma identifiers_sublist (n : Node) :
    ((n.preorder.filterMap identifier?).map (·.token)).Sublist n.tokens := by
  rw [List.map_filterMap]
  refine found_sublist (fun m t ht => ?_) n
  cases m <;> simp [identifier?] at ht
  simp [parts, ht]

end Node

end LuaFront
