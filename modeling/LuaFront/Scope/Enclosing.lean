import LuaFront.Scope.Binding
import LuaFront.Scope.Reach

/-!
The bindings whose scope contains an offset. On the way inwards to the offset each node adds those
that it makes visible there: a block the locals declared before the offset, a loop its variables,
a function its parameters. A name that recovery put in for a missing one is never visible.
-/

namespace LuaFront

namespace IfStat

/-- The branches, each with the token before its block. -/
def branches (s : IfStat) : List (Token × Node) :=
  (s.opener, .block s.block) :: s.elseIfs.map (fun c => (c.opener, .elseIf c))
    ++ s.else_.toList.map fun c => (c.keyword, .else_ c)

/-- The first condition that contains an offset, or else the last branch that has begun there. -/
def branch? (pos : Offset) (s : IfStat) : Option Node :=
  if (Node.ofExpr s.cond).span.contains pos then some (.ofExpr s.cond)
  else
    match s.elseIfs.find? fun c => (Node.ofExpr c.cond).span.contains pos with
    | some c => some (.elseIf c)
    | none => (s.branches.reverse.find? fun branch => inside pos branch.1 s.close).map (·.2)

end IfStat

namespace Node

/-- The bindings that a node itself makes visible at an offset. -/
def frame (pos : Offset) (n : Node) : List Binding :=
  match n with
  | block _ => (splitAt pos n.children).1.flatMap locals
  | stat (.numericFor s) => if inside pos s.opener s.close then n.declared else []
  | stat (.genericFor s) => if inside pos s.opener s.close then n.declared else []
  | stat (.function keyword _ method f) =>
    if inside pos f.closing f.close then method.toList.map (.self keyword) else []
  -- Its own body is in the scope of a local function.
  | stat (.localFunction ..) => n.declared
  | funcBody f => if inside pos f.closing f.close then n.declared else []
  | _ => []

/-- The child that reaches an offset. -/
def reaching (pos : Offset) (n : Node) : List Node := (reaching? pos n.children).toList

/-- The children in which further bindings may be visible at an offset. -/
def inward (pos : Offset) (n : Node) : List Node :=
  match n with
  | block _ => (splitAt pos n.children).2.toList
  | stat (.do_ keyword b close) => if inside pos keyword close then [block b] else n.reaching pos
  | stat (.while_ _ _ opener b close) =>
    if inside pos opener close then [block b] else n.reaching pos
  | stat (.repeat_ keyword b _ cond) =>
    -- The condition is in the scope of the block's locals.
    if keyword.span.stop ≤ pos then
      block b :: if (ofExpr cond).span.contains pos then [ofExpr cond] else []
    else n.reaching pos
  | stat (.if_ s) => (s.branch? pos).toList
  | elseIf c => [if (ofExpr c.cond).span.contains pos then ofExpr c.cond else block c.block]
  | else_ c => [block c.block]
  | stat (.numericFor s) =>
    if inside pos s.opener s.close then [block s.block] else n.reaching pos
  | stat (.genericFor s) =>
    if inside pos s.opener s.close then [block s.block] else n.reaching pos
  | stat (.function _ _ _ f) => [funcBody f]
  | stat (.localFunction _ _ _ f) => [funcBody f]
  | funcBody f => if inside pos f.closing f.close then [block f.block] else []
  | _ => n.reaching pos

theorem mem_children_of_mem_reaching {pos : Offset} {n m : Node} (h : m ∈ n.reaching pos) :
    m ∈ n.children := mem_of_reaching? (Option.mem_toList.1 h)

theorem mem_children_of_branch? {pos : Offset} {s : IfStat} {m : Node}
    (h : s.branch? pos = some m) : m ∈ (stat (.if_ s)).children := by
  rw [mem_children]
  simp only [parts, Stat.parts, IfStat.parts]
  unfold IfStat.branch? at h
  split at h
  · cases h
    simp
  · split at h
    · next c hc =>
      cases h
      have := List.mem_of_find?_eq_some hc
      simp [this]
    · obtain ⟨branch, hb, rfl⟩ := Option.map_eq_some_iff.1 h
      have := List.mem_of_find?_eq_some hb
      simp only [List.mem_reverse, IfStat.branches, List.cons_append, List.mem_cons,
        List.mem_append, List.mem_map] at this
      rcases this with rfl | ⟨c, hc, rfl⟩ | ⟨c, hc, rfl⟩
      · simp
      · simp [hc]
      · simp [Option.mem_toList.1 hc]

theorem mem_children_of_mem_inward {pos : Offset} {n m : Node} (h : m ∈ n.inward pos) :
    m ∈ n.children := by
  have hreaching := @mem_children_of_mem_reaching
  unfold inward at h
  split at h
  case h_1 => exact mem_of_splitAt (Option.mem_toList.1 h)
  case h_5 => exact mem_children_of_branch? (Option.mem_toList.1 h)
  all_goals try split at h
  all_goals try exact hreaching h
  all_goals rw [mem_children]
  all_goals simp [parts, Stat.parts, NumericFor.parts, GenericFor.parts, FuncBody.parts] at h ⊢
  all_goals grind

/-- The bindings whose scope contains an offset, those of one node in one frame. Outer frames come
first, and in a frame earlier bindings. -/
def frames (pos : Offset) (n : Node) : List (List Binding) :=
  (n.frame pos).filter (·.name ≠ "")
    :: (n.inward pos).attach.flatMap fun ⟨m, _⟩ => frames pos m
termination_by sizeOf n
decreasing_by exact sizeOf_lt_of_mem_children (mem_children_of_mem_inward ‹_›)

/-- The bindings of all frames. -/
def enclosing (pos : Offset) (n : Node) : List Binding := (n.frames pos).flatten

end Node

end LuaFront
