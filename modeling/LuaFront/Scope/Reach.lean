import LuaFront.Syntax.Extent

/-!
How far a construct reaches. A block that lacks the token that closes it is still being written:
what ends in such a block reaches beyond its last token, up to what comes next.
-/

namespace LuaFront

/-- The offset lies between two tokens, the second of which may be missing. -/
def inside (pos : Offset) (opening closing : Token) : Bool :=
  opening.span.stop ≤ pos && (closing.isMissing || pos ≤ closing.span.start)

namespace Node

/-- The token that closes the block of a node. -/
def blockClose? : Node → Option Token
  | stat (.do_ _ _ close) => some close
  | stat (.while_ _ _ _ _ close) => some close
  | stat (.repeat_ _ _ close _) => some close
  | stat (.if_ s) => some s.close
  | stat (.numericFor s) => some s.close
  | stat (.genericFor s) => some s.close
  | funcBody f => some f.close
  | _ => none

/-- The node ends in a block that is not closed. -/
def isUnclosed (n : Node) : Bool :=
  match n.blockClose? with
  | some close => close.isMissing
  | none =>
    match n.children.attach.getLast? with
    | some ⟨last, _⟩ => last.span.stop = n.span.stop && last.isUnclosed
    | none => false
termination_by sizeOf n
decreasing_by exact sizeOf_lt_of_mem_children ‹_›

/-- The node contains the offset, or is unclosed and the offset comes after it, but not after
`limit`. -/
def reaches (pos limit : Offset) (n : Node) : Bool :=
  n.span.contains pos || n.span.start ≤ pos && pos ≤ limit && n.isUnclosed

/-- The start of the first node. Nothing bounds what has no node after it. -/
def startOf : List Node → Offset
  | [] => unbounded
  | n :: _ => n.span.start

/-- The first node that reaches an offset; no node reaches past the start of the next. -/
def reaching? (pos : Offset) : List Node → Option Node
  | [] => none
  | n :: rest => if n.reaches pos (startOf rest) then some n else reaching? pos rest

/-- The nodes that end before an offset or at it, and the node after these, if it reaches the
offset. -/
def splitAt (pos : Offset) : List Node → List Node × Option Node
  | [] => ([], none)
  | n :: rest =>
    if n.reaches pos (startOf rest) then ([], some n)
    else if pos < n.span.stop then ([], none)
    else
      let (before, found) := splitAt pos rest
      (n :: before, found)

theorem mem_of_reaching? {pos : Offset} {ns : List Node} {m : Node}
    (h : reaching? pos ns = some m) : m ∈ ns := by
  induction ns with
  | nil => simp [reaching?] at h
  | cons n rest ih =>
    unfold reaching? at h
    split at h
    · simp_all
    · exact List.mem_cons_of_mem _ (ih h)

theorem mem_of_splitAt {pos : Offset} {ns : List Node} {m : Node}
    (h : (splitAt pos ns).2 = some m) : m ∈ ns := by
  induction ns with
  | nil => simp [splitAt] at h
  | cons n rest ih =>
    unfold splitAt at h
    split at h
    · simp_all
    · split at h
      · simp at h
      · exact List.mem_cons_of_mem _ (ih h)

end Node

end LuaFront
