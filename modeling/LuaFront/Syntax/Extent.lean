import LuaFront.Syntax.Node

/-!
Where a node stands. Its tokens are those of its parts, one part after the other; its span runs
from the start of its first part to the end of its last; its first token is that of its first
part. A node without parts stands at its anchor.
-/

namespace LuaFront

namespace Node

/-- The offset at which a node stands that has no parts. -/
def anchor : Node → Offset
  | block b => b.anchor
  | stat (.invalid _ _ anchor) => anchor
  | expr (.invalid _ _ anchor) => anchor
  | _ => 0

/-- The tokens that an invalid node holds raw. -/
def skipped : Node → List Token
  | stat (.invalid _ skipped _) => skipped
  | expr (.invalid _ skipped _) => skipped
  | _ => []

/-- What is given for the tokens and for the nodes among the parts of `n`. -/
def ofPart {α : Type} {n : Node} (token : Token → α)
    (node : (m : Node) → .node m ∈ n.parts → α) : {p : Part // p ∈ n.parts} → α
  | ⟨.token t, _⟩ => token t
  | ⟨.node m, h⟩ => node m h

/-- All tokens of a node, in the order of the text. -/
def tokens (n : Node) : List Token :=
  n.parts.attach.flatMap (ofPart (fun t => [t]) fun m _ => m.tokens)
termination_by sizeOf n
decreasing_by exact sizeOf_lt_of_mem_parts ‹_›

def span (n : Node) : Span :=
  match n.parts.attach.head?, n.parts.attach.getLast? with
  | some first, some last =>
    .join (ofPart Token.span (fun m _ => m.span) first)
      (ofPart Token.span (fun m _ => m.span) last)
  | _, _ => .empty n.anchor
termination_by sizeOf n
decreasing_by all_goals exact sizeOf_lt_of_mem_parts ‹_›

/-- The first token of the first part. Where recovery left that part without tokens there is
none, but an invalid node has the tokens that it skipped. -/
def firstToken? (n : Node) : Option Token :=
  match n.parts.attach.head? with
  | some first => (ofPart some (fun m _ => m.firstToken?) first).or n.skipped.head?
  | none => none
termination_by sizeOf n
decreasing_by exact sizeOf_lt_of_mem_parts ‹_›

/-- The trivia in front of a node are those of its first token. -/
def leadingTrivia (n : Node) : List Trivia :=
  match n.firstToken? with
  | some t => t.trivia
  | none => []

end Node

/-! ### The same, part by part -/

namespace Part

def tokens : Part → List Token
  | token t => [t]
  | node n => n.tokens

def span : Part → Span
  | token t => t.span
  | node n => n.span

def firstToken? : Part → Option Token
  | token t => some t
  | node n => n.firstToken?

end Part

namespace Node

theorem tokens_eq (n : Node) : n.tokens = n.parts.flatMap Part.tokens := by
  rw [tokens]
  conv => rhs; rw [← List.attach_map_subtype_val n.parts, List.flatMap_map]
  congr 1
  funext ⟨p, h⟩
  cases p <;> rfl

theorem span_eq (n : Node) :
    n.span = match n.parts.head?, n.parts.getLast? with
      | some first, some last => .join first.span last.span
      | _, _ => .empty n.anchor := by
  have hpart : ∀ p : {p : Part // p ∈ n.parts},
      ofPart Token.span (fun m _ => m.span) p = p.1.span := by
    rintro ⟨p, h⟩
    cases p <;> rfl
  rw [span]
  conv => rhs; rw [← List.attach_map_subtype_val n.parts]
  rw [List.head?_map, List.getLast?_map]
  cases n.parts.attach.head? <;> cases n.parts.attach.getLast? <;> simp [hpart]

theorem firstToken?_eq (n : Node) :
    n.firstToken? = n.parts.head?.bind fun first => first.firstToken?.or n.skipped.head? := by
  have hpart : ∀ p : {p : Part // p ∈ n.parts},
      ofPart some (fun m _ => m.firstToken?) p = p.1.firstToken? := by
    rintro ⟨p, h⟩
    cases p <;> rfl
  rw [firstToken?]
  conv => rhs; rw [← List.attach_map_subtype_val n.parts]
  rw [List.head?_map]
  cases n.parts.attach.head? <;> simp [hpart]

end Node

end LuaFront
