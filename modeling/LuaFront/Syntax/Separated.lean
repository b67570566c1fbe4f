import LuaFront.Token.Basic

/-!
Lists of items with a token between each two, and perhaps one after the last. An empty list keeps
the offset at which it would begin.
-/

namespace LuaFront

/-- An item and the delimiter after it. -/
structure Pair (α : Type) where
  item : α
  delimiter : Option Token

structure Separated (α : Type) where
  pairs : List (Pair α)
  anchor : Offset

namespace Separated

variable {α : Type}

def empty (anchor : Offset) : Separated α := ⟨[], anchor⟩

def items (l : Separated α) : List α := l.pairs.map (·.item)

def size (l : Separated α) : Nat := l.pairs.length

def isEmpty (l : Separated α) : Bool := l.pairs.isEmpty

def first? (l : Separated α) : Option α := l.pairs.head?.map (·.item)

def last? (l : Separated α) : Option α := l.pairs.getLast?.map (·.item)

/-- A delimiter stands after the last item. -/
def endsDelimited (l : Separated α) : Bool := l.pairs.getLast?.any (·.delimiter.isSome)

/-- The last item still lacks its delimiter. -/
def lacksDelimiter (l : Separated α) : Bool := l.pairs.getLast?.any (·.delimiter.isNone)

def push (l : Separated α) (item : α) : Separated α := { l with pairs := l.pairs ++ [⟨item, none⟩] }

/-- Puts a delimiter after the last item; a list that does not lack one stays as it is. -/
def delimit (l : Separated α) (delimiter : Token) : Separated α :=
  match l.pairs.getLast? with
  | some ⟨item, none⟩ => { l with pairs := l.pairs.dropLast ++ [⟨item, some delimiter⟩] }
  | _ => l

/-- From the first item to the last item or the delimiter after it. -/
def span (spanOf : α → Span) (l : Separated α) : Span :=
  match l.pairs.head?, l.pairs.getLast? with
  | some first, some last =>
    (spanOf first.item).through ((last.delimiter.map (·.span)).getD (spanOf last.item))
  | _, _ => .empty l.anchor

end Separated

end LuaFront
