/-!
Texts as lists of characters, measured in bytes of UTF-8. An offset is a boundary when it falls
between two characters, or at either end; only at boundaries can a text be cut.
-/

namespace LuaFront.Text

/-- The bytes that the characters take. -/
def byteSize : List Char → Nat
  | [] => 0
  | c :: cs => c.utf8Size + byteSize cs

/-- The UTF-16 code units of a character: two outside the basic plane. -/
def unitsOf (c : Char) : Nat := if c.toNat < 0x10000 then 1 else 2

/-- The UTF-16 code units that the characters take. -/
def unitSize : List Char → Nat
  | [] => 0
  | c :: cs => unitsOf c + unitSize cs

/-- Cuts a text in two at a byte offset, if that is a boundary. -/
def splitAtByte? : List Char → Nat → Option (List Char × List Char)
  | cs, 0 => some ([], cs)
  | [], _ + 1 => none
  | c :: cs, n + 1 =>
    if c.utf8Size ≤ n + 1 then
      (splitAtByte? cs (n + 1 - c.utf8Size)).map fun (front, back) => (c :: front, back)
    else none

/-- An offset at which the text can be cut. -/
def isBoundary (cs : List Char) (offset : Nat) : Bool := (splitAtByte? cs offset).isSome

/-- The characters between two byte offsets, if both are boundaries in this order. -/
def slice? (cs : List Char) (start stop : Nat) : Option (List Char) := do
  guard (start ≤ stop)
  let (_, back) ← splitAtByte? cs start
  let (front, _) ← splitAtByte? back (stop - start)
  return front

/-! ### Sizes and cuts -/

@[simp] theorem byteSize_append (cs ds : List Char) :
    byteSize (cs ++ ds) = byteSize cs + byteSize ds := by
  induction cs with
  | nil => simp [byteSize]
  | cons c cs ih => simp only [List.cons_append, byteSize, ih]; omega

theorem splitAtByte?_byteSize (cs ds : List Char) :
    splitAtByte? (cs ++ ds) (byteSize cs) = some (cs, ds) := by
  induction cs with
  | nil => cases ds <;> simp [byteSize, splitAtByte?]
  | cons c cs ih =>
    have := c.utf8Size_pos
    obtain ⟨n, hn⟩ : ∃ n, byteSize (c :: cs) = n + 1 := ⟨c.utf8Size + byteSize cs - 1, by
      simp only [byteSize]; omega⟩
    have hle : c.utf8Size ≤ n + 1 := by rw [← hn]; simp [byteSize]
    have hsub : n + 1 - c.utf8Size = byteSize cs := by rw [← hn]; simp [byteSize]
    simp [hn, splitAtByte?, hle, hsub, ih]

end LuaFront.Text
