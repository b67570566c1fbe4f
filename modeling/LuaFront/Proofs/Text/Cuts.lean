import LuaFront.Text.Bytes
import Mathlib.Tactic.Lemma

/-!
Where a text can be cut. The boundaries of a text are the sizes of its fronts; any other offset in
it lies inside of one character.
-/

namespace LuaFront.Text

variable {cs front back : List Char} {c : Char} {offset : Nat}

/-! ### Sizes -/

@[simp] lemma unitSize_append (cs ds : List Char) :
    unitSize (cs ++ ds) = unitSize cs + unitSize ds := by
  induction cs with
  | nil => simp [unitSize]
  | cons c cs ih => simp only [List.cons_append, unitSize, ih, Nat.add_assoc]

lemma unitsOf_pos (c : Char) : 0 < unitsOf c := by
  unfold unitsOf
  split <;> decide

lemma byteSize_pos {cs : List Char} (h : cs ≠ []) : 0 < byteSize cs := by
  cases cs with
  | nil => exact absurd rfl h
  | cons c cs =>
    have := c.utf8Size_pos
    rw [byteSize]
    omega

lemma byteSize_eq_zero_iff : byteSize cs = 0 ↔ cs = [] := by
  refine ⟨fun h => ?_, fun h => by rw [h, byteSize]⟩
  cases cs with
  | nil => rfl
  | cons c cs =>
    have := byteSize_pos (List.cons_ne_nil c cs)
    omega

/-! ### Cuts -/

lemma splitAtByte?_eq_some_iff :
    splitAtByte? cs offset = some (front, back) ↔ cs = front ++ back ∧ byteSize front = offset := by
  constructor
  · intro h
    fun_induction splitAtByte? cs offset generalizing front with
    | case1 cs =>
      cases h
      exact ⟨rfl, rfl⟩
    | case2 => cases h
    | case3 n c cs hle ih =>
      obtain ⟨⟨inner, rest⟩, hinner, hpair⟩ := Option.map_eq_some_iff.1 h
      cases hpair
      obtain ⟨rfl, hsize⟩ := ih hinner
      exact ⟨rfl, by rw [byteSize, hsize]; omega⟩
    | case4 => cases h
  · rintro ⟨rfl, rfl⟩
    exact splitAtByte?_byteSize front back

lemma isBoundary_iff :
    isBoundary cs offset = true ↔ ∃ front back, cs = front ++ back ∧ byteSize front = offset := by
  rw [isBoundary, Option.isSome_iff_exists]
  constructor
  · rintro ⟨⟨front, back⟩, h⟩
    exact ⟨front, back, splitAtByte?_eq_some_iff.1 h⟩
  · rintro ⟨front, back, h⟩
    exact ⟨(front, back), splitAtByte?_eq_some_iff.2 h⟩

lemma isBoundary_byteSize (cs ds : List Char) : isBoundary (cs ++ ds) (byteSize cs) = true :=
  isBoundary_iff.2 ⟨cs, ds, rfl, rfl⟩

lemma slice?_eq (front mid back : List Char) :
    slice? (front ++ mid ++ back) (byteSize front) (byteSize (front ++ mid)) = some mid := by
  have hle : byteSize front ≤ byteSize (front ++ mid) := by simp
  have hguard : (guard (byteSize front ≤ byteSize (front ++ mid)) : Option Unit) = some () :=
    if_pos hle
  rw [slice?, hguard, List.append_assoc]
  simp [splitAtByte?_byteSize]

/-- Of two fronts of a text the smaller one is a front of the other. -/
lemma exists_mid {front' back' : List Char} (h : front ++ back = front' ++ back')
    (hle : byteSize front ≤ byteSize front') :
    ∃ mid, front' = front ++ mid ∧ back = mid ++ back' := by
  obtain ⟨mid, rfl, rfl⟩ | ⟨mid, rfl, rfl⟩ := List.append_eq_append_iff.1 h
  · exact ⟨mid, rfl, rfl⟩
  · rw [byteSize_append] at hle
    obtain rfl : mid = [] := byteSize_eq_zero_iff.1 (by omega)
    exact ⟨[], by simp, rfl⟩

lemma front_eq {front' back' : List Char} (h : front ++ back = front' ++ back')
    (hsize : byteSize front = byteSize front') : front = front' := by
  obtain ⟨mid, rfl, -⟩ := exists_mid h (Nat.le_of_eq hsize)
  rw [byteSize_append] at hsize
  rw [byteSize_eq_zero_iff.1 (by omega : byteSize mid = 0), List.append_nil]

/-! ### Inside of a character -/

/-- The offset is that of the character after a front of the text, or inside of it. -/
def In (front back : List Char) (offset : Nat) : Prop :=
  byteSize front = offset
    ∨ ∃ c rest, back = c :: rest ∧ byteSize front < offset ∧ offset < byteSize front + c.utf8Size

lemma not_isBoundary (h : byteSize front < offset) (h' : offset < byteSize front + c.utf8Size) :
    isBoundary (front ++ c :: back) offset = false := by
  rw [← Bool.not_eq_true, isBoundary_iff]
  rintro ⟨front', back', heq, rfl⟩
  obtain ⟨_ | ⟨d, mid⟩, rfl, hback⟩ := exists_mid heq (Nat.le_of_lt h)
  · simp at h
  · cases hback
    rw [byteSize_append, byteSize] at h'
    omega

/-- Every offset of a text is that of a character or inside of one, or the end. -/
lemma exists_in (h : offset ≤ byteSize cs) :
    ∃ front back, cs = front ++ back ∧ In front back offset := by
  induction cs generalizing offset with
  | nil => exact ⟨[], [], rfl, .inl (Nat.le_zero.1 h).symm⟩
  | cons c cs ih =>
    rw [byteSize] at h
    by_cases hc : offset < c.utf8Size
    · refine ⟨[], c :: cs, rfl, ?_⟩
      rcases Nat.eq_zero_or_pos offset with rfl | hpos
      · exact .inl rfl
      · exact .inr ⟨c, cs, rfl, hpos, by simpa [byteSize] using hc⟩
    · obtain ⟨front, back, rfl, hin⟩ := @ih (offset - c.utf8Size) (by omega)
      refine ⟨c :: front, back, rfl, ?_⟩
      rcases hin with hin | ⟨d, rest, hrest, hlo, hhi⟩
      · exact .inl (by rw [byteSize]; omega)
      · exact .inr ⟨d, rest, hrest, by rw [byteSize]; omega, by rw [byteSize]; omega⟩

end LuaFront.Text
