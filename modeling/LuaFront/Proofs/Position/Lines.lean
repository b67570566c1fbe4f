import LuaFront.Position.LineTable
import LuaFront.Proofs.Text.Cuts
import Mathlib.Data.List.Induction

/-!
The lines of a text. The number of a line is the number of line feeds before it; it begins after
the last of these and ends at the next one, or at the end of the text.
-/

namespace LuaFront

open Text

/-- A text cut around one of its lines, which is taken without the line feed that ends it. -/
structure Text.IsLine (cs : List Char) (number : Nat) (before line after : List Char) : Prop where
  split : cs = before ++ line ++ after
  number : before.count '\n' = number
  before : ∀ c ∈ before.getLast?, c = '\n'
  line : '\n' ∉ line
  after : ∀ c ∈ after.head?, c = '\n'

namespace Text

variable {cs front back : List Char}

/-- What stands in a text after its last line feed. -/
lemma exists_last_line (front : List Char) :
    ∃ before line, front = before ++ line ∧ (∀ c ∈ before.getLast?, c = '\n') ∧ '\n' ∉ line := by
  induction front using List.reverseRecOn with
  | nil => exact ⟨[], [], rfl, by simp, by simp⟩
  | append_singleton front c ih =>
    by_cases hc : c = '\n'
    · exact ⟨front ++ [c], [], by simp, by simp [hc], by simp⟩
    · obtain ⟨before, line, rfl, hbefore, hline⟩ := ih
      exact ⟨before, line ++ [c], by simp, hbefore, by simp [hline, Ne.symm hc]⟩

/-- What stands in a text before its first line feed. -/
lemma exists_first_line (back : List Char) :
    ∃ line after, back = line ++ after ∧ '\n' ∉ line ∧ ∀ c ∈ after.head?, c = '\n' := by
  induction back with
  | nil => exact ⟨[], [], rfl, by simp, by simp⟩
  | cons c back ih =>
    by_cases hc : c = '\n'
    · exact ⟨[], c :: back, rfl, by simp, by simp [hc]⟩
    · obtain ⟨line, after, rfl, hline, hafter⟩ := ih
      exact ⟨c :: line, after, rfl, by simp [hline, Ne.symm hc], hafter⟩

/-- The line on which a text is cut. -/
lemma exists_isLine (front back : List Char) :
    ∃ before part rest after, front = before ++ part ∧ back = rest ++ after
      ∧ IsLine (front ++ back) (front.count '\n') before (part ++ rest) after := by
  obtain ⟨before, part, rfl, hbefore, hpart⟩ := exists_last_line front
  obtain ⟨rest, after, rfl, hrest, hafter⟩ := exists_first_line back
  refine ⟨before, part, rest, after, rfl, rfl, by simp, ?_, hbefore, ?_, hafter⟩
  · rw [List.count_append, List.count_eq_zero.2 hpart, Nat.add_zero]
  · simp [hpart, hrest]

/-- A text can be cut after each of its line feeds. -/
lemma exists_count {number : Nat} (h : number ≤ cs.count '\n') :
    ∃ front back, cs = front ++ back ∧ front.count '\n' = number := by
  induction cs generalizing number with
  | nil => exact ⟨[], [], rfl, (Nat.le_zero.1 h).symm⟩
  | cons c cs ih =>
    rcases Nat.eq_zero_or_pos number with rfl | hpos
    · exact ⟨[], c :: cs, rfl, rfl⟩
    · rw [List.count_cons] at h
      obtain ⟨front, back, rfl, hcount⟩ :=
        @ih (number - if c == '\n' then 1 else 0) (by omega)
      refine ⟨c :: front, back, rfl, ?_⟩
      rw [List.count_cons, hcount]
      split <;> omega

end Text

namespace LineTable

variable {cs before line after : List Char} {number : Nat}

/-! ### Line feeds -/

lemma length_breaksFrom (offset : Offset) (cs : List Char) :
    (breaksFrom offset cs).length = cs.count '\n' := by
  induction cs generalizing offset with
  | nil => rfl
  | cons c cs ih =>
    rw [breaksFrom, List.count_cons]
    split <;> simp_all

lemma breaksFrom_bounds {offset b : Nat} (h : b ∈ breaksFrom offset cs) :
    offset ≤ b ∧ b < offset + byteSize cs := by
  induction cs generalizing offset with
  | nil => cases h
  | cons c cs ih =>
    have hpos := c.utf8Size_pos
    rw [breaksFrom] at h
    rw [byteSize]
    split at h
    · rcases List.mem_cons.1 h with rfl | h
      · omega
      · have := ih h
        omega
    · have := ih h
      omega

@[simp] lemma lineCount_ofSource (source : String) :
    (ofSource source).lineCount = source.toList.count '\n' + 1 := by
  rw [lineCount, ofSource, length_breaksFrom]

/-! ### The ends of a line -/

section Line

variable {source : String} (h : IsLine source.toList number before line after)
include h

lemma lineStart?_eq : (ofSource source).lineStart? number = some (byteSize before) := by
  rcases hlast : before.getLast? with _ | c
  · rw [List.getLast?_eq_none_iff] at hlast
    subst hlast
    rw [← h.number]
    rfl
  · obtain ⟨pre, rfl⟩ := List.getLast?_eq_some_iff.1 hlast
    obtain rfl : c = '\n' := h.before c hlast
    have hnumber : number = (breaksFrom 0 pre).length + 1 := by
      rw [length_breaksFrom, ← h.number]
      simp
    have hbreaks : (ofSource source).breaks
        = breaksFrom 0 pre ++ byteSize pre :: breaksFrom (byteSize pre + 1) (line ++ after) := by
      rw [ofSource, h.split, List.append_assoc, List.append_assoc, breaksFrom_append]
      simp [breaksFrom]
    have hfeed : '\n'.utf8Size = 1 := rfl
    rw [hnumber, lineStart?, hbreaks]
    simp [byteSize, hfeed]

lemma lineEnd?_eq : (ofSource source).lineEnd? number = some (byteSize (before ++ line)) := by
  have hnumber : number = (breaksFrom 0 (before ++ line)).length := by
    rw [length_breaksFrom, List.count_append, h.number, List.count_eq_zero.2 h.line, Nat.add_zero]
  have hle : number < (ofSource source).lineCount := by
    rw [lineCount_ofSource, h.split, List.count_append, ← length_breaksFrom 0, ← hnumber]
    omega
  have hbreaks : (ofSource source).breaks
      = breaksFrom 0 (before ++ line) ++ breaksFrom (byteSize (before ++ line)) after := by
    rw [ofSource, h.split, breaksFrom_append, Nat.zero_add]
  rw [lineEnd?, if_pos hle, hbreaks, hnumber, List.getElem?_append_right (Nat.le_refl _),
    Nat.sub_self]
  rcases after with _ | ⟨c, after⟩
  · simp [breaksFrom, ofSource, h.split]
  · obtain rfl : c = '\n' := h.after c (by simp)
    simp [breaksFrom]

end Line

lemma exists_line {source : String} (h : number < (ofSource source).lineCount) :
    ∃ before line after, IsLine source.toList number before line after := by
  rw [lineCount_ofSource] at h
  obtain ⟨front, back, hsource, rfl⟩ := exists_count (Nat.le_of_lt_succ h)
  obtain ⟨before, part, rest, after, -, -, hline⟩ := exists_isLine front back
  exact ⟨before, part ++ rest, after, hsource ▸ hline⟩

end LineTable

end LuaFront
