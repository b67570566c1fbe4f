import LuaFront.Lexeme.Stream
import LuaFront.Proofs.Text.Encoded

/-!
The line feeds that the lexer writes down on its way through a text are all of those in the text.
They are the bytes of value ten: no other character has such a byte.
-/

namespace LuaFront

open Text

/-- The offsets of the bytes of a text that are line feeds. -/
def LineTable.feeds (source : String) : List Offset :=
  ((encode source.toList).zipIdx.filter (·.1 = 10)).map (·.2)

namespace LineTable

variable {offset : Offset} {cs : List Char}

lemma mem_encodeChar (c : Char) : 10 ∈ String.utf8EncodeChar c ↔ c = '\n' := by
  have hvalid := val_cases c
  have hc : c = '\n' ↔ c.val.toNat = 10 := by
    rw [Char.ext_iff, ← UInt32.toNat_inj]
    rfl
  have hbyte : ∀ n < 256, (10 : UInt8) = UInt8.ofNat n ↔ n = 10 := fun n hn =>
    (ofNat_eq_ofNat (m := 10) (by omega) hn).trans eq_comm
  rw [hc, String.utf8EncodeChar.eq_1]
  generalize c.val.toNat = v at hvalid
  split_ifs
  · simp only [List.mem_singleton]
    exact hbyte v (by omega)
  · simp only [List.mem_cons, List.not_mem_nil, or_false]
    rw [hbyte _ (by omega), hbyte _ (by omega)]
    omega
  · simp only [List.mem_cons, List.not_mem_nil, or_false]
    rw [hbyte _ (by omega), hbyte _ (by omega), hbyte _ (by omega)]
    omega
  · simp only [List.mem_cons, List.not_mem_nil, or_false]
    rw [hbyte _ (by omega), hbyte _ (by omega), hbyte _ (by omega), hbyte _ (by omega)]
    omega

/-- The characters that are line feeds are the bytes that are. -/
lemma breaksFrom_eq_feeds (offset : Offset) (cs : List Char) :
    breaksFrom offset cs = (((encode cs).zipIdx offset).filter (·.1 = 10)).map (·.2) := by
  induction cs generalizing offset with
  | nil => rfl
  | cons c cs ih =>
    have hbytes : encode (c :: cs) = String.utf8EncodeChar c ++ encode cs := List.flatMap_cons
    rw [hbytes, List.zipIdx_append, List.filter_append, List.map_append, breaksFrom,
      String.length_utf8EncodeChar, ← ih]
    split_ifs with hc
    · subst hc
      rfl
    · have hnone : ((String.utf8EncodeChar c).zipIdx offset).filter (·.1 = 10) = [] := by
        refine List.filter_eq_nil_iff.2 fun x hx hten => hc ((mem_encodeChar c).1 ?_)
        have := List.fst_mem_of_mem_zipIdx hx
        rwa [of_decide_eq_true hten] at this
      rw [hnone]
      rfl

lemma le_of_mem_breaksFrom : ∀ b ∈ breaksFrom offset cs, offset ≤ b := by
  induction cs generalizing offset with
  | nil => simp [breaksFrom]
  | cons c cs ih =>
    intro b hb
    rw [breaksFrom] at hb
    split_ifs at hb
    · rcases List.mem_cons.1 hb with rfl | hb
      · exact Nat.le_refl b
      · exact Nat.le_of_lt (ih b hb)
    · exact Nat.le_trans (Nat.le_add_right _ _) (ih b hb)

lemma breaksFrom_pairwise (offset : Offset) (cs : List Char) :
    (breaksFrom offset cs).Pairwise (· < ·) := by
  induction cs generalizing offset with
  | nil => exact .nil
  | cons c cs ih =>
    rw [breaksFrom]
    split_ifs
    · exact .cons (fun b hb => le_of_mem_breaksFrom b hb) (ih _)
    · exact ih _

end LineTable

namespace Lexed

lemma lines_eq (source : String) : (ofSource source).lines = LineTable.ofSource source := by
  have hbreaks : (Reader.run ⟨source.toList, 0, []⟩).breaks.reverse
      = LineTable.breaksFrom 0 source.toList := by
    rw [Reader.run_eq, Reader.past, List.append_nil, List.reverse_reverse]
  rw [ofSource, hbreaks]
  rfl

/-- **The lexer writes down every line feed once, and in order.** -/
theorem lines_recorded (source : String) :
    (ofSource source).lines = LineTable.ofSource source
      ∧ (ofSource source).lines.breaks = LineTable.feeds source
      ∧ (ofSource source).lines.breaks.Pairwise (· < ·) := by
  rw [lines_eq]
  exact ⟨rfl, LineTable.breaksFrom_eq_feeds 0 _, LineTable.breaksFrom_pairwise 0 _⟩

end Lexed

end LuaFront
