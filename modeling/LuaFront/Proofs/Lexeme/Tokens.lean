import LuaFront.Proofs.Lexeme.Reports
import LuaFront.Proofs.Tree.Layout

/-!
The tokens of a text. They follow each other from its start to its end; each has characters, but
for the one that stands for the end, and no invalid one goes unreported.
-/

namespace LuaFront

namespace Lexeme

/-- A lexeme is no end of input, and if it is invalid there is an error about it. -/
structure Reported (l : Lexeme) : Prop where
  kind : l.kind ≠ .eof
  error : l.kind = .invalid → ∃ d ∈ l.diagnostics, d.severity = .error

lemma quoted_reported (quote : Char) (cs : List Char) : (Quoted.scan quote cs).Reported := by
  unfold Quoted.scan
  dsimp only
  split
  · exact ⟨by simp, by simp⟩
  · exact ⟨by simp, fun _ => ⟨_, List.mem_append_right _ (List.mem_singleton.2 rfl), rfl⟩⟩

lemma ofChars_reported (c : Char) (cs : List Char) : (ofChars c cs).Reported := by
  rcases ofChars_cases c cs with ⟨-, heq⟩ | ⟨hkind, heof, -⟩ | ⟨hkind, message, hone⟩
  · rw [heq]
    exact quoted_reported c _
  · exact ⟨heof, fun h => absurd h hkind⟩
  · exact ⟨by simp [hkind], fun _ => ⟨_, hone ▸ List.mem_singleton.2 rfl, rfl⟩⟩

end Lexeme

/-- A gap takes up what is between its start and its rest. -/
lemma Gap.ofChars_stop (offset : Offset) (cs : List Char) :
    (Gap.ofChars offset cs).stop + Text.byteSize (Gap.ofChars offset cs).rest
      = offset + Text.byteSize cs := by
  fun_induction Gap.ofChars offset cs with
  | case1 => rfl
  | case2 offset cs piece h stop inner ih =>
    have hsize := congrArg Text.byteSize (Gap.piece?_append h)
    simp only [Text.byteSize_append] at hsize
    simp only [inner, stop] at ih ⊢
    rw [ih, Nat.add_assoc, hsize]

lemma Gap.le_ofChars_stop (offset : Offset) (cs : List Char) :
    offset ≤ (Gap.ofChars offset cs).stop := by
  fun_induction Gap.ofChars offset cs with
  | case1 => exact Nat.le_refl _
  | case2 offset cs piece h stop inner ih => exact Nat.le_trans (Nat.le_add_right _ _) ih

namespace Scanned

/-- A token that has characters. -/
structure Read (x : Scanned) : Prop where
  kind : x.token.kind ≠ .eof
  text : x.token.text ≠ ""
  width : x.token.span.start < x.token.span.stop
  error : x.token.kind = .invalid → ∃ d ∈ x.diagnostics, d.severity = .error

/-- **The tokens of a text follow each other**, and the last one stands at its end. -/
theorem ofChars_laid (offset : Offset) (cs : List Char) :
    ∃ read last stop, ofChars offset cs = read ++ [last] ∧ (∀ x ∈ read, x.Read)
      ∧ Laid offset (read.map fun x => .token x.token) stop ∧ stop ≤ offset + Text.byteSize cs
      ∧ last.token.kind = .eof ∧ last.token.text = ""
      ∧ last.token.span = .empty (offset + Text.byteSize cs) := by
  fun_induction ofChars offset cs with
  | case1 offset cs gap hrest =>
    have hstop := Gap.ofChars_stop offset cs
    rw [hrest, Text.byteSize, Nat.add_zero] at hstop
    refine ⟨[], _, offset, rfl, by simp, rfl, Nat.le_add_right _ _, rfl, rfl, ?_⟩
    rw [← hstop]
  | case2 offset cs gap c rest hrest _ _ lexeme stop token ih =>
    obtain ⟨read, last, stop', heq, hread, hlaid, hle, heof, htext, hspan⟩ := ih
    have hreported := Lexeme.ofChars_reported c rest
    have hne := Lexeme.ofChars_text_ne_nil c rest
    have hwidth : gap.stop < stop := Nat.lt_add_of_pos_right (Text.byteSize_pos hne)
    have hsize : stop + Text.byteSize lexeme.rest = offset + Text.byteSize cs := by
      have happend := congrArg Text.byteSize (Lexeme.ofChars_append c rest)
      rw [Text.byteSize_append] at happend
      rw [← Gap.ofChars_stop offset cs, hrest, ← happend, ← Nat.add_assoc]
    rw [hsize] at hle hspan
    refine ⟨_ :: read, last, stop', by rw [heq]; rfl, ?_, ?_, hle, heof, htext, hspan⟩
    · refine List.forall_mem_cons.2 ⟨⟨hreported.kind, ?_, hwidth, fun hkind => ?_⟩, hread⟩
      · simpa [token] using hne
      · obtain ⟨d, hd, herror⟩ := hreported.error hkind
        exact ⟨_, List.mem_append_right _ (List.mem_map_of_mem hd), herror⟩
    · exact ⟨Gap.le_ofChars_stop offset cs, Nat.le_of_lt hwidth, hlaid⟩

end Scanned

end LuaFront
