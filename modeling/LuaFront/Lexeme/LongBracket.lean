import LuaFront.Lexeme.Basic

/-!
Long brackets: two opening square brackets with some equals signs between them, and everything up
to the first two closing ones with as many between. Long strings and block comments are written
with them.
-/

namespace LuaFront.LongBracket

def opening (level : Nat) : List Char := '[' :: List.replicate level '=' ++ ['[']

def closing (level : Nat) : List Char := ']' :: List.replicate level '=' ++ [']']

/-- The level of the long bracket that opens at the front of a text: its number of equals
signs. -/
def level? : List Char → Option Nat
  | '[' :: cs =>
    match cs.dropWhile (· = '=') with
    | '[' :: _ => some (cs.takeWhile (· = '=')).length
    | _ => none
  | _ => none

/-- What a long bracket holds, its end included, and what comes after it. -/
structure Body where
  text : List Char
  rest : List Char
  closed : Bool

/-- Everything to the closing bracket of a level, or to the end of the text. A square bracket takes
the equals signs after it along; if these do not make up the closing bracket, what comes after them
can still begin it. -/
def body (level : Nat) : List Char → Body
  | [] => ⟨[], [], false⟩
  | c :: cs =>
    if c = ']' then
      let signs := cs.takeWhile (· = '=')
      let after := cs.dropWhile (· = '=')
      if signs.length = level && after.head? = some ']' then
        ⟨c :: signs ++ [']'], after.drop 1, true⟩
      else
        let inner := body level after
        { inner with text := c :: signs ++ inner.text }
    else
      let inner := body level cs
      { inner with text := c :: inner.text }
termination_by cs => cs.length
decreasing_by
  · exact Nat.lt_succ_of_le (List.dropWhile_suffix _).length_le
  · exact Nat.lt_succ_self _

/-- Takes a long bracket of a level off a text that begins with it. -/
def bracket (level : Nat) (cs : List Char) : Body :=
  let inner := body level (cs.drop (level + 2))
  { inner with text := cs.take (level + 2) ++ inner.text }

/-- Takes a long string off a text that begins with a square bracket and a second one or an
equals sign. -/
def scan (cs : List Char) : Lexeme :=
  match level? cs with
  | some level =>
    let whole := bracket level cs
    if whole.closed then .plain .string whole.text whole.rest
    else .malformed "unfinished long string" whole.text whole.rest
  | none =>
    let signs := (cs.drop 1).takeWhile (· = '=')
    .malformed "invalid long string delimiter" (cs.take 1 ++ signs)
      ((cs.drop 1).dropWhile (· = '='))

/-! ### A long bracket loses nothing -/

theorem body_append (level : Nat) (cs : List Char) :
    (body level cs).text ++ (body level cs).rest = cs := by
  fun_induction body level cs with
  | case1 => rfl
  | case2 cs signs after h =>
    have happend : signs ++ after = cs := List.takeWhile_append_dropWhile
    have hhead : after.head? = some ']' := of_decide_eq_true (Bool.and_eq_true_iff.1 h).2
    obtain ⟨rest, hrest⟩ := List.head?_eq_some_iff.1 hhead
    simp [← happend, hrest]
  | case3 cs signs after _ inner ih =>
    have happend : signs ++ after = cs := List.takeWhile_append_dropWhile
    simp [← happend, ih, inner]
  | case4 c cs _ inner ih => simp [ih, inner]

theorem bracket_append (level : Nat) (cs : List Char) :
    (bracket level cs).text ++ (bracket level cs).rest = cs := by
  simp [bracket, body_append]

theorem scan_append (cs : List Char) : (scan cs).text ++ (scan cs).rest = cs := by
  unfold scan
  split
  · dsimp only
    split <;> exact bracket_append _ _
  · cases cs <;> simp [Lexeme.malformed]

theorem scan_text_ne_nil (c : Char) (cs : List Char) : (scan (c :: cs)).text ≠ [] := by
  unfold scan
  split
  · dsimp only
    split <;> simp [Lexeme.plain, Lexeme.malformed, bracket]
  · simp [Lexeme.malformed]

/-! ### What opens a long bracket -/

/-- The signs between two brackets. -/
theorem takeWhile_signs {c : Char} (hc : c ≠ '=') (level : Nat) (cs : List Char) :
    (List.replicate level '=' ++ c :: cs).takeWhile (· = '=') = List.replicate level '='
      ∧ (List.replicate level '=' ++ c :: cs).dropWhile (· = '=') = c :: cs := by
  have hsigns : ∀ c ∈ List.replicate level '=', decide (c = '=') = true := by simp
  simp [List.takeWhile_append_of_pos hsigns, List.dropWhile_append_of_pos hsigns, hc]

theorem level?_opening (level : Nat) (cs : List Char) :
    level? (opening level ++ cs) = some level := by
  have htext : opening level ++ cs = '[' :: (List.replicate level '=' ++ '[' :: cs) := by
    simp [opening]
  obtain ⟨htake, hdrop⟩ := takeWhile_signs (by decide : '[' ≠ '=') level cs
  simp only [htext, level?, hdrop, htake, List.length_replicate]

theorem exists_opening {level : Nat} {cs : List Char} (h : level? cs = some level) :
    ∃ text, cs = opening level ++ text := by
  unfold level? at h
  split at h
  · next cs =>
    split at h
    · next text htext =>
      cases h
      have hsigns : cs.takeWhile (· = '=')
          = List.replicate (cs.takeWhile (· = '=')).length '=' :=
        List.eq_replicate_of_mem fun c hc =>
          of_decide_eq_true (List.all_eq_true.1 List.all_takeWhile c hc)
      refine ⟨text, ?_⟩
      rw [opening, ← hsigns, List.cons_append, List.cons_append, List.append_assoc,
        List.singleton_append, ← htext, List.takeWhile_append_dropWhile]
    · cases h
  · cases h

theorem level?_eq_none_iff {cs : List Char} :
    level? ('[' :: cs) = none ↔ (cs.dropWhile (· = '=')).head? ≠ some '[' := by
  rw [level?]
  split
  · next hdrop => simp [hdrop]
  · next hdrop =>
    refine iff_of_true rfl fun hhead => ?_
    obtain ⟨rest, hrest⟩ := List.head?_eq_some_iff.1 hhead
    exact hdrop rest hrest

/-- A long bracket is what opens it and what is taken after that. -/
theorem bracket_opening (level : Nat) (cs : List Char) :
    bracket level (opening level ++ cs)
      = { body level cs with text := opening level ++ (body level cs).text } := by
  have hlength : level + 2 = (opening level).length := by simp [opening]
  rw [bracket, hlength, List.drop_left, List.take_left]

theorem scan_opening (level : Nat) (cs : List Char) :
    scan (opening level ++ cs)
      = if (body level cs).closed
        then .plain .string (opening level ++ (body level cs).text) (body level cs).rest
        else .malformed "unfinished long string" (opening level ++ (body level cs).text)
          (body level cs).rest := by
  simp only [scan, level?_opening, bracket_opening]

end LuaFront.LongBracket
