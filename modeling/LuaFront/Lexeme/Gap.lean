import LuaFront.Lexeme.LongBracket
import LuaFront.Text.Blank
import LuaFront.Token.Basic

/-!
The gap in front of a token: a sequence of blanks and comments, which may be empty.
-/

namespace LuaFront.Gap

/-- One run of blanks or one comment, and the characters after it. -/
structure Piece where
  kind : TriviaKind
  text : List Char
  rest : List Char
  diagnostics : List Diagnostic

/-- Takes a comment off a text, given what comes after its two dashes. -/
def comment (cs : List Char) : Piece :=
  match LongBracket.level? cs with
  | some level =>
    let whole := LongBracket.bracket level cs
    let text := '-' :: '-' :: whole.text
    let diagnostics :=
      if whole.closed then [] else [.error (Lexeme.spanOf text) "unfinished long comment" []]
    { kind := .blockComment, text, rest := whole.rest, diagnostics }
  | none =>
    { kind := .lineComment
      text := '-' :: '-' :: cs.takeWhile (· ≠ '\n')
      rest := cs.dropWhile (· ≠ '\n')
      diagnostics := [] }

/-- The piece at the front of a text. -/
def piece? : List Char → Option Piece
  | [] => none
  | c :: cs =>
    if Text.isSpace c then
      some ⟨.whitespace, c :: cs.takeWhile Text.isSpace, cs.dropWhile Text.isSpace, []⟩
    else
      match c, cs with
      | '-', '-' :: cs => some (comment cs)
      | _, _ => none

theorem piece?_append {cs : List Char} {p : Piece} (h : piece? cs = some p) :
    p.text ++ p.rest = cs := by
  unfold piece? at h
  split at h
  · cases h
  · split at h
    · cases h; simp
    · split at h
      · cases h
        unfold comment
        split <;> simp [LongBracket.bracket_append]
      · cases h

theorem piece?_text_ne_nil {cs : List Char} {p : Piece} (h : piece? cs = some p) :
    p.text ≠ [] := by
  unfold piece? at h
  split at h
  · cases h
  · split at h
    · cases h; simp
    · split at h
      · cases h
        unfold comment
        split <;> simp
      · cases h

theorem piece?_rest_length_lt {cs : List Char} {p : Piece} (h : piece? cs = some p) :
    p.rest.length < cs.length := by
  have hne := List.length_pos_iff.2 (piece?_text_ne_nil h)
  have := congrArg List.length (piece?_append h)
  simp only [List.length_append] at this
  omega

end LuaFront.Gap

namespace LuaFront

/-- The trivia of a gap, the offset and the characters at its end, and the diagnostics about
it. -/
structure Gap where
  trivia : List Trivia
  stop : Offset
  rest : List Char
  diagnostics : List Diagnostic

/-- Takes the longest gap off a text that begins at an offset. -/
def Gap.ofChars (offset : Offset) (cs : List Char) : Gap :=
  match _h : Gap.piece? cs with
  | none => { trivia := [], stop := offset, rest := cs, diagnostics := [] }
  | some piece =>
    let stop := offset + Text.byteSize piece.text
    let inner := Gap.ofChars stop piece.rest
    { inner with
      trivia := ⟨piece.kind, String.ofList piece.text, ⟨offset, stop⟩⟩ :: inner.trivia
      diagnostics := piece.diagnostics.map (·.shift offset) ++ inner.diagnostics }
termination_by cs.length
decreasing_by exact Gap.piece?_rest_length_lt ‹_›

namespace Gap

variable {cs : List Char}

theorem ofChars_of_none {offset : Offset} (h : piece? cs = none) :
    ofChars offset cs = ⟨[], offset, cs, []⟩ := by
  rw [ofChars]
  split
  · rfl
  · next hsome =>
    rw [h] at hsome
    cases hsome

theorem ofChars_of_some {offset : Offset} {p : Piece} (h : piece? cs = some p) :
    ofChars offset cs = { ofChars (offset + Text.byteSize p.text) p.rest with
      trivia := ⟨p.kind, String.ofList p.text, ⟨offset, offset + Text.byteSize p.text⟩⟩
        :: (ofChars (offset + Text.byteSize p.text) p.rest).trivia
      diagnostics := p.diagnostics.map (·.shift offset)
        ++ (ofChars (offset + Text.byteSize p.text) p.rest).diagnostics } := by
  rw [ofChars]
  split
  · next hnone =>
    rw [h] at hnone
    cases hnone
  · next hsome =>
    rw [h] at hsome
    cases hsome
    rfl

end Gap

end LuaFront
