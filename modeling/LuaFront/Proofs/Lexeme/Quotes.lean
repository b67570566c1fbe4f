import LuaFront.Proofs.Lexeme.Escapes
import LuaFront.Proofs.Lexeme.Joined
import LuaFront.Proofs.Text.Encoded

/-!
Any text can be written as a string in quotes: a backslash in front of every backslash and of every
quote of the kind that ends the string, and letters for the line breaks. The lexer takes each
character of the text as one step, and the decoder gives the character back for it.
-/

namespace LuaFront

open Text

namespace Quoted

/-- A character as it can stand between two of `quote`. -/
def written (quote c : Char) : List Char :=
  if c = '\\' || c = quote then ['\\', c]
  else if c = '\n' then ['\\', 'n']
  else if c = '\r' then ['\\', 'r']
  else [c]

/-- A text as a string in quotes. -/
def literal (quote : Char) (s : List Char) : List Char :=
  quote :: s.flatMap (written quote) ++ [quote]

variable {quote : Char} {rest : List Char}

/-! ### One character -/

lemma body_escaped {c : Char} {offset : Offset} (hquote : '\\' ≠ quote) (hc : isSimple c = true) :
    body quote offset ('\\' :: c :: rest)
      = { body quote (offset + 2) rest with
          text := '\\' :: c :: (body quote (offset + 2) rest).text } := by
  have hsize : c.utf8Size = 1 := by
    simp only [isSimple, Bool.or_eq_true, decide_eq_true_eq] at hc
    rcases hc with ((((((((rfl | rfl) | rfl) | rfl) | rfl) | rfl) | rfl) | rfl) | rfl) | rfl <;> rfl
  simp [body, hquote, escape, hc, byteSize, hsize]

/-- The lexer takes what is written for a character, and nothing else. -/
lemma body_written (hquote : quote = '"' ∨ quote = '\'') (c : Char) (offset : Offset)
    (rest : List Char) : ∃ stop, body quote offset (written quote c ++ rest)
      = { body quote stop rest with text := written quote c ++ (body quote stop rest).text } := by
  have hslash : '\\' ≠ quote := by rcases hquote with rfl | rfl <;> decide
  unfold written
  split_ifs with hescape hlf hcr
  · refine ⟨_, body_escaped hslash ?_⟩
    rcases hquote with rfl | rfl <;>
      rcases (by simpa using hescape) with rfl | rfl <;> rfl
  · exact ⟨_, body_escaped hslash rfl⟩
  · exact ⟨_, body_escaped hslash rfl⟩
  · obtain ⟨hne, hend⟩ : c ≠ '\\' ∧ c ≠ quote := by simpa using hescape
    exact ⟨offset + c.utf8Size, by simp [body, hlf, hcr, hne, hend]⟩

/-- The decoder gives the character back. -/
lemma bytes_written (hquote : quote = '"' ∨ quote = '\'') (c : Char) :
    StringValue.bytes (written quote c ++ rest) = encode [c] ++ StringValue.bytes rest := by
  have hsimple : ∀ d byte, StringValue.controlByte? d = some byte →
      StringValue.bytes ('\\' :: d :: rest) = byte :: StringValue.bytes rest := by
    intro d byte hd
    rw [StringValue.bytes, if_pos rfl, StringValue.meaning, hd]
    rfl
  unfold written
  split_ifs with hescape hlf hcr
  · rcases hquote with rfl | rfl <;> rcases (by simpa using hescape) with rfl | rfl <;>
      exact hsimple _ _ rfl
  · subst hlf
    exact hsimple _ _ rfl
  · subst hcr
    exact hsimple _ _ rfl
  · have hne : c ≠ '\\' := (by simpa using hescape : c ≠ '\\' ∧ c ≠ quote).1
    exact bytes_append (by simpa using hne.symm) rest

/-! ### Whole texts -/

lemma body_literal (hquote : quote = '"' ∨ quote = '\'') (s : List Char) (offset : Offset)
    (rest : List Char) :
    body quote offset (s.flatMap (written quote) ++ quote :: rest)
      = ⟨s.flatMap (written quote) ++ [quote], rest, true, []⟩ := by
  induction s generalizing offset with
  | nil => rcases hquote with rfl | rfl <;> simp [body]
  | cons c s ih =>
    obtain ⟨stop, hstep⟩ :=
      body_written hquote c offset (s.flatMap (written quote) ++ quote :: rest)
    rw [List.flatMap_cons, List.append_assoc, hstep, ih, ← List.append_assoc]

lemma scan_literal (hquote : quote = '"' ∨ quote = '\'') (s rest : List Char) :
    scan quote (literal quote s ++ rest) = .plain .string (literal quote s) rest := by
  have hbody := body_literal hquote s 1 rest
  simp [scan, literal, hbody, Lexeme.plain]

lemma bytes_literal (hquote : quote = '"' ∨ quote = '\'') (s : List Char) :
    StringValue.bytes (s.flatMap (written quote)) = encode s := by
  induction s with
  | nil => rw [List.flatMap_nil, StringValue.bytes, encode, List.flatMap_nil]
  | cons c s ih =>
    rw [List.flatMap_cons, bytes_written hquote, ih, ← encode_append, List.singleton_append]

lemma ofText_literal (hquote : quote = '"' ∨ quote = '\'') (s : List Char) :
    StringValue.ofText (literal quote s) = s := by
  have hhead : (literal quote s).head? ≠ some '[' := by
    rcases hquote with rfl | rfl <;> simp [literal]
  have hinside : ((literal quote s).drop 1).dropLast = s.flatMap (written quote) := by
    rw [literal, List.cons_append, List.drop_one, List.tail_cons, List.dropLast_concat]
  rw [StringValue.ofText, if_neg hhead, StringValue.quoted, hinside, bytes_literal hquote,
    decode_encode]

end Quoted

namespace Lexed

open Quoted

/-- **Any text can be written as a string in quotes**: it is one token, nothing is reported about
it, and its value is the text. -/
theorem ofSource_literal (quote : Char) (hquote : quote = '"' ∨ quote = '\'') (s source : String)
    (hsource : source.toList = literal quote s.toList) :
    ∃ t, (ofSource source).tokens = [t, ⟨.eof, "", .empty (byteSize source.toList), []⟩]
      ∧ t = ⟨.string, source, ⟨0, byteSize source.toList⟩, []⟩
      ∧ (ofSource source).diagnostics = []
      ∧ Literal.stringValue? ⟨.string, t⟩ = some s := by
  have hcons : source.toList = quote :: (s.toList.flatMap (written quote) ++ [quote]) := hsource
  have hgap : Gap.piece? (quote :: (s.toList.flatMap (written quote) ++ [quote])) = none :=
    Gap.piece?_eq_none_iff.2 (by rcases hquote with rfl | rfl <;> exact ⟨rfl, by simp⟩)
  have hlexeme : Lexeme.ofChars quote (s.toList.flatMap (written quote) ++ [quote])
      = .plain .string source.toList [] := by
    have hscan := scan_literal hquote s.toList []
    rw [List.append_nil, ← hsource, hcons] at hscan
    rw [Lexeme.ofChars, if_pos (by simpa using hquote), hscan, ← hcons]
  have hscanned := Scanned.ofChars_single 0 hgap (by rw [hlexeme]; rfl)
  rw [hlexeme, ← hcons] at hscanned
  refine ⟨_, ?_, rfl, ?_, ?_⟩
  · simp [ofSource, hscanned, Scanned.first, Lexeme.plain]
  · simp [ofSource, hscanned, Scanned.first, Lexeme.plain]
  · rw [Literal.stringValue?, if_pos rfl, hsource, ofText_literal hquote, String.ofList_toList]

/-- Quotes of the other kind stand for themselves, and so does a letter of two bytes. -/
theorem ofSource_literal_apostrophe :
    ∃ t, (ofSource "'\\'\\n\"é'").tokens = [t, ⟨.eof, "", .empty 9, []⟩]
      ∧ t = ⟨.string, "'\\'\\n\"é'", ⟨0, 9⟩, []⟩
      ∧ (ofSource "'\\'\\n\"é'").diagnostics = []
      ∧ Literal.stringValue? ⟨.string, t⟩ = some "'\n\"é" :=
  ofSource_literal '\'' (.inr rfl) "'\n\"é" "'\\'\\n\"é'" (by decide)

end Lexed

end LuaFront
