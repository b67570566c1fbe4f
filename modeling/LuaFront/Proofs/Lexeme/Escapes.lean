import LuaFront.Proofs.Lexeme.Alone
import LuaFront.Syntax.StringValue
import Mathlib.Tactic.SplitIfs

/-!
Strings in quotes, piece by piece. The lexer and the decoder read escapes each in its own way. They
agree on where an escape ends and what it stands for, but for a plus sign in front of hexadecimal
digits: the lexer warns about it, and the decoder reads a number all the same.
-/

namespace LuaFront

open Text StringValue

namespace Quoted

/-- What an escape stands for if nothing is wrong with it. The number of no character stands for
its own text. -/
def Escape.denoted (e : Escape) : List UInt8 :=
  match e.text with
  | [] => []
  | c :: more =>
    if c.isDigit then [UInt8.ofNat (decimalValue e.text)]
    else match c with
      | 'n' | '\n' | '\r' => [10]
      | 't' => [9]
      | 'a' => [7]
      | 'b' => [8]
      | 'f' => [12]
      | 'r' => [13]
      | 'v' => [11]
      | 'z' => []
      | 'x' => [UInt8.ofNat (hexValue more)]
      | 'u' =>
        -- The number stands in braces.
        match scalar? (hexValue (more.drop 1).dropLast) with
        | some scalar => encode [scalar]
        | none => encode ('\\' :: e.text)
      | _ => encode [c]

/-- A piece of a string: a character that stands for itself, or a backslash with its escape. -/
inductive Segment where
  | char (c : Char)
  | escape (e : Escape)

namespace Segment

def text : Segment → List Char
  | char c => [c]
  | escape e => '\\' :: e.text

def warning? : Segment → Option String
  | char _ => none
  | escape e => e.warning

/-- The bytes of a piece. An escape with a warning is kept as it is written. -/
def bytes : Segment → List UInt8
  | char c => encode [c]
  | escape e => if e.warning.isSome then encode ('\\' :: e.text) else e.denoted

end Segment

/-- The pieces of a string up to its closing quote, or to where it is left unfinished. -/
def segments (quote : Char) : List Char → List Segment
  | [] => []
  | c :: cs =>
    if c = '\n' || c = '\r' || c = quote then []
    else if c = '\\' then .escape (escape cs) :: segments quote (escape cs).rest
    else .char c :: segments quote cs
termination_by cs => cs.length
decreasing_by
  · have := escape_rest_length_le cs
    simp only [List.length_cons]
    omega
  · simp

/-- The warnings about pieces that follow each other from an offset on. -/
def warnings (offset : Offset) : List Segment → List Diagnostic
  | [] => []
  | s :: more =>
    (s.warning?.map (.warning ⟨offset, offset + byteSize s.text⟩)).toList
      ++ warnings (offset + byteSize s.text) more

/-! ### The pieces that the lexer reads -/

variable {quote : Char} {offset : Offset} {cs rest inside after : List Char}

lemma segments_escape (hquote : '\\' ≠ quote) :
    segments quote ('\\' :: cs) = .escape (escape cs) :: segments quote (escape cs).rest := by
  simp [segments, hquote]

lemma segments_char {c : Char} (hbreak : ¬ (c = '\n' || c = '\r') = true) (hquote : c ≠ quote)
    (hescape : c ≠ '\\') : segments quote (c :: cs) = .char c :: segments quote cs := by
  rw [segments, if_neg, if_neg hescape]
  simpa [hquote] using hbreak

/-- What the lexer reads of a string is its pieces, and the closing quote if there is one; what it
reports is the warnings about them. -/
lemma body_segments (quote : Char) (offset : Offset) (cs : List Char) :
    (body quote offset cs).text = (segments quote cs).flatMap Segment.text
        ++ (if (body quote offset cs).closed then [quote] else [])
      ∧ (body quote offset cs).diagnostics = warnings offset (segments quote cs) := by
  fun_induction body quote offset cs with
  | case1 => simp [segments, warnings]
  | case2 offset c cs hbreak =>
    have hstop : (c = '\n' || c = '\r' || c = quote) = true := by rw [hbreak, Bool.true_or]
    simp [segments, warnings, hstop]
  | case3 => simp [segments, warnings]
  | case4 offset cs e stop inner hbreak hquote ih =>
    obtain ⟨htext, hdiagnostics⟩ := ih
    have hstop : stop = offset + byteSize ('\\' :: e.text) := by
      simp [stop, byteSize, Nat.add_assoc]
      rfl
    rw [hstop] at htext hdiagnostics
    rw [segments_escape hquote]
    constructor
    · simp only [inner, hstop, htext, List.flatMap_cons, Segment.text, List.append_assoc]
      rfl
    · simp only [inner, hstop, hdiagnostics, warnings, Segment.warning?, Segment.text]
      rfl
  | case5 offset c cs hbreak hquote hescape inner ih =>
    obtain ⟨htext, hdiagnostics⟩ := ih
    rw [segments_char hbreak hquote hescape]
    constructor
    · simp only [inner, htext, List.flatMap_cons, Segment.text, List.cons_append, List.nil_append]
    · simp only [inner, hdiagnostics, warnings, Segment.warning?, Segment.text, byteSize,
        Option.map_none, Option.toList_none, List.nil_append, Nat.add_zero]

/-! ### Escapes that the decoder reads in the same way -/

/-- The decoder takes an escape off the inside of a string, and what it stands for. -/
def Agrees (e : Escape) (inside : List Char) : Prop :=
  StringValue.bytes ('\\' :: (e.text ++ inside)) = (Segment.escape e).bytes
    ++ StringValue.bytes inside

lemma encode_append (cs ds : List Char) : encode (cs ++ ds) = encode cs ++ encode ds :=
  List.flatMap_append

/-- Characters other than a backslash stand for themselves. -/
lemma bytes_append {front : List Char} (h : '\\' ∉ front) (inside : List Char) :
    StringValue.bytes (front ++ inside) = encode front ++ StringValue.bytes inside := by
  induction front with
  | nil => rfl
  | cons c front ih =>
    obtain ⟨hc, hfront⟩ := not_or.1 (mt List.mem_cons.2 h)
    rw [List.cons_append, StringValue.bytes, if_neg (Ne.symm hc), ih hfront, ← List.append_assoc,
      ← encode_append]
    rfl

/-- The decoder may leave some characters of the escape to be read as they are. -/
lemma agrees_of {e : Escape} (found : List UInt8) (back : List Char)
    (hmeaning : meaning (e.text ++ inside) = ⟨found, back ++ inside⟩) (hback : '\\' ∉ back)
    (hfound : (Segment.escape e).bytes = found ++ encode back) : Agrees e inside := by
  rw [Agrees, StringValue.bytes, if_pos rfl, hmeaning, bytes_append hback, hfound,
    List.append_assoc]

/-- The decoder keeps the first characters of an escape with a warning, and leaves the others. -/
lemma agrees_kept {e : Escape} (kept back : List Char) (htext : e.text = kept ++ back)
    (hwarning : e.warning.isSome = true)
    (hmeaning : meaning (kept ++ (back ++ inside)) = ⟨encode ('\\' :: kept), back ++ inside⟩)
    (hback : '\\' ∉ back) : Agrees e inside := by
  refine agrees_of (encode ('\\' :: kept)) back ?_ hback ?_
  · rw [htext, List.append_assoc, hmeaning]
  · rw [Segment.bytes, if_pos hwarning, htext, ← encode_append, List.cons_append]

lemma agrees_simple {c : Char} (hc : isSimple c = true) (rest : List Char) :
    Agrees ⟨[c], rest, none⟩ inside := by
  obtain ⟨byte, hbyte, hdenoted⟩ : ∃ byte, controlByte? c = some byte
      ∧ (⟨[c], rest, none⟩ : Escape).denoted = [byte] := by
    simp only [isSimple, Bool.or_eq_true, decide_eq_true_eq] at hc
    rcases hc with ((((((((rfl | rfl) | rfl) | rfl) | rfl) | rfl) | rfl) | rfl) | rfl) | rfl <;>
      exact ⟨_, rfl, rfl⟩
  refine agrees_of [byte] [] ?_ List.not_mem_nil ?_
  · rw [List.singleton_append, meaning, hbyte]
    rfl
  · rw [Segment.bytes, hdenoted]
    rfl

/-- The inside of a string begins with the characters that follow an escape. -/
lemma head_of_rest {c : Char} {tail : List Char} (hrest : rest = inside ++ after)
    (hinside : inside = c :: tail) : rest.head? = some c := by
  rw [hrest, hinside]
  rfl

lemma agrees_lineBreak {c second : Char} (hc : c = '\n' ∧ second = '\r' ∨ c = '\r' ∧ second = '\n')
    (hrest : (lineBreak c second cs).rest = inside ++ after) (hafter : after ≠ []) :
    Agrees (lineBreak c second cs) inside := by
  have hmeaning : ∀ tail, meaning (c :: tail) = lineMeaning second tail := by
    rcases hc with ⟨rfl, rfl⟩ | ⟨rfl, rfl⟩ <;> exact fun _ => rfl
  have hbytes : ∀ tail rest, (Segment.escape ⟨c :: tail, rest, none⟩).bytes = [10] := by
    rcases hc with ⟨rfl, rfl⟩ | ⟨rfl, rfl⟩ <;> exact fun _ _ => rfl
  rcases cs with _ | ⟨d, cs⟩
  · exact absurd (List.append_eq_nil_iff.1 hrest.symm).2 hafter
  rw [lineBreak] at hrest ⊢
  split at hrest
  · next hd =>
    rw [if_pos hd]
    refine agrees_of [10] [] ?_ List.not_mem_nil (hbytes _ _)
    simp [hmeaning, lineMeaning, hd]
  · next hd =>
    rw [if_neg hd]
    refine agrees_of [10] [] ?_ List.not_mem_nil (hbytes _ _)
    rcases inside with _ | ⟨e, inside⟩
    · simp [hmeaning, lineMeaning]
    · obtain rfl : d = e := Option.some.inj (head_of_rest hrest rfl)
      simp [hmeaning, lineMeaning, hd]

lemma agrees_blanks (hrest : cs.dropWhile isSpace = inside ++ after) :
    Agrees ⟨'z' :: cs.takeWhile isSpace, cs.dropWhile isSpace, none⟩ inside := by
  refine agrees_of [] [] ?_ List.not_mem_nil rfl
  have hmeaning : ∀ tail, meaning ('z' :: tail) = ⟨[], tail.dropWhile isSpace⟩ := fun _ => rfl
  rw [List.cons_append, hmeaning, (takeWhile_again hrest).2]
  rfl

/-! ### Hexadecimal digits -/

lemma not_isHexDigit_plus : Numeral.isHexDigit '+' = false := rfl

/-- Without a plus sign the decoder reads what the lexer takes for a number. -/
lemma readHex?_eq {digits : List Char} (h : digits.head? ≠ some '+') :
    readHex? digits
      = if digits ≠ [] && digits.all Numeral.isHexDigit then some (hexValue digits) else none := by
  rcases digits with _ | ⟨c, digits⟩
  · rfl
  · have hc : c ≠ '+' := fun hc => h (by rw [hc]; rfl)
    unfold readHex?
    split
    · next heq => exact absurd (List.cons.inj heq).1 hc
    · rfl

lemma readHex?_of_digits {digits : List Char} (hne : digits ≠ [])
    (hall : ∀ c ∈ digits, Numeral.isHexDigit c = true) :
    readHex? digits = some (hexValue digits) := by
  rw [readHex?_eq, if_pos]
  · simpa [hne] using hall
  · intro hhead
    obtain ⟨tail, rfl⟩ := List.head?_eq_some_iff.1 hhead
    have hplus := hall '+' List.mem_cons_self
    rw [not_isHexDigit_plus] at hplus
    cases hplus

lemma readHex?_eq_none {digits : List Char} {c : Char} (hplus : digits.head? ≠ some '+')
    (hc : c ∈ digits) (hhex : Numeral.isHexDigit c = false) : readHex? digits = none := by
  rw [readHex?_eq hplus, if_neg]
  rw [Bool.and_eq_true, List.all_eq_true]
  rintro ⟨-, hall⟩
  rw [hall c hc] at hhex
  cases hhex

lemma readHex?_plus {digits : List Char} {value : Nat} (h : readHex? ('+' :: digits) = some value) :
    (digits ≠ [] ∧ ∀ d ∈ digits, Numeral.isHexDigit d = true) ∧ hexValue digits = value := by
  rw [readHex?] at h
  split at h
  · next hdigits => exact ⟨by simpa using hdigits, Option.some.inj h⟩
  · cases h

/-- For the decoder, what follows an escape that the lexer warns about is a plus sign and a
number. -/
inductive Escape.Signed : Escape → Prop
  | byte (digit : Char) (rest : List Char) (warning : Option String) :
    Numeral.isHexDigit digit = true → Signed ⟨['x'], '+' :: digit :: rest, warning⟩
  | scalar (digits rest : List Char) (c : Char) (warning : Option String) : digits ≠ [] →
    (∀ d ∈ digits, Numeral.isHexDigit d = true) → scalar? (hexValue digits) = some c →
    Signed ⟨['u', '\x7b'], '+' :: digits ++ '\x7d' :: rest, warning⟩

/-! ### Bytes and scalars -/

lemma meaning_x (tail : List Char) : meaning ('x' :: tail) = byteMeaning tail := rfl

lemma meaning_u (tail : List Char) : meaning ('u' :: tail) = scalarMeaning tail := rfl

lemma byteEscape_cases (cs : List Char) :
    (∃ a b rest, Numeral.isHexDigit a = true ∧ Numeral.isHexDigit b = true
        ∧ byteEscape cs = ⟨['x', a, b], rest, none⟩)
      ∨ ∃ back rest warning, byteEscape cs = ⟨'x' :: back, rest, some warning⟩
        ∧ (back = [] ∨ ∃ a, Numeral.isHexDigit a = true ∧ back = [a])
        ∧ ∀ d, rest.head? = some d → Numeral.isHexDigit d = false := by
  rcases cs with _ | ⟨a, cs⟩
  · exact .inr ⟨[], [], _, rfl, .inl rfl, by simp⟩
  cases ha : Numeral.isHexDigit a with
  | false => exact .inr ⟨[], a :: cs, "hexadecimal digit expected", by simp [byteEscape, ha],
      .inl rfl, by simpa using ha⟩
  | true =>
    rcases cs with _ | ⟨b, cs⟩
    · exact .inr ⟨[a], [], "hexadecimal digit expected", by simp [byteEscape, ha],
        .inr ⟨a, ha, rfl⟩, by simp⟩
    cases hb : Numeral.isHexDigit b with
    | false => exact .inr ⟨[a], b :: cs, "hexadecimal digit expected", by simp [byteEscape, ha, hb],
        .inr ⟨a, ha, rfl⟩, by simpa using hb⟩
    | true => exact .inl ⟨a, b, cs, ha, hb, by simp [byteEscape, ha, hb]⟩

lemma byteMeaning_kept {tail : List Char}
    (h : ∀ c d rest, tail = c :: d :: rest → readHex? [c, d] = none) :
    byteMeaning tail = ⟨encode ['\\', 'x'], tail⟩ := by
  unfold byteMeaning
  split
  · next c d rest => rw [h c d rest rfl]
  · rfl

lemma ne_backslash_of_hexDigit {c : Char} (h : Numeral.isHexDigit c = true) : '\\' ≠ c := by
  rintro rfl
  cases h

lemma head_ne_plus {c : Char} (h : Numeral.isHexDigit c = true) (tail : List Char) :
    (c :: tail).head? ≠ some '+' := by
  rintro hhead
  obtain rfl := Option.some.inj hhead
  cases h

lemma agrees_byte (hrest : (byteEscape cs).rest = inside ++ after)
    (hsigned : ¬ (byteEscape cs).Signed) : Agrees (byteEscape cs) inside := by
  rcases byteEscape_cases cs with ⟨a, b, rest, ha, hb, heq⟩ | ⟨back, rest, w, heq, hback, hhead⟩
  · rw [heq] at hrest ⊢
    refine agrees_of [UInt8.ofNat (hexValue [a, b])] [] ?_ List.not_mem_nil rfl
    have hread : readHex? [a, b] = some (hexValue [a, b]) :=
      readHex?_of_digits (by simp) (by simp [ha, hb])
    rw [List.cons_append, meaning_x]
    simp [byteMeaning, hread]
  · rw [heq] at hrest hsigned ⊢
    replace hrest : rest = inside ++ after := hrest
    have hmeaning : meaning ('x' :: (back ++ inside)) = ⟨encode ['\\', 'x'], back ++ inside⟩ := by
      rw [meaning_x, byteMeaning_kept]
      rintro c d tail htail
      rcases hback with rfl | ⟨a, ha, rfl⟩
      · rw [List.nil_append] at htail
        by_cases hc : c = '+'
        · -- Had a digit come after the sign, the escape would be signed.
          have hd : Numeral.isHexDigit d = false := by
            refine Bool.eq_false_iff.2 fun hd => hsigned ?_
            rw [show rest = '+' :: d :: (tail ++ after) by simp [hrest, htail, hc]]
            exact .byte d (tail ++ after) w hd
          rw [hc, readHex?]
          simp [hd]
        · refine readHex?_eq_none (by simpa using hc) List.mem_cons_self (hhead c ?_)
          exact head_of_rest hrest htail
      · obtain ⟨rfl, hinside⟩ := List.cons.inj htail
        exact readHex?_eq_none (head_ne_plus ha _) (List.mem_cons_of_mem _ List.mem_cons_self)
          (hhead d (head_of_rest hrest hinside))
    refine agrees_kept ['x'] back rfl rfl hmeaning ?_
    rcases hback with rfl | ⟨a, ha, rfl⟩
    · exact List.not_mem_nil
    · simpa using ne_backslash_of_hexDigit ha

lemma scalarEscape_cases (cs : List Char) :
    (∃ digits rest, digits ≠ [] ∧ (∀ d ∈ digits, Numeral.isHexDigit d = true)
        ∧ scalarEscape cs = ⟨'u' :: '\x7b' :: digits ++ ['\x7d'], rest, none⟩)
      ∨ (∃ digits rest warning, (∀ d ∈ digits, Numeral.isHexDigit d = true)
        ∧ scalarEscape cs = ⟨'u' :: '\x7b' :: digits, rest, some warning⟩
        ∧ ∀ d, rest.head? = some d → Numeral.isHexDigit d = false ∧ (digits ≠ [] → d ≠ '\x7d'))
      ∨ ∃ warning, scalarEscape cs = ⟨['u'], cs, some warning⟩ ∧ cs.head? ≠ some '\x7b' := by
  by_cases hopen : ∃ inner, cs = '\x7b' :: inner
  · obtain ⟨inner, rfl⟩ := hopen
    have hhex : ∀ d ∈ inner.takeWhile Numeral.isHexDigit, Numeral.isHexDigit d = true :=
      fun d => List.mem_takeWhile_imp
    have hhead : ∀ d, (inner.dropWhile Numeral.isHexDigit).head? = some d →
        Numeral.isHexDigit d = false := by
      intro d hd
      have hnot := List.head?_dropWhile_not Numeral.isHexDigit inner
      rw [hd] at hnot
      exact hnot
    rw [scalarEscape]
    split
    · next c digits rest hdigits hrest =>
      rw [hdigits] at hhex ⊢
      exact .inl ⟨c :: digits, rest, by simp, hhex, rfl⟩
    · next digits rest hnot =>
      refine .inr (.inl ⟨_, _, _, hhex, rfl, fun d hd => ⟨hhead d hd, ?_⟩⟩)
      rintro hne rfl
      obtain ⟨c, digits, hdigits⟩ := List.exists_cons_of_ne_nil hne
      obtain ⟨rest, hrest⟩ := List.head?_eq_some_iff.1 hd
      exact hnot c digits rest hdigits hrest
  · have hbare : cs.head? ≠ some '\x7b' := fun hhead => by
      obtain ⟨inner, rfl⟩ := List.head?_eq_some_iff.1 hhead
      exact hopen ⟨inner, rfl⟩
    exact .inr (.inr ⟨_, scalarEscape_bare hbare, hbare⟩)

lemma not_mem_of_hexDigits {digits : List Char} {c : Char}
    (h : ∀ d ∈ digits, Numeral.isHexDigit d = true) (hc : Numeral.isHexDigit c = false) :
    c ∉ digits := by
  intro hmem
  rw [h c hmem] at hc
  cases hc

lemma scalarMeaning_braced {digits : List Char} (h : '\x7d' ∉ digits) (tail : List Char) :
    scalarMeaning ('\x7b' :: (digits ++ '\x7d' :: tail))
      = match (readHex? digits).bind scalar? with
        | some c => ⟨encode [c], tail⟩
        | none => ⟨encode ['\\', 'u'], '\x7b' :: (digits ++ '\x7d' :: tail)⟩ := by
  have hne : ∀ d ∈ digits, decide (d ≠ '\x7d') = true := fun d hd =>
    decide_eq_true fun heq => h (heq ▸ hd)
  have htake : (digits ++ '\x7d' :: tail).takeWhile (· ≠ '\x7d') = digits := by
    rw [List.takeWhile_append_of_pos hne]
    simp
  have hdrop : (digits ++ '\x7d' :: tail).dropWhile (· ≠ '\x7d') = '\x7d' :: tail := by
    rw [List.dropWhile_append_of_pos hne]
    simp
  cases hread : (readHex? digits).bind scalar? <;>
    simp only [scalarMeaning, htake, hdrop, hread]

/-- Braces without the number of a character are left to be read as they are. -/
lemma scalarMeaning_kept {tail : List Char}
    (h : ∀ digits rest, tail = '\x7b' :: (digits ++ '\x7d' :: rest) → '\x7d' ∉ digits →
      (readHex? digits).bind scalar? = none) :
    scalarMeaning tail = ⟨encode ['\\', 'u'], tail⟩ := by
  by_cases hopen : ∃ inner, tail = '\x7b' :: inner
  · obtain ⟨inner, rfl⟩ := hopen
    by_cases hclose : '\x7d' ∈ inner
    · obtain ⟨digits, rest, rfl, hdigits⟩ := List.eq_append_cons_of_mem hclose
      rw [scalarMeaning_braced hdigits, h digits rest rfl hdigits]
    · have hdrop : inner.dropWhile (· ≠ '\x7d') = [] := by
        rw [List.dropWhile_eq_nil_iff]
        exact fun d hd => decide_eq_true fun heq => hclose (heq ▸ hd)
      simp only [scalarMeaning, hdrop]
  · unfold scalarMeaning
    dsimp only
    split
    · next inner => exact absurd ⟨inner, rfl⟩ hopen
    · rfl

/-- Braces that the lexer warns about hold the number of a character only after a plus sign. -/
lemma braces_unread {digits digits' tail : List Char} {w : Option String}
    (hhex : ∀ d ∈ digits, Numeral.isHexDigit d = true)
    (hhead : ∀ d, inside.head? = some d → Numeral.isHexDigit d = false
      ∧ (digits ≠ [] → d ≠ '\x7d'))
    (heq : digits ++ inside = digits' ++ '\x7d' :: tail) (hdigits' : '\x7d' ∉ digits')
    (hsigned : ¬ (⟨'u' :: '\x7b' :: digits, inside ++ after, w⟩ : Escape).Signed) :
    (readHex? digits').bind scalar? = none := by
  -- The braces hold the digits that the lexer found, and some more of the inside.
  obtain ⟨more, rfl, hinside⟩ : ∃ more, digits' = digits ++ more
      ∧ inside = more ++ '\x7d' :: tail := by
    rcases List.append_eq_append_iff.1 heq with ⟨more, hdigits, hmore⟩ | ⟨more, hdigits, hmore⟩
    · exact ⟨more, hdigits, hmore⟩
    · rcases more with _ | ⟨c, more⟩
      · exact ⟨[], by simpa using hdigits.symm, by simpa using hmore.symm⟩
      · have hc := hhex c (by rw [hdigits]; simp)
        obtain ⟨rfl, -⟩ := List.cons.inj hmore
        cases hc
  rcases more with _ | ⟨d, more⟩
  · -- Nothing but digits in front of the closing brace: there are none.
    obtain ⟨-, hne⟩ := hhead '\x7d' (by rw [hinside]; rfl)
    obtain rfl : digits = [] := Decidable.byContradiction fun h => hne h rfl
    rfl
  obtain ⟨hd, -⟩ := hhead d (by rw [hinside]; rfl)
  by_cases hplus : (digits ++ d :: more).head? = some '+'
  · rcases digits with _ | ⟨c, digits⟩
    · obtain rfl := Option.some.inj hplus
      refine Option.eq_none_iff_forall_ne_some.2 fun c hc => hsigned ?_
      obtain ⟨value, hvalue, hscalar⟩ := Option.bind_eq_some_iff.1 hc
      obtain ⟨hmore, rfl⟩ := readHex?_plus hvalue
      rw [hinside, List.append_assoc]
      exact .scalar more (tail ++ after) c w hmore.1 hmore.2 hscalar
    · exact absurd hplus (head_ne_plus (hhex c List.mem_cons_self) _)
  · rw [readHex?_eq_none hplus (by simp) hd]
    rfl

lemma agrees_scalar (hrest : (scalarEscape cs).rest = inside ++ after)
    (hsigned : ¬ (scalarEscape cs).Signed) : Agrees (scalarEscape cs) inside := by
  rcases scalarEscape_cases cs with ⟨digits, rest, hne, hhex, heq⟩
    | ⟨digits, rest, w, hhex, heq, hhead⟩ | ⟨w, heq, hhead⟩
  · have hbrace := not_mem_of_hexDigits hhex (c := '\x7d') rfl
    have hslash := not_mem_of_hexDigits hhex (c := '\\') rfl
    have hmeaning := scalarMeaning_braced hbrace inside
    rw [readHex?_of_digits hne hhex, Option.bind_some] at hmeaning
    rw [heq]
    cases hscalar : scalar? (hexValue digits) with
    | some c =>
      rw [hscalar] at hmeaning
      refine agrees_of (encode [c]) [] ?_ List.not_mem_nil ?_
      · simpa [meaning_u] using hmeaning
      · simp [Segment.bytes, Escape.denoted, hscalar, encode]
    | none =>
      rw [hscalar] at hmeaning
      refine agrees_of (encode ['\\', 'u']) ('\x7b' :: digits ++ ['\x7d']) ?_ ?_ ?_
      · simpa [meaning_u] using hmeaning
      · simpa using hslash
      · rw [← encode_append]
        simp [Segment.bytes, Escape.denoted, hscalar]
  · rw [heq] at hrest hsigned ⊢
    replace hrest : rest = inside ++ after := hrest
    have hbrace := not_mem_of_hexDigits hhex (c := '\x7d') rfl
    have hslash := not_mem_of_hexDigits hhex (c := '\\') rfl
    refine agrees_kept ['u'] ('\x7b' :: digits) rfl rfl ?_ (by simpa using hslash)
    rw [List.singleton_append, meaning_u]
    refine scalarMeaning_kept fun digits' tail htail hdigits' => ?_
    refine braces_unread hhex (fun d hd => hhead d ?_) (List.cons.inj htail).2 hdigits'
      (hrest ▸ hsigned)
    obtain ⟨more, hinside⟩ := List.head?_eq_some_iff.1 hd
    exact head_of_rest hrest hinside
  · rw [heq] at hrest ⊢
    refine agrees_kept ['u'] [] rfl rfl ?_ List.not_mem_nil
    rw [List.singleton_append, meaning_u, List.nil_append]
    refine scalarMeaning_kept fun digits rest hinside _ => ?_
    exact absurd (head_of_rest hrest hinside) hhead

/-! ### Decimal digits and other characters -/

lemma meaning_digit {c : Char} (hc : c.isDigit = true) (tail : List Char) :
    meaning (c :: tail) = decimalMeaning (c :: tail) := by
  have hne : ∀ d : Char, d.isDigit = false → c ≠ d := by
    rintro d hd rfl
    rw [hc] at hd
    cases hd
  have hcontrol : controlByte? c = none := by
    unfold controlByte?
    split <;> first | cases hc | rfl
  simp [meaning, hcontrol, hc, hne '\n' rfl, hne '\r' rfl, hne 'z' rfl, hne 'x' rfl, hne 'u' rfl]

lemma agrees_decimal {c : Char} (hc : c.isDigit = true)
    (hrest : (decimalEscape (c :: cs)).rest = inside ++ after) :
    Agrees (decimalEscape (c :: cs)) inside := by
  have hdigits := takeWhile_take_again hrest
  obtain ⟨more, hmore⟩ : ∃ more, ((c :: cs).take 3).takeWhile Char.isDigit = c :: more :=
    ⟨_, by rw [List.take_succ_cons, List.takeWhile_cons_of_pos hc]⟩
  simp only [decimalEscape, hmore] at hdigits ⊢
  have hdrop : ((c :: more) ++ inside).drop (c :: more).length = inside := List.drop_left
  refine agrees_of (Segment.bytes (.escape ⟨c :: more, _, _⟩)) [] ?_
    List.not_mem_nil (List.append_nil _).symm
  rw [List.cons_append, meaning_digit hc, ← List.cons_append, decimalMeaning, hdigits, hdrop]
  by_cases hlarge : 255 < decimalValue (c :: more)
  · simp [hlarge, Nat.not_le.2 hlarge, Segment.bytes]
  · simp [hlarge, Nat.not_lt.1 hlarge, Segment.bytes, Escape.denoted, hc]

lemma agrees_other {c : Char} (hsimple : isSimple c = false) (hlf : c ≠ '\n') (hcr : c ≠ '\r')
    (hz : c ≠ 'z') (hx : c ≠ 'x') (hu : c ≠ 'u') (hdigit : c.isDigit = false) (rest : List Char)
    (message : String) : Agrees ⟨[c], rest, some message⟩ inside := by
  have hcontrol : controlByte? c = none := by
    unfold controlByte?
    split <;> first | cases hsimple | rfl
  refine agrees_kept [c] [] rfl rfl ?_ List.not_mem_nil
  simp [meaning, hcontrol, hlf, hcr, hz, hx, hu, hdigit]

/-- **The decoder reads an escape as the lexer does**, unless a sign comes after it. -/
lemma agrees_escape (hrest : (escape cs).rest = inside ++ after) (hafter : after ≠ [])
    (hsigned : ¬ (escape cs).Signed) : Agrees (escape cs) inside := by
  rcases cs with _ | ⟨c, cs⟩
  · exact absurd (List.append_eq_nil_iff.1 hrest.symm).2 hafter
  rw [escape] at hrest hsigned ⊢
  split_ifs at hrest hsigned ⊢ with hsimple hlf hcr hz hx hu hdigit
  · exact agrees_simple hsimple cs
  · exact agrees_lineBreak (.inl ⟨hlf, rfl⟩) hrest hafter
  · exact agrees_lineBreak (.inr ⟨hcr, rfl⟩) hrest hafter
  · subst hz
    exact agrees_blanks hrest
  · exact agrees_byte hrest hsigned
  · exact agrees_scalar hrest hsigned
  · exact agrees_decimal hdigit hrest
  · exact agrees_other (by simpa using hsimple) hlf hcr hz hx hu (by simpa using hdigit) cs _

/-! ### Strings -/

/-- What the lexer reads up to a closing quote, and the text that comes after it. -/
lemma segments_append (hclosed : (body quote offset cs).closed = true) :
    cs = (segments quote cs).flatMap Segment.text ++ quote :: (body quote offset cs).rest := by
  have happend := body_append quote offset cs
  rw [(body_segments quote offset cs).1, if_pos hclosed, List.append_assoc] at happend
  exact happend.symm

/-- **The bytes of a string are those of its pieces**, if none of its escapes is signed. -/
lemma bytes_segments (hquote : '\\' ≠ quote) (hclosed : (body quote offset cs).closed = true)
    (hsigned : ∀ e, .escape e ∈ segments quote cs → ¬ e.Signed) :
    StringValue.bytes ((segments quote cs).flatMap Segment.text)
      = (segments quote cs).flatMap Segment.bytes := by
  fun_induction body quote offset cs with
  | case1 => simp at hclosed
  | case2 => simp at hclosed
  | case3 offset cs hbreak => simp [segments, StringValue.bytes]
  | case4 offset cs e stop inner hbreak hne ih =>
    rw [segments_escape hquote] at hsigned ⊢
    obtain ⟨he, hlater⟩ : ¬ e.Signed ∧ ∀ e', .escape e' ∈ segments quote e.rest → ¬ e'.Signed :=
      ⟨hsigned _ List.mem_cons_self, fun e' he' => hsigned e' (List.mem_cons_of_mem _ he')⟩
    have hagrees := agrees_escape (segments_append hclosed) (List.cons_ne_nil _ _) he
    rw [List.flatMap_cons, List.flatMap_cons, ← ih hclosed hlater]
    exact hagrees
  | case5 offset c cs hbreak hne hescape inner ih =>
    rw [segments_char hbreak hne hescape] at hsigned ⊢
    have hlater : ∀ e, .escape e ∈ segments quote cs → ¬ e.Signed :=
      fun e he => hsigned e (List.mem_cons_of_mem _ he)
    rw [List.flatMap_cons, List.flatMap_cons, ← ih hclosed hlater]
    exact bytes_append (by simpa [Segment.text] using Ne.symm hescape) _

lemma warnings_shift (segments : List Segment) (offset distance : Nat) :
    (warnings offset segments).map (·.shift distance) = warnings (offset + distance) segments := by
  induction segments generalizing offset with
  | nil => rfl
  | cons s segments ih =>
    rw [warnings, warnings, List.map_append, ih]
    cases s.warning? <;>
      simp [Diagnostic.shift, Diagnostic.warning, Span.shift, Nat.add_right_comm]

/-- A string that was read to its closing quote. -/
lemma scan_of_string (hkind : (scan quote (quote :: cs)).kind = .string) :
    (body quote 1 cs).closed = true
      ∧ (scan quote (quote :: cs)).text
        = quote :: (segments quote cs).flatMap Segment.text ++ [quote]
      ∧ (scan quote (quote :: cs)).diagnostics = warnings 1 (segments quote cs) := by
  obtain ⟨htext, hdiagnostics⟩ := body_segments quote 1 cs
  have hdrop : (quote :: cs).drop 1 = cs := rfl
  simp only [scan, hdrop] at hkind ⊢
  split at hkind
  · next hclosed => simp [hclosed, htext, hdiagnostics]
  · cases hkind

end Quoted

namespace Lexeme

lemma numeral_kind (cs : List Char) : (Numeral.scan cs).kind ≠ .string := by
  unfold Numeral.scan
  dsimp only
  split <;> simp [plain, malformed]

lemma word_kind (cs : List Char) : (Word.scan cs).kind ≠ .string := by
  unfold Word.scan Word.kindOf
  split <;> simp [plain]

lemma symbol_kind (c : Char) (cs : List Char) : (symbol c cs).kind ≠ .string := by
  unfold symbol
  split <;> simp [plain, malformed]

/-- A string that does not begin with a square bracket begins with a quote. -/
lemma ofChars_of_string {c : Char} {cs : List Char} (hkind : (ofChars c cs).kind = .string)
    (hc : c ≠ '[') : (c = '"' ∨ c = '\'') ∧ ofChars c cs = Quoted.scan c (c :: cs) := by
  unfold ofChars at hkind ⊢
  split_ifs at hkind ⊢ with hquote hbracket hdigit hword
  · exact ⟨by simpa using hquote, rfl⟩
  · simp [hc] at hbracket
  · exact absurd hkind (numeral_kind _)
  · exact absurd hkind (word_kind _)
  · exact absurd hkind (symbol_kind c cs)

end Lexeme

namespace Lexed

open Quoted

/-- **The value of a string in quotes** is read off the pieces of its text as the lexer found
them: a character stands for itself, an escape for what it denotes, and one that is warned about
for its own text. There is always a value; it is this one if no warning is about an escape in front
of a plus sign and a number. -/
theorem stringValue_segments (source : String) (t : Token) (ht : t ∈ (ofSource source).tokens)
    (hkind : t.kind = .string) (hquoted : t.text.toList.head? ≠ some '[') :
    ∃ front quote cs, source.toList = front ++ quote :: cs
      ∧ t.span.start = byteSize front
      ∧ t.text.toList = quote :: (segments quote cs).flatMap Segment.text ++ [quote]
      ∧ (ofSource source).diagnostics.filter (t.span.encloses ·.span)
        = warnings (t.span.start + 1) (segments quote cs)
      ∧ (∃ value, Literal.stringValue? ⟨.string, t⟩ = some value)
      ∧ ((∀ e, .escape e ∈ segments quote cs → ¬ e.Signed) → Literal.stringValue? ⟨.string, t⟩
        = some (String.ofList (decode ((segments quote cs).flatMap Segment.bytes)))) := by
  obtain ⟨x, hx, rfl⟩ := List.mem_map.1 ht
  obtain ⟨front, c, cs, h⟩ := Scanned.exists_reading 0 source.toList x hx (by simp [hkind])
  have htext : x.token.text.toList = (Lexeme.ofChars c cs).text := by
    rw [h.text, String.toList_ofList]
  have hc : c ≠ '[' := by
    rintro rfl
    exact hquoted (htext ▸ Lexeme.head_ofChars '[' cs)
  have hstring := h.kind.symm.trans hkind
  obtain ⟨hquote, heq⟩ := Lexeme.ofChars_of_string hstring hc
  obtain ⟨hclosed, hscan, hdiagnostics⟩ := Quoted.scan_of_string (heq ▸ hstring)
  rw [heq, hscan] at htext
  have hvalue : Literal.stringValue? ⟨.string, x.token⟩ = some (String.ofList
      (decode (StringValue.bytes ((segments c cs).flatMap Segment.text)))) := by
    rw [Literal.stringValue?, if_pos rfl, StringValue.ofText, if_neg hquoted, StringValue.quoted,
      htext, List.cons_append, List.drop_one, List.tail_cons, List.dropLast_concat]
  refine ⟨front, c, cs, h.text_eq, h.start.trans (Nat.zero_add _), htext, ?_, ⟨_, hvalue⟩,
    fun hsigned => ?_⟩
  · rw [Nat.add_comm, ← warnings_shift, ← hdiagnostics, ← heq]
    exact h.reports
  · have hslash : '\\' ≠ c := by rcases hquote with rfl | rfl <;> decide
    rw [hvalue, bytes_segments hslash hclosed hsigned]

/-- An unknown escape is kept, and the one after it is read. -/
theorem stringValue_segments_unknown :
    ⟨.string, "'\\q\\65'", ⟨2, 9⟩, []⟩ ∈ (ofSource "s='\\q\\65'").tokens
      ∧ Literal.stringValue? ⟨.string, ⟨.string, "'\\q\\65'", ⟨2, 9⟩, []⟩⟩ = some "\\qA" := by
  have ht : ⟨.string, "'\\q\\65'", ⟨2, 9⟩, []⟩ ∈ (ofSource "s='\\q\\65'").tokens := by
    decide +kernel
  obtain ⟨front, quote, cs, hsource, hstart, -, -, -, hvalue⟩ :=
    stringValue_segments _ _ ht rfl (by decide)
  have hsplit : front ++ quote :: cs = ['s', '='] ++ '\'' :: "\\q\\65'".toList := by
    rw [← hsource]
    decide
  obtain rfl : front = ['s', '='] := Text.front_eq hsplit hstart.symm
  obtain ⟨rfl, rfl⟩ := List.cons.inj (List.append_cancel_left hsplit)
  have hpieces : segments '\'' "\\q\\65'".toList
      = [.escape (escape "q\\65'".toList), .escape (escape "65'".toList)] := by
    simp [segments, escape, isSimple, decimalEscape]
  refine ⟨ht, (hvalue fun e he hsigned => ?_).trans (by decide +kernel)⟩
  have htexts : e.text = ['q'] ∨ e.text = ['6', '5'] := by
    rw [hpieces] at he
    rcases List.mem_cons.1 he with he | he
    · exact .inl (by rw [Segment.escape.inj he]; rfl)
    · exact .inr (by rw [Segment.escape.inj (List.mem_singleton.1 he)]; rfl)
  cases hsigned <;> simp at htexts

/-- The sign makes a number of what the lexer warns about: by the rule the value would be the text
of the escape and the characters after it. -/
theorem stringValue_signed :
    ⟨.string, "'\\x+1'", ⟨2, 8⟩, []⟩ ∈ (ofSource "s='\\x+1'").tokens
      ∧ (ofSource "s='\\x+1'").diagnostics = [.warning ⟨3, 5⟩ "hexadecimal digit expected"]
      ∧ (segments '\'' "\\x+1'".toList).map Segment.text = [['\\', 'x'], ['+'], ['1']]
      ∧ decode ((segments '\'' "\\x+1'".toList).flatMap Segment.bytes) = "\\x+1".toList
      ∧ Literal.stringValue? ⟨.string, ⟨.string, "'\\x+1'", ⟨2, 8⟩, []⟩⟩ = some "\x01" := by
  refine ⟨?_, ?_, ?_, ?_, ?_⟩ <;> decide +kernel

end Lexed

end LuaFront
