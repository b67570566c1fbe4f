import LuaFront.Lexeme.Gap
import LuaFront.Lexeme.Quoted
import LuaFront.Position.LineTable

/-!
Line breaks as the lexer meets them. A reader goes through a text and writes down each line feed
that it takes as a character. It jumps over what it has recognised as a whole, such as the opening
of a comment or of a long bracket, and writes down nothing there. Each scan has its reader, which
goes as far as the scan and misses no line feed.
-/

namespace LuaFront

/-- The characters ahead, the offset of the first one, and the offsets of the line feeds that were
taken, the last one first. -/
structure Reader where
  ahead : List Char
  offset : Offset
  breaks : List Offset

namespace Reader

variable {s : Reader} {c : Char} {cs front rest : List Char}

/-- Takes a character, and writes down a line feed. -/
def bump (s : Reader) : Reader :=
  match s.ahead with
  | [] => s
  | c :: cs => ⟨cs, s.offset + c.utf8Size, if c = '\n' then s.offset :: s.breaks else s.breaks⟩

/-- Jumps over characters of one byte each. -/
def jump (n : Nat) (s : Reader) : Reader :=
  { s with ahead := s.ahead.drop n, offset := s.offset + n }

/-- The reader after a stretch of text, with all line feeds of it written down. -/
def past (s : Reader) (front rest : List Char) : Reader :=
  { ahead := rest
    offset := s.offset + Text.byteSize front
    breaks := (LineTable.breaksFrom s.offset front).reverse ++ s.breaks }

@[simp] theorem past_ahead (s : Reader) (front rest : List Char) :
    (s.past front rest).ahead = rest := rfl

@[simp] theorem past_past (s : Reader) (front rest front' rest' : List Char) :
    (s.past front rest).past front' rest' = s.past (front ++ front') rest' := by
  simp [past, Nat.add_assoc, LineTable.breaksFrom_append]

theorem past_nil (h : s.ahead = cs) : s = s.past [] cs := by
  subst h
  rfl

theorem bump_eq (h : s.ahead = c :: cs) : s.bump = s.past [c] cs := by
  simp only [bump, h, past, LineTable.breaksFrom, Text.byteSize, Nat.add_zero]
  split <;> rfl

/-- A character of one byte that is no line feed. -/
def isPlain (c : Char) : Bool := c ≠ '\n' && c.utf8Size = 1

/-- A jump misses no line feed if it crosses none. -/
theorem jump_eq (front : List Char) (h : s.ahead = front ++ rest) (hplain : front.all isPlain) :
    s.jump front.length = s.past front rest := by
  have hfront : ∀ offset, Text.byteSize front = front.length
      ∧ LineTable.breaksFrom offset front = [] := by
    clear h
    induction front with
    | nil => exact fun _ => ⟨rfl, rfl⟩
    | cons c front ih =>
      intro offset
      rw [List.all_cons, Bool.and_eq_true, isPlain, Bool.and_eq_true] at hplain
      obtain ⟨⟨hfeed, hsize⟩, hfront⟩ := hplain
      have hfeed := of_decide_eq_true hfeed
      have hsize := of_decide_eq_true hsize
      obtain ⟨hlength, hbreaks⟩ := ih hfront (offset + c.utf8Size)
      rw [Text.byteSize, LineTable.breaksFrom, if_neg hfeed, hbreaks, hlength, hsize, Nat.add_comm]
      exact ⟨rfl, rfl⟩
  obtain ⟨hlength, hbreaks⟩ := hfront s.offset
  simp [jump, past, h, hlength, hbreaks]

/-! ### Runs of characters -/

def bumpWhile (p : Char → Bool) (s : Reader) : Reader :=
  match _h : s.ahead with
  | [] => s
  | c :: _ => if p c then bumpWhile p s.bump else s
termination_by s.ahead.length
decreasing_by simp [bump_eq _h, _h]

/-- Takes characters of a kind, `n` at most. -/
def bumpUpTo (p : Char → Bool) : Nat → Reader → Reader
  | 0, s => s
  | n + 1, s => if s.ahead.head?.any p then bumpUpTo p n s.bump else s

/-- Takes a character of a kind if there is one. -/
def bumpIf (p : Char → Bool) (s : Reader) : Reader := bumpUpTo p 1 s

theorem bumpWhile_eq (p : Char → Bool) (s : Reader) :
    s.bumpWhile p = s.past (s.ahead.takeWhile p) (s.ahead.dropWhile p) := by
  fun_induction bumpWhile p s with
  | case1 s h => rw [h]; exact past_nil h
  | case2 s c cs h hc ih => rw [ih]; simp [bump_eq h, h, hc]
  | case3 s c cs h hc => rw [h]; simpa [hc] using past_nil h

theorem bumpUpTo_eq (p : Char → Bool) (n : Nat) (s : Reader) :
    bumpUpTo p n s = s.past ((s.ahead.take n).takeWhile p)
      (s.ahead.drop ((s.ahead.take n).takeWhile p).length) := by
  induction n generalizing s with
  | zero => exact past_nil rfl
  | succ n ih =>
    rw [bumpUpTo]
    cases h : s.ahead with
    | nil => exact past_nil h
    | cons c cs =>
      by_cases hc : p c = true
      · simp [ih, bump_eq h, hc]
      · simpa [hc] using past_nil h

/-! ### Strings in quotes -/

/-- After `u`. -/
def scalarEscape (s : Reader) : Reader :=
  if s.ahead.head? = some '\x7b' then
    let inner := s.bump.bumpWhile Numeral.isHexDigit
    if s.bump.ahead.head?.any Numeral.isHexDigit && inner.ahead.head? = some '\x7d' then inner.bump
    else inner
  else s

/-- After a backslash. -/
def escape (s : Reader) : Reader :=
  match s.ahead with
  | [] => s
  | c :: _ =>
    if Quoted.isSimple c then s.bump
    else if c = '\n' then s.bump.bumpIf (· = '\r')
    else if c = '\r' then s.bump.bumpIf (· = '\n')
    else if c = 'z' then s.bump.bumpWhile Text.isSpace
    else if c = 'x' then bumpUpTo Numeral.isHexDigit 2 s.bump
    else if c = 'u' then s.bump.scalarEscape
    else if c.isDigit then bumpUpTo Char.isDigit 3 s
    else s.bump

theorem lineBreak_eq (second : Char) (h : s.ahead = c :: cs) :
    s.bump.bumpIf (· = second)
      = s.past (Quoted.lineBreak c second cs).text (Quoted.lineBreak c second cs).rest := by
  rw [bumpIf, bumpUpTo_eq, bump_eq h]
  cases cs with
  | nil => simp [Quoted.lineBreak]
  | cons d cs => by_cases hd : d = second <;> simp [Quoted.lineBreak, hd]

theorem scalarEscape_eq (h : s.ahead = 'u' :: cs) :
    s.bump.scalarEscape
      = s.past (Quoted.scalarEscape cs).text (Quoted.scalarEscape cs).rest := by
  rw [scalarEscape, bump_eq h]
  rcases cs with _ | ⟨c, cs⟩
  · simp [Quoted.scalarEscape]
  by_cases hc : c = '\x7b'
  · subst hc
    have hdigits : (cs.head?.any Numeral.isHexDigit = true)
        ↔ cs.takeWhile Numeral.isHexDigit ≠ [] := by
      cases cs <;> simp [List.takeWhile_cons]
    simp only [past_ahead, List.head?_cons, if_true, bumpWhile_eq, bump_eq (past_ahead _ _ _),
      past_past, Quoted.scalarEscape]
    cases htake : cs.takeWhile Numeral.isHexDigit with
    | nil => simp [hdigits, htake]
    | cons d ds =>
      cases hdrop : cs.dropWhile Numeral.isHexDigit with
      | nil => simp
      | cons e after =>
        by_cases he : e = '\x7d'
        · subst he
          simp [hdigits, htake, bump_eq (past_ahead _ _ _)]
        · simp [he]
  · rw [Quoted.scalarEscape_bare (by simpa using hc)]
    simp [hc]

theorem escape_eq (s : Reader) :
    s.escape = s.past (Quoted.escape s.ahead).text (Quoted.escape s.ahead).rest := by
  cases h : s.ahead with
  | nil => simpa [escape, h, Quoted.escape] using past_nil h
  | cons c cs =>
    unfold escape Quoted.escape
    rw [h]
    dsimp only
    repeat' split
    · exact bump_eq h
    · exact lineBreak_eq '\r' h
    · exact lineBreak_eq '\n' h
    · simp [bumpWhile_eq, bump_eq h]
    · next hx => simp [bumpUpTo_eq, bump_eq h, Quoted.byteEscape, hx]
    · next hu => subst hu; exact scalarEscape_eq h
    · simp [bumpUpTo_eq, h, Quoted.decimalEscape]
    · exact bump_eq h

/-- After the opening quote. -/
def stringBody (quote : Char) (s : Reader) : Reader :=
  match _h : s.ahead with
  | [] => s
  | c :: _ =>
    if c = '\n' || c = '\r' then s
    else if c = quote then s.bump
    else if c = '\\' then stringBody quote s.bump.escape
    else stringBody quote s.bump
termination_by s.ahead.length
decreasing_by
  · next cs _ _ _ =>
    have := Quoted.escape_rest_length_le cs
    simp [escape_eq, bump_eq _h, _h]
    omega
  · simp [bump_eq _h, _h]

theorem stringBody_eq (quote : Char) (offset : Offset) (s : Reader) :
    s.stringBody quote = s.past (Quoted.body quote offset s.ahead).text
      (Quoted.body quote offset s.ahead).rest := by
  fun_induction stringBody quote s generalizing offset with
  | case1 s h => rw [h, Quoted.body]; exact past_nil h
  | case2 s c cs h hbreak => rw [h, Quoted.body, if_pos hbreak]; exact past_nil h
  | case3 s cs h hbreak =>
    rw [h, Quoted.body, if_neg hbreak, if_pos rfl]
    exact bump_eq h
  | case4 s cs h hbreak hquote ih =>
    rw [ih (offset + 1 + Text.byteSize (Quoted.escape cs).text), h, Quoted.body, if_neg hbreak,
      if_neg hquote, if_pos rfl]
    simp [escape_eq, bump_eq h]
  | case5 s c cs h hbreak hquote hescape ih =>
    rw [ih (offset + c.utf8Size), h, Quoted.body, if_neg hbreak, if_neg hquote, if_neg hescape]
    simp [bump_eq h]

/-! ### Long brackets -/

/-- After the opening bracket of a level. -/
def longBody (level : Nat) (s : Reader) : Reader :=
  match _h : s.ahead with
  | [] => s
  | c :: cs =>
    if c = ']' then
      let after := s.bump.bumpWhile (· = '=')
      if (cs.takeWhile (· = '=')).length = level && after.ahead.head? = some ']' then after.bump
      else longBody level after
    else longBody level s.bump
termination_by s.ahead.length
decreasing_by
  · have := (List.dropWhile_suffix (l := cs) (· = '=')).length_le
    simp [bumpWhile_eq, bump_eq _h, _h]
    omega
  · simp [bump_eq _h, _h]

/-- A long bracket of a level, its opening included. -/
def bracket (level : Nat) (s : Reader) : Reader := (s.jump (level + 2)).longBody level

def longString (s : Reader) : Reader :=
  match LongBracket.level? s.ahead with
  | some level => s.bracket level
  | none => s.bump.bumpWhile (· = '=')

theorem longBody_eq (level : Nat) (s : Reader) :
    s.longBody level = s.past (LongBracket.body level s.ahead).text
      (LongBracket.body level s.ahead).rest := by
  fun_induction longBody level s with
  | case1 s h => rw [h, LongBracket.body]; exact past_nil h
  | case2 s cs after hclosed h =>
    have hafter : after = s.past (']' :: cs.takeWhile (· = '=')) (cs.dropWhile (· = '=')) := by
      simp [after, bumpWhile_eq, bump_eq h]
    rw [hafter, past_ahead] at hclosed
    obtain ⟨rest, hrest⟩ := List.head?_eq_some_iff.1
      (of_decide_eq_true (Bool.and_eq_true_iff.1 hclosed).2)
    have hahead : after.ahead = ']' :: rest := by rw [hafter, past_ahead, hrest]
    rw [h, LongBracket.body, if_pos rfl]
    simp only [if_pos hclosed]
    rw [bump_eq hahead, hafter, hrest]
    simp
  | case3 s cs after hclosed h ih =>
    have hafter : after = s.past (']' :: cs.takeWhile (· = '=')) (cs.dropWhile (· = '=')) := by
      simp [after, bumpWhile_eq, bump_eq h]
    rw [hafter, past_ahead] at hclosed ih
    rw [hafter, ih, h, LongBracket.body, if_pos rfl]
    simp only [if_neg hclosed]
    simp
  | case4 s c cs h hc ih =>
    rw [ih, h, LongBracket.body, if_neg hc]
    simp [bump_eq h]

theorem opening_plain (level : Nat) : (LongBracket.opening level).all isPlain = true := by
  have hsigns : (List.replicate level '=').all isPlain = true := by
    rw [List.all_replicate]
    split <;> rfl
  rw [LongBracket.opening, List.all_append, List.all_cons, hsigns]
  decide

theorem bracket_eq {level : Nat} (h : LongBracket.level? s.ahead = some level) :
    s.bracket level = s.past (LongBracket.bracket level s.ahead).text
      (LongBracket.bracket level s.ahead).rest := by
  obtain ⟨text, htext⟩ := LongBracket.exists_opening h
  have hlength : level + 2 = (LongBracket.opening level).length := by simp [LongBracket.opening]
  rw [bracket, hlength, jump_eq _ htext (opening_plain level), longBody_eq, past_past, past_ahead,
    htext, LongBracket.bracket_opening]

theorem longString_eq (h : s.ahead = '[' :: cs) :
    s.longString = s.past (LongBracket.scan s.ahead).text (LongBracket.scan s.ahead).rest := by
  rw [longString, LongBracket.scan]
  cases hlevel : LongBracket.level? s.ahead with
  | none => simp [bumpWhile_eq, bump_eq h, h, Lexeme.malformed]
  | some level =>
    dsimp only
    rw [bracket_eq hlevel]
    split <;> rfl

/-! ### Numerals -/

/-- An exponent, from its mark on. -/
def exponent (base : Numeral.Base) (s : Reader) : Reader :=
  if s.ahead.head?.any base.isMark then
    (s.bump.bumpIf fun c => c = '+' || c = '-').bumpWhile Char.isDigit
  else s

def fraction (base : Numeral.Base) (s : Reader) : Reader :=
  if s.ahead.head? = some '.' then s.bump.bumpWhile base.isDigit else s

def lead (s : Reader) : Reader :=
  if (Numeral.splitBase s.ahead).1 = .hex then s.jump 2 else s

def numeral (s : Reader) : Reader :=
  let base := (Numeral.splitBase s.ahead).1
  (((s.lead.bumpWhile base.isDigit).fraction base).exponent base).bumpWhile Numeral.isTail

theorem lead_eq (s : Reader) :
    s.lead = s.past (Numeral.splitBase s.ahead).2.1 (Numeral.splitBase s.ahead).2.2 := by
  unfold lead Numeral.splitBase
  split
  · next cs h => exact jump_eq ['0', 'x'] h (by decide)
  · next cs h => exact jump_eq ['0', 'X'] h (by decide)
  · exact past_nil rfl

theorem fraction_eq (base : Numeral.Base) (s : Reader) :
    s.fraction base = s.past (Numeral.splitFraction base s.ahead).1
      (Numeral.splitFraction base s.ahead).2 := by
  unfold fraction Numeral.splitFraction
  split
  · next hdot =>
    obtain ⟨cs, hcs⟩ := List.head?_eq_some_iff.1 hdot
    simp [hcs, bumpWhile_eq, bump_eq hcs]
  · next hdot =>
    split
    · next cs hcs => exact absurd (by rw [hcs]; rfl) hdot
    · exact past_nil rfl

theorem sign_eq (s : Reader) :
    s.bumpIf (fun c => c = '+' || c = '-')
      = s.past (Numeral.splitSign s.ahead).1 (Numeral.splitSign s.ahead).2 := by
  rw [bumpIf, bumpUpTo_eq]
  unfold Numeral.splitSign
  split
  · next cs h => simp [h]
  · next cs h => simp [h]
  · next hplus hminus =>
    cases h : s.ahead with
    | nil => rfl
    | cons c cs =>
      have hc : c ≠ '+' ∧ c ≠ '-' :=
        ⟨fun hc => hplus cs (hc ▸ h), fun hc => hminus cs (hc ▸ h)⟩
      simp [hc]

theorem exponent_eq (base : Numeral.Base) (s : Reader) :
    s.exponent base = s.past (Numeral.splitExponent base s.ahead).1
      (Numeral.splitExponent base s.ahead).2 := by
  unfold exponent
  cases h : s.ahead with
  | nil => exact past_nil h
  | cons c cs =>
    rw [Numeral.splitExponent, List.head?_cons, Option.any_some]
    split
    · simp [sign_eq, bumpWhile_eq, bump_eq h]
    · exact past_nil h

theorem numeral_eq (s : Reader) :
    s.numeral = s.past (Numeral.scan s.ahead).text (Numeral.scan s.ahead).rest := by
  simp only [numeral, bumpWhile_eq, exponent_eq, fraction_eq, lead_eq, past_past, past_ahead,
    Numeral.scan]
  split <;> simp [Lexeme.plain, Lexeme.malformed]

/-! ### Gaps -/

/-- After the two dashes of a comment. -/
def comment (s : Reader) : Reader :=
  match LongBracket.level? s.ahead with
  | some level => s.bracket level
  | none => s.bumpWhile (· ≠ '\n')

/-- A run of blanks or a comment. -/
def piece? (s : Reader) : Option Reader :=
  match s.ahead with
  | [] => none
  | c :: cs =>
    if Text.isSpace c then some (s.bumpWhile Text.isSpace)
    else if c = '-' && cs.head? = some '-' then some (s.jump 2).comment
    else none

theorem comment_eq (h : s.ahead = '-' :: '-' :: cs) :
    (s.jump 2).comment = s.past (Gap.comment cs).text (Gap.comment cs).rest := by
  have hdashes : s.jump 2 = s.past ['-', '-'] cs :=
    jump_eq ['-', '-'] h (by decide)
  rw [hdashes, comment, past_ahead, Gap.comment]
  cases hlevel : LongBracket.level? cs with
  | none => simp [bumpWhile_eq]
  | some level => simp [bracket_eq (s := s.past ['-', '-'] cs) hlevel]

theorem piece?_eq (s : Reader) :
    s.piece? = (Gap.piece? s.ahead).map fun piece => s.past piece.text piece.rest := by
  unfold piece? Gap.piece?
  cases h : s.ahead with
  | nil => rfl
  | cons c cs =>
    dsimp only
    split
    · next hblank => simp [bumpWhile_eq, h, hblank]
    split
    · next hdashes =>
      obtain ⟨rfl, hhead⟩ : c = '-' ∧ cs.head? = some '-' := by simpa using hdashes
      obtain ⟨tail, rfl⟩ := List.head?_eq_some_iff.1 hhead
      exact congrArg some (comment_eq h)
    · next hdashes =>
      split
      · next tail => exact absurd rfl hdashes
      · rfl

/-- Goes to the front of the next token, or to the end of the text. -/
def gap (s : Reader) : Reader :=
  match _h : s.piece? with
  | none => s
  | some after => gap after
termination_by s.ahead.length
decreasing_by
  obtain ⟨piece, hpiece, rfl⟩ := Option.map_eq_some_iff.1 ((piece?_eq s).symm.trans _h)
  exact Gap.piece?_rest_length_lt hpiece

/-- The reader stops where the gap does. -/
theorem gap_eq (s : Reader) :
    ∃ front, front ++ (Gap.ofChars s.offset s.ahead).rest = s.ahead
      ∧ s.gap = s.past front (Gap.ofChars s.offset s.ahead).rest
      ∧ s.gap.offset = (Gap.ofChars s.offset s.ahead).stop := by
  fun_induction gap s with
  | case1 s h =>
    have hpiece : Gap.piece? s.ahead = none :=
      Option.map_eq_none_iff.1 ((piece?_eq s).symm.trans h)
    rw [Gap.ofChars_of_none hpiece]
    exact ⟨[], rfl, past_nil rfl, rfl⟩
  | case2 s after h ih =>
    obtain ⟨piece, hpiece, rfl⟩ := Option.map_eq_some_iff.1 ((piece?_eq s).symm.trans h)
    obtain ⟨front, happend, hgap, hstop⟩ := ih
    rw [Gap.ofChars_of_some hpiece]
    rw [past_past] at hgap
    refine ⟨piece.text ++ front, ?_, hgap, hstop⟩
    rw [← Gap.piece?_append hpiece, List.append_assoc]
    exact congrArg _ happend

end Reader

end LuaFront
