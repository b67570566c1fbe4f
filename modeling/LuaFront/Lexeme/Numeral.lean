import LuaFront.Lexeme.Word

/-!
Numerals: digits with an optional fraction and an optional exponent, in base ten or, after `0x`,
in base sixteen. A numeral runs on through letters, digits, underscores and dots, and is malformed
if anything is left over for them.
-/

namespace LuaFront.Numeral

inductive Base where
  | decimal
  | hex
  deriving DecidableEq

def isHexDigit (c : Char) : Bool :=
  c.isDigit || ('a' ≤ c && c ≤ 'f') || ('A' ≤ c && c ≤ 'F')

def Base.isDigit : Base → Char → Bool
  | decimal => Char.isDigit
  | hex => isHexDigit

/-- The letters that begin an exponent. -/
def Base.isMark : Base → Char → Bool
  | decimal, c => c = 'e' || c = 'E'
  | hex, c => c = 'p' || c = 'P'

/-! ### The parts of a numeral, each cut off the front of a text -/

def splitBase : List Char → Base × List Char × List Char
  | '0' :: 'x' :: cs => (.hex, ['0', 'x'], cs)
  | '0' :: 'X' :: cs => (.hex, ['0', 'X'], cs)
  | cs => (.decimal, [], cs)

/-- A dot and the digits after it. -/
def splitFraction (base : Base) : List Char → List Char × List Char
  | '.' :: cs => ('.' :: cs.takeWhile base.isDigit, cs.dropWhile base.isDigit)
  | cs => ([], cs)

def splitSign : List Char → List Char × List Char
  | '+' :: cs => (['+'], cs)
  | '-' :: cs => (['-'], cs)
  | cs => ([], cs)

/-- A mark, a sign and decimal digits, which may be missing. -/
def splitExponent (base : Base) : List Char → List Char × List Char
  | [] => ([], [])
  | c :: cs =>
    if base.isMark c then
      let (sign, cs) := splitSign cs
      (c :: sign ++ cs.takeWhile Char.isDigit, cs.dropWhile Char.isDigit)
    else ([], c :: cs)

/-- What a numeral takes along past its end. -/
def isTail (c : Char) : Bool := c = '.' || Word.isInner c

/-- Takes a numeral off a text that begins with a digit, or with a dot and a digit. -/
def scan (cs : List Char) : Lexeme :=
  let (base, lead, cs) := splitBase cs
  let whole := cs.takeWhile base.isDigit
  let (fraction, cs) := splitFraction base (cs.dropWhile base.isDigit)
  let (exponent, cs) := splitExponent base cs
  let tail := cs.takeWhile isTail
  let text := lead ++ whole ++ fraction ++ exponent ++ tail
  let rest := cs.dropWhile isTail
  if (whole ++ fraction).any base.isDigit
      && (exponent.isEmpty || exponent.any Char.isDigit) && tail.isEmpty then
    .plain .number text rest
  else .malformed "malformed number" text rest

/-! ### A numeral loses nothing -/

theorem splitBase_append (cs : List Char) : (splitBase cs).2.1 ++ (splitBase cs).2.2 = cs := by
  unfold splitBase
  split <;> rfl

theorem splitFraction_append (base : Base) (cs : List Char) :
    (splitFraction base cs).1 ++ (splitFraction base cs).2 = cs := by
  unfold splitFraction
  split <;> simp

theorem splitSign_append (cs : List Char) : (splitSign cs).1 ++ (splitSign cs).2 = cs := by
  unfold splitSign
  split <;> rfl

theorem splitExponent_append (base : Base) (cs : List Char) :
    (splitExponent base cs).1 ++ (splitExponent base cs).2 = cs := by
  unfold splitExponent
  split
  · rfl
  · next c cs =>
    split
    · simp [splitSign_append]
    · rfl

theorem scan_append (cs : List Char) : (scan cs).text ++ (scan cs).rest = cs := by
  have h₁ := splitBase_append cs
  have h₂ := List.takeWhile_append_dropWhile (p := (splitBase cs).1.isDigit)
    (l := (splitBase cs).2.2)
  have h₃ := splitFraction_append (splitBase cs).1
    ((splitBase cs).2.2.dropWhile (splitBase cs).1.isDigit)
  have h₄ := splitExponent_append (splitBase cs).1 (splitFraction (splitBase cs).1
    ((splitBase cs).2.2.dropWhile (splitBase cs).1.isDigit)).2
  unfold scan
  dsimp only
  split <;> simp [Lexeme.plain, Lexeme.malformed, h₁, h₂, h₃, h₄]

theorem not_isTail_of_rest {cs rest : List Char} {c : Char} (h : (scan cs).rest = c :: rest) :
    isTail c = false := by
  have hrest : ∃ ds, (scan cs).rest = List.dropWhile isTail ds := by
    unfold scan
    dsimp only
    split <;> exact ⟨_, rfl⟩
  obtain ⟨ds, hds⟩ := hrest
  have hne : ds.dropWhile isTail ≠ [] := by simp [← hds, h]
  have := List.head_dropWhile_not isTail hne
  simp_all

end LuaFront.Numeral
