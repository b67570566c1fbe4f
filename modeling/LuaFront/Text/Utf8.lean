/-!
Reading bytes as UTF-8 where they may be no text at all. Each longest piece that begins like a
character and is none becomes one replacement character.
-/

namespace LuaFront.Text

/-- Stands for bytes that encode no character. -/
def replacement : Char := '\uFFFD'

def encode (cs : List Char) : List UInt8 := cs.flatMap String.utf8EncodeChar

/-- The continuation bytes 0x80 to 0xbf. -/
def isContinuation (b : UInt8) : Bool := 0x80 ≤ b && b ≤ 0xbf

/-- How many continuation bytes follow a leading byte, and the range of the first of them. -/
def continuation? (lead : UInt8) : Option (Nat × UInt8 × UInt8) :=
  if lead < 0xc2 then none
  else if lead ≤ 0xdf then some (1, 0x80, 0xbf)
  else if lead = 0xe0 then some (2, 0xa0, 0xbf)
  else if lead = 0xed then some (2, 0x80, 0x9f)
  else if lead ≤ 0xef then some (2, 0x80, 0xbf)
  else if lead = 0xf0 then some (3, 0x90, 0xbf)
  else if lead ≤ 0xf3 then some (3, 0x80, 0xbf)
  else if lead = 0xf4 then some (3, 0x80, 0x8f)
  else none

/-- The bytes after `lead` that can belong to the same character, and whether they complete it. -/
def followers (lead : UInt8) (bytes : List UInt8) : List UInt8 × Bool :=
  match continuation? lead, bytes with
  | some (count, low, high), b :: rest =>
    if low ≤ b && b ≤ high then
      let more := (rest.take (count - 1)).takeWhile isContinuation
      (b :: more, more.length + 1 = count)
    else ([], false)
  | _, _ => ([], false)

/-- The code point that a leading byte and its followers spell. -/
def codePoint (lead : UInt8) (tail : List UInt8) : Nat :=
  let top := match tail.length with
    | 1 => lead.toNat % 0x20
    | 2 => lead.toNat % 0x10
    | _ => lead.toNat % 0x08
  tail.foldl (fun value b => value * 0x40 + b.toNat % 0x40) top

/-- Reads bytes as characters. -/
def decode : List UInt8 → List Char
  | [] => []
  | b :: bytes =>
    if b < 0x80 then Char.ofNat b.toNat :: decode bytes
    else
      let tail := followers b bytes
      (if tail.2 then Char.ofNat (codePoint b tail.1) else replacement)
        :: decode (bytes.drop tail.1.length)
termination_by bytes => bytes.length
decreasing_by all_goals simp only [List.length_drop, List.length_cons]; omega

end LuaFront.Text
