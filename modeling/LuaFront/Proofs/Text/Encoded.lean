import LuaFront.Text.Utf8
import Mathlib.Data.List.TakeWhile
import Mathlib.Tactic.Lemma
import Mathlib.Tactic.SplitIfs

/-!
Characters come back from their bytes. A leading byte says how many bytes follow it and bounds the
first of them, which rules out the numbers of no character; the encoding of a character keeps all
of these bounds.
-/

namespace LuaFront.Text

variable {bytes more : List UInt8} {k m n lead count : Nat}

/-! ### Bytes as numbers -/

lemma toNat_ofNat (h : n < 256) : (UInt8.ofNat n).toNat = n := UInt8.toNat_ofNat_of_lt' h

lemma ofNat_le_ofNat (hm : m < 256) (hn : n < 256) : UInt8.ofNat m ≤ UInt8.ofNat n ↔ m ≤ n := by
  rw [UInt8.le_iff_toNat_le, toNat_ofNat hm, toNat_ofNat hn]

lemma ofNat_lt_ofNat (hm : m < 256) (hn : n < 256) : UInt8.ofNat m < UInt8.ofNat n ↔ m < n := by
  rw [UInt8.lt_iff_toNat_lt, toNat_ofNat hm, toNat_ofNat hn]

lemma ofNat_eq_ofNat (hm : m < 256) (hn : n < 256) : UInt8.ofNat m = UInt8.ofNat n ↔ m = n := by
  rw [← UInt8.toNat_inj, toNat_ofNat hm, toNat_ofNat hn]

lemma ofNat_within (hlow : k ≤ m) (hhigh : m ≤ n) (hbyte : n < 256) :
    (UInt8.ofNat k ≤ UInt8.ofNat m && UInt8.ofNat m ≤ UInt8.ofNat n) = true :=
  Bool.and_eq_true_iff.2
    ⟨decide_eq_true ((ofNat_le_ofNat (by omega) (by omega)).2 hlow),
      decide_eq_true ((ofNat_le_ofNat (by omega) (by omega)).2 hhigh)⟩

lemma isContinuation_ofNat (h : n < 64) : isContinuation (UInt8.ofNat (n + 128)) = true :=
  ofNat_within (k := 0x80) (n := 0xbf) (by omega) (by omega) (by omega)

/-- What a leading byte asks of the bytes after it. -/
lemma continuation?_ofNat (hn : n < 256) : continuation? (UInt8.ofNat n)
    = if n < 0xc2 then none
      else if n ≤ 0xdf then some (1, 0x80, 0xbf)
      else if n = 0xe0 then some (2, 0xa0, 0xbf)
      else if n = 0xed then some (2, 0x80, 0x9f)
      else if n ≤ 0xef then some (2, 0x80, 0xbf)
      else if n = 0xf0 then some (3, 0x90, 0xbf)
      else if n ≤ 0xf3 then some (3, 0x80, 0xbf)
      else if n = 0xf4 then some (3, 0x80, 0x8f)
      else none := by
  have hlt : ∀ k < 256, (UInt8.ofNat n < UInt8.ofNat k ↔ n < k) := fun k hk => ofNat_lt_ofNat hn hk
  have hle : ∀ k < 256, (UInt8.ofNat n ≤ UInt8.ofNat k ↔ n ≤ k) := fun k hk => ofNat_le_ofNat hn hk
  have heq : ∀ k < 256, (UInt8.ofNat n = UInt8.ofNat k ↔ n = k) := fun k hk => ofNat_eq_ofNat hn hk
  simp only [continuation?, ← hlt 0xc2 (by decide), ← hle 0xdf (by decide), ← heq 0xe0 (by decide),
    ← heq 0xed (by decide), ← hle 0xef (by decide), ← heq 0xf0 (by decide), ← hle 0xf3 (by decide),
    ← heq 0xf4 (by decide)]
  rfl

/-! ### Characters of several bytes -/

/-- A leading byte asks for `count` bytes, and `n` can be the first of them. -/
def Leads (lead count n : Nat) : Prop :=
  ∃ low high, continuation? (UInt8.ofNat lead) = some (count, UInt8.ofNat low, UInt8.ofNat high)
    ∧ low ≤ n ∧ n ≤ high ∧ high < 256

/-- Two bytes spell the numbers from 0x80 on. -/
lemma leads_one (hlead : 0xc2 ≤ lead ∧ lead ≤ 0xdf) (hn : n < 64) : Leads lead 1 (n + 128) := by
  refine ⟨0x80, 0xbf, ?_, by omega, by omega, by omega⟩
  rw [continuation?_ofNat (by omega), if_neg (by omega), if_pos (by omega)]
  rfl

/-- Three bytes spell the numbers from 0x800 on, but for the surrogates. -/
lemma leads_two (hlead : lead < 16) (hn : n < 64) (hshort : lead = 0 → 32 ≤ n)
    (hsurrogate : lead = 13 → n < 32) : Leads (lead + 224) 2 (n + 128) := by
  rw [Leads, continuation?_ofNat (by omega), if_neg (by omega), if_neg (by omega)]
  split_ifs with h₀ h₁ h₂
  · exact ⟨0xa0, 0xbf, rfl, by omega, by omega, by omega⟩
  · exact ⟨0x80, 0x9f, rfl, by omega, by omega, by omega⟩
  · exact ⟨0x80, 0xbf, rfl, by omega, by omega, by omega⟩
  all_goals omega

/-- Four bytes spell the numbers from 0x10000 up to the last one. -/
lemma leads_three (hlead : lead < 5) (hn : n < 64) (hshort : lead = 0 → 16 ≤ n)
    (hlast : lead = 4 → n < 16) : Leads (lead + 240) 3 (n + 128) := by
  rw [Leads, continuation?_ofNat (by omega), if_neg (by omega), if_neg (by omega),
    if_neg (by omega), if_neg (by omega), if_neg (by omega)]
  split_ifs with h₀ h₁ h₂
  · exact ⟨0x90, 0xbf, rfl, by omega, by omega, by omega⟩
  · exact ⟨0x80, 0xbf, rfl, by omega, by omega, by omega⟩
  · exact ⟨0x80, 0x8f, rfl, by omega, by omega, by omega⟩
  · omega

/-- The bytes after a leading byte, when they are what it asks for. -/
lemma followers_ofNat (h : Leads lead count n) (hcount : more.length + 1 = count)
    (hmore : ∀ b ∈ more, isContinuation b = true) :
    followers (UInt8.ofNat lead) (UInt8.ofNat n :: more ++ bytes)
      = (UInt8.ofNat n :: more, true) := by
  obtain ⟨low, high, hlead, hlow, hhigh, hbyte⟩ := h
  have htake : ((more ++ bytes).take (count - 1)).takeWhile isContinuation = more := by
    rw [← hcount, Nat.add_sub_cancel, List.take_left]
    exact List.takeWhile_eq_self_iff.2 hmore
  simp only [followers, hlead, List.cons_append]
  rw [if_pos (ofNat_within hlow hhigh hbyte), htake, decide_eq_true hcount]

/-- A character is read back from its leading byte and the bytes after it. -/
lemma decode_lead (c : Char) (more : List UInt8) (hlead : 0x80 ≤ lead ∧ lead < 256)
    (h : Leads lead count n) (hcount : more.length + 1 = count)
    (hmore : ∀ b ∈ more, isContinuation b = true)
    (hcode : codePoint (UInt8.ofNat lead) (UInt8.ofNat n :: more) = c.val.toNat) :
    decode (UInt8.ofNat lead :: (UInt8.ofNat n :: more ++ bytes)) = c :: decode bytes := by
  have hnot : ¬ UInt8.ofNat lead < 0x80 :=
    mt (ofNat_lt_ofNat (n := 0x80) hlead.2 (by omega)).1 (by omega)
  rw [decode, if_neg hnot]
  simp only [followers_ofNat h hcount hmore, if_true, List.drop_left]
  rw [hcode]
  congr 1
  exact Char.ofNat_toNat c

/-! ### Whole texts -/

/-- The numbers of characters. -/
lemma val_cases (c : Char) : c.val.toNat < 0xd800 ∨ 0xdfff < c.val.toNat ∧ c.val.toNat < 0x110000 :=
  c.valid

lemma decode_encodeChar (c : Char) :
    decode (String.utf8EncodeChar c ++ bytes) = c :: decode bytes := by
  have hvalid := val_cases c
  rw [String.utf8EncodeChar.eq_1]
  generalize hv : c.val.toNat = v at hvalid
  have hlast : isContinuation (UInt8.ofNat (v % 64 + 128)) = true :=
    isContinuation_ofNat (by omega)
  split_ifs with h₁ h₂ h₃
  · have hlt : UInt8.ofNat v < 0x80 :=
      (ofNat_lt_ofNat (n := 0x80) (by omega) (by omega)).2 (by omega)
    rw [List.singleton_append, decode, if_pos hlt, toNat_ofNat (by omega), ← hv]
    congr 1
    exact Char.ofNat_toNat c
  · have hlead : Leads (v / 64 % 32 + 192) 1 (v % 64 + 128) := leads_one (by omega) (by omega)
    refine decode_lead c [] (by omega) hlead rfl (List.forall_mem_nil _) ?_
    simp only [codePoint, List.length_singleton, List.foldl_cons, List.foldl_nil]
    rw [toNat_ofNat (by omega), toNat_ofNat (by omega)]
    omega
  · have hlead : Leads (v / 4096 % 16 + 224) 2 (v / 64 % 64 + 128) :=
      leads_two (by omega) (by omega) (by omega) (by omega)
    refine decode_lead c [_] (by omega) hlead rfl (List.forall_mem_singleton.2 hlast) ?_
    simp only [codePoint, List.length_cons, List.length_nil, List.foldl_cons, List.foldl_nil]
    rw [toNat_ofNat (by omega), toNat_ofNat (by omega), toNat_ofNat (by omega)]
    omega
  · have hlead : Leads (v / 262144 % 8 + 240) 3 (v / 4096 % 64 + 128) :=
      leads_three (by omega) (by omega) (by omega) (by omega)
    have hnext : isContinuation (UInt8.ofNat (v / 64 % 64 + 128)) = true :=
      isContinuation_ofNat (by omega)
    refine decode_lead c [_, _] (by omega) hlead rfl
      (List.forall_mem_cons.2 ⟨hnext, List.forall_mem_singleton.2 hlast⟩) ?_
    simp only [codePoint, List.length_cons, List.length_nil, List.foldl_cons, List.foldl_nil]
    rw [toNat_ofNat (by omega), toNat_ofNat (by omega), toNat_ofNat (by omega),
      toNat_ofNat (by omega)]
    omega

/-- **A text is read back from its bytes.** -/
theorem decode_encode (cs : List Char) : decode (encode cs) = cs := by
  induction cs with
  | nil => rw [encode, List.flatMap_nil, decode]
  | cons c cs ih =>
    rw [encode, List.flatMap_cons, decode_encodeChar]
    exact congrArg _ ih

end LuaFront.Text
