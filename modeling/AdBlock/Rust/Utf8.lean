import AdBlock.Rust.Slice

/-!
# Decoding of UTF-8

Byte strings are decoded with every maximal ill-formed part replaced by U+FFFD (`fromUtf8Lossy`).
Each round of the decoder reads one character or one ill-formed part (`scan`), and bytes missing at
the end are read as zero, which continues no character.  On the bytes of a text the decoder reads
the characters that were encoded (`scan_utf8EncodeChar`), and so gives the text back
(`fromUtf8Lossy_asBytes`).
-/

namespace Bytes

/-- The byte at a position, or zero after the end. -/
def safeGet (bytes : Bytes) (i : ℕ) : ℕ :=
  (bytes.getD i 0).toNat

/-- The number of bytes of a character by its first byte, or zero if no character begins with it. -/
def utf8CharWidth (b : ℕ) : ℕ :=
  if b < 0x80 then 1
  else if b < 0xC2 then 0
  else if b < 0xE0 then 2
  else if b < 0xF0 then 3
  else if b < 0xF5 then 4
  else 0

/-- Whether the byte continues a character. -/
def isContinuation (b : ℕ) : Bool :=
  0x80 ≤ b && b ≤ 0xBF

/-- Whether the second byte can follow the first in a character of three bytes: overlong forms and
surrogates are excluded. -/
def isSecondOfThree (first second : ℕ) : Bool :=
  if first = 0xE0 then 0xA0 ≤ second && second ≤ 0xBF
  else if first = 0xED then 0x80 ≤ second && second ≤ 0x9F
  else isContinuation second

/-- Whether the second byte can follow the first in a character of four bytes: overlong forms and
numbers past U+10FFFF are excluded. -/
def isSecondOfFour (first second : ℕ) : Bool :=
  if first = 0xF0 then 0x90 ≤ second && second ≤ 0xBF
  else if first = 0xF4 then 0x80 ≤ second && second ≤ 0x8F
  else isContinuation second

/-- The character at the beginning, or `none` if the bytes there are ill-formed, and the number of
bytes read. -/
def scan (bytes : Bytes) : Option Char × ℕ :=
  let first := safeGet bytes 0
  let second := safeGet bytes 1
  let third := safeGet bytes 2
  let fourth := safeGet bytes 3
  match utf8CharWidth first with
  | 1 => (some (Char.ofNat first), 1)
  | 2 =>
      if !isContinuation second then (none, 1)
      else (some (Char.ofNat (first % 32 * 64 + second % 64)), 2)
  | 3 =>
      if !isSecondOfThree first second then (none, 1)
      else if !isContinuation third then (none, 2)
      else (some (Char.ofNat (first % 16 * 4096 + second % 64 * 64 + third % 64)), 3)
  | 4 =>
      if !isSecondOfFour first second then (none, 1)
      else if !isContinuation third then (none, 2)
      else if !isContinuation fourth then (none, 3)
      else
        (some (Char.ofNat
          (first % 8 * 262144 + second % 64 * 4096 + third % 64 * 64 + fourth % 64)), 4)
  | _ => (none, 1)

/-- Decode at most `fuel` characters and ill-formed parts. -/
def fromUtf8LossyFrom : ℕ → Bytes → Text
  | 0, _ => []
  | fuel + 1, bytes =>
      if bytes.isEmpty then []
      else (scan bytes).1.getD '\ufffd' :: fromUtf8LossyFrom fuel (bytes.drop (scan bytes).2)

/-- `String::from_utf8_lossy`: every round reads a byte at least. -/
def fromUtf8Lossy (bytes : Bytes) : Text :=
  fromUtf8LossyFrom bytes.length bytes

/-! ### The bytes of a text -/

@[simp]
theorem safeGet_cons_zero (b : UInt8) (bytes : Bytes) :
  safeGet (b :: bytes) 0 = b.toNat
  := rfl

@[simp]
theorem safeGet_cons_succ (b : UInt8) (bytes : Bytes) (i : ℕ) :
  safeGet (b :: bytes) (i + 1) = safeGet bytes i
  := rfl

theorem scan_of_one {bytes : Bytes} (hwidth : utf8CharWidth (safeGet bytes 0) = 1) :
  scan bytes = (some (Char.ofNat (safeGet bytes 0)), 1)
  := by
  simp only [scan, hwidth]

theorem scan_of_two {bytes : Bytes} (hwidth : utf8CharWidth (safeGet bytes 0) = 2)
    (hsecond : isContinuation (safeGet bytes 1)) :
  scan bytes = (some (Char.ofNat (safeGet bytes 0 % 32 * 64 + safeGet bytes 1 % 64)), 2)
  := by
  simp only [scan, hwidth, hsecond, Bool.not_true, Bool.false_eq_true, if_false]

theorem scan_of_three {bytes : Bytes} (hwidth : utf8CharWidth (safeGet bytes 0) = 3)
    (hsecond : isSecondOfThree (safeGet bytes 0) (safeGet bytes 1))
    (hthird : isContinuation (safeGet bytes 2)) :
  scan bytes = (some (Char.ofNat
    (safeGet bytes 0 % 16 * 4096 + safeGet bytes 1 % 64 * 64 + safeGet bytes 2 % 64)), 3)
  := by
  simp only [scan, hwidth, hsecond, hthird, Bool.not_true, Bool.false_eq_true, if_false]

theorem scan_of_four {bytes : Bytes} (hwidth : utf8CharWidth (safeGet bytes 0) = 4)
    (hsecond : isSecondOfFour (safeGet bytes 0) (safeGet bytes 1))
    (hthird : isContinuation (safeGet bytes 2)) (hfourth : isContinuation (safeGet bytes 3)) :
  scan bytes = (some (Char.ofNat
    (safeGet bytes 0 % 8 * 262144 + safeGet bytes 1 % 64 * 4096 + safeGet bytes 2 % 64 * 64
      + safeGet bytes 3 % 64)), 4)
  := by
  simp only [scan, hwidth, hsecond, hthird, hfourth, Bool.not_true, Bool.false_eq_true, if_false]

theorem isContinuation_of_low (n : ℕ) :
  isContinuation (n % 64 + 128)
  := by
  simp only [isContinuation, Bool.and_eq_true, decide_eq_true_eq]
  omega

/-- The decoder reads an encoded character whole. -/
theorem scan_utf8EncodeChar (c : Char) (bytes : Bytes) :
  scan (String.utf8EncodeChar c ++ bytes) = (some c, (String.utf8EncodeChar c).length)
  := by
  have hvalid : c.toNat < 55296 ∨ 57343 < c.toNat ∧ c.toNat < 1114112 := c.valid
  have htoNat (n : ℕ) (hn : n < 256) : (UInt8.ofNat n).toNat = n := by
    rw [UInt8.toNat_ofNat', Nat.mod_eq_of_lt hn]
  have hchar (n : ℕ) (hn : n = c.toNat) : Char.ofNat n = c := by
    rw [hn, Char.ofNat_toNat]
  -- The cases are those of the encoder: the number of the character decides how many bytes it has.
  simp only [String.utf8EncodeChar, ← Char.toNat.eq_1]
  by_cases hone : c.toNat ≤ 127
  · rw [if_pos hone, List.singleton_append, scan_of_one]
    all_goals simp only [safeGet_cons_zero, htoNat c.toNat (by omega)]
    · rw [hchar _ rfl, List.length_singleton]
    · rw [utf8CharWidth, if_pos (by omega)]
  rw [if_neg hone]
  by_cases htwo : c.toNat ≤ 2047
  · rw [if_pos htwo, scan_of_two]
    all_goals simp only [List.cons_append, safeGet_cons_zero, safeGet_cons_succ,
      htoNat (c.toNat / 64 % 32 + 192) (by omega), htoNat (c.toNat % 64 + 128) (by omega)]
    · rw [hchar _ (by omega)]
      rfl
    · rw [utf8CharWidth]
      split_ifs <;> omega
    · apply isContinuation_of_low
  rw [if_neg htwo]
  by_cases hthree : c.toNat ≤ 65535
  · rw [if_pos hthree, scan_of_three]
    all_goals simp only [List.cons_append, safeGet_cons_zero, safeGet_cons_succ,
      htoNat (c.toNat / 4096 % 16 + 224) (by omega), htoNat (c.toNat / 64 % 64 + 128) (by omega),
      htoNat (c.toNat % 64 + 128) (by omega)]
    · rw [hchar _ (by omega)]
      rfl
    · rw [utf8CharWidth]
      split_ifs <;> omega
    · rw [isSecondOfThree, isContinuation]
      split_ifs <;> simp only [Bool.and_eq_true, decide_eq_true_eq] <;> omega
    · apply isContinuation_of_low
  rw [if_neg hthree, scan_of_four]
  all_goals simp only [List.cons_append, safeGet_cons_zero, safeGet_cons_succ,
    htoNat (c.toNat / 262144 % 8 + 240) (by omega), htoNat (c.toNat / 4096 % 64 + 128) (by omega),
    htoNat (c.toNat / 64 % 64 + 128) (by omega), htoNat (c.toNat % 64 + 128) (by omega)]
  · rw [hchar _ (by omega)]
    rfl
  · rw [utf8CharWidth]
    split_ifs <;> omega
  · rw [isSecondOfFour, isContinuation]
    split_ifs <;> simp only [Bool.and_eq_true, decide_eq_true_eq] <;> omega
  · apply isContinuation_of_low
  · apply isContinuation_of_low

theorem fromUtf8LossyFrom_asBytes {fuel : ℕ} {s : Text} (hfuel : (Text.asBytes s).length ≤ fuel) :
  fromUtf8LossyFrom fuel (Text.asBytes s) = s
  := by
  induction s generalizing fuel with
  | nil => cases fuel <;> rfl
  | cons c s ih =>
    have hsplit : Text.asBytes (c :: s) = String.utf8EncodeChar c ++ Text.asBytes s :=
      List.flatMap_cons
    have hsize := c.utf8Size_pos
    rw [hsplit, List.length_append, String.length_utf8EncodeChar] at hfuel
    obtain ⟨fuel, rfl⟩ : ∃ n, fuel = n + 1 := ⟨fuel - 1, by omega⟩
    have hne : (String.utf8EncodeChar c ++ Text.asBytes s).isEmpty = false := by
      rw [List.isEmpty_eq_false_iff_exists_mem, ← List.length_pos_iff_exists_mem,
        List.length_append, String.length_utf8EncodeChar]
      omega
    rw [hsplit, fromUtf8LossyFrom, hne, scan_utf8EncodeChar, List.drop_left, ih (by omega)]
    rfl

/-- The decoder gives a text back from its bytes. -/
theorem fromUtf8Lossy_asBytes (s : Text) :
  fromUtf8Lossy (Text.asBytes s) = s
  := fromUtf8LossyFrom_asBytes le_rfl

end Bytes
