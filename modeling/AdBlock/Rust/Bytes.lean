import Mathlib.Tactic.Common
import Mathlib.Tactic.Ring

/-!
# Bytes

Byte strings, and the little-endian form of an unsigned integer of a given number of bytes.
-/

/-- A string of bytes. -/
abbrev Bytes := List UInt8

namespace Bytes

/-- The lowest `width` bytes of `n`, the lowest first. -/
def littleEndian : (width n : Nat) → Bytes
  | 0, _ => []
  | width + 1, n => UInt8.ofNat n :: littleEndian width (n / 256)

/-- The number with the given bytes, the lowest first. -/
def ofLittleEndian : Bytes → Nat
  | [] => 0
  | b :: bytes => b.toNat + 256 * ofLittleEndian bytes

@[simp]
theorem length_littleEndian (width n : Nat) :
  (littleEndian width n).length = width
  := by
  induction width generalizing n with
  | zero => rfl
  | succ width ih => simp [littleEndian, ih]

/-- The bytes of a number give back its remainder by the power they can hold. -/
theorem ofLittleEndian_littleEndian (width n : Nat) :
  ofLittleEndian (littleEndian width n) = n % 256 ^ width
  := by
  induction width generalizing n with
  | zero => simp [littleEndian, ofLittleEndian, Nat.mod_one]
  | succ width ih =>
    have hbyte : (UInt8.ofNat n).toNat = n % 256 := UInt8.toNat_ofNat'
    rw [littleEndian, ofLittleEndian, ih, hbyte, pow_succ', Nat.mod_mul]

/-- `u64::to_le_bytes`. -/
def ofUInt64 (n : UInt64) : Bytes := littleEndian 8 n.toNat

/-- `u64::from_le_bytes`, on the first eight bytes. -/
def toUInt64 (bytes : Bytes) : UInt64 := UInt64.ofNat (ofLittleEndian (bytes.take 8))

/-- The first eight bytes of a string that starts with the bytes of `n` give back `n`. -/
@[simp]
theorem toUInt64_ofUInt64_append (n : UInt64) (rest : Bytes) :
  toUInt64 (ofUInt64 n ++ rest) = n
  := by
  have htake : (ofUInt64 n ++ rest).take 8 = ofUInt64 n := by
    rw [List.take_append_of_le_length (by simp [ofUInt64]), List.take_of_length_le]
    simp [ofUInt64]
  rw [toUInt64, htake, ofUInt64, ofLittleEndian_littleEndian]
  apply UInt64.toNat_inj.mp
  have hlt := n.toNat_lt
  rw [UInt64.toNat_ofNat', Nat.mod_mod_of_dvd _ (by norm_num), Nat.mod_eq_of_lt hlt]

/-- What follows the bytes of a `u64`. -/
@[simp]
theorem drop_ofUInt64_append (n : UInt64) (rest : Bytes) :
  (ofUInt64 n ++ rest).drop 8 = rest
  := List.drop_left' (length_littleEndian 8 n.toNat)

end Bytes
