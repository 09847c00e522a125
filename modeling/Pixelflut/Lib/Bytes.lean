import Mathlib.Algebra.Group.Nat.Defs
import Mathlib.Data.Nat.Basic
import Mathlib.Algebra.Group.Int.Defs
import Mathlib.Data.Int.Basic

/-!
# Words made of bytes

C promotes a byte to a 32-bit `int` before it shifts it. `promote` is that
step, `Int32` the two's complement `int`. The lemmas evaluate the two usual
ways to put bytes together, sums and disjunctions of shifted bytes: both give
the positional value, also where the shifted byte fills the sign bit.

`lowByte` goes the other way: the conversion of an `int`, which may be negative,
to a byte. Shifts of an `int` to the right are arithmetic.
-/

namespace Lib.Bytes

/-- The integer promotion of a byte. -/
def promote (b : UInt8) : Int32 := b.toUInt32.toInt32

theorem promote_toNat (b : UInt8) : (promote b).toUInt32.toNat = b.toNat := by
  show b.toUInt32.toNat = b.toNat
  exact UInt8.toNat_toUInt32 b

theorem promote_8_toNat (b : UInt8) : (promote b <<< 8).toUInt32.toNat = b.toNat * 2 ^ 8 := by
  have := b.toNat_lt
  show (b.toUInt32 <<< 8).toNat = b.toNat * 2 ^ 8
  simp only [UInt32.toNat_shiftLeft, UInt8.toNat_toUInt32, Nat.shiftLeft_eq, UInt32.reduceToNat,
    Nat.reduceMod]
  omega

theorem promote_16_toNat (b : UInt8) : (promote b <<< 16).toUInt32.toNat = b.toNat * 2 ^ 16 := by
  have := b.toNat_lt
  show (b.toUInt32 <<< 16).toNat = b.toNat * 2 ^ 16
  simp only [UInt32.toNat_shiftLeft, UInt8.toNat_toUInt32, Nat.shiftLeft_eq, UInt32.reduceToNat,
    Nat.reduceMod]
  omega

/-- The top bit of the byte becomes the sign bit. -/
theorem promote_24_toNat (b : UInt8) : (promote b <<< 24).toUInt32.toNat = b.toNat * 2 ^ 24 := by
  have := b.toNat_lt
  show (b.toUInt32 <<< 24).toNat = b.toNat * 2 ^ 24
  simp only [UInt32.toNat_shiftLeft, UInt8.toNat_toUInt32, Nat.shiftLeft_eq, UInt32.reduceToNat,
    Nat.reduceMod]
  omega

/-- Two bytes, the high one first, added up. -/
theorem sum16_toNat (a b : UInt8) :
    ((promote a <<< 8) + promote b).toUInt32.toNat = a.toNat * 2 ^ 8 + b.toNat := by
  have := a.toNat_lt
  have := b.toNat_lt
  simp only [Int32.toUInt32_add, UInt32.toNat_add, promote_toNat, promote_8_toNat]
  omega

/-- Three bytes on top of an empty low byte, added up. -/
theorem sum32_toNat (a b c : UInt8) :
    ((promote a <<< 24) + (promote b <<< 16) + (promote c <<< 8)).toUInt32.toNat =
      a.toNat * 2 ^ 24 + b.toNat * 2 ^ 16 + c.toNat * 2 ^ 8 := by
  have := a.toNat_lt
  have := b.toNat_lt
  have := c.toNat_lt
  simp only [Int32.toUInt32_add, UInt32.toNat_add, promote_8_toNat, promote_16_toNat,
    promote_24_toNat]
  omega

/-- Bytes that do not overlap may be disjoined as well as added. -/
theorem or_eq_add {i a b : Nat} (h : b < 2 ^ i) : a * 2 ^ i ||| b = a * 2 ^ i + b := by
  rw [← Nat.shiftLeft_eq, Nat.shiftLeft_add_eq_or_of_lt h]

theorem or16_toNat (a b : UInt8) :
    ((promote a <<< 8) ||| promote b).toUInt32.toNat = a.toNat * 2 ^ 8 + b.toNat := by
  simp only [Int32.toUInt32_or, UInt32.toNat_or, promote_toNat, promote_8_toNat]
  exact or_eq_add b.toNat_lt

theorem or32_toNat (a b c : UInt8) :
    ((promote a <<< 24) ||| (promote b <<< 16) ||| (promote c <<< 8)).toUInt32.toNat =
      a.toNat * 2 ^ 24 + b.toNat * 2 ^ 16 + c.toNat * 2 ^ 8 := by
  have hb := b.toNat_lt
  have hc := c.toNat_lt
  simp only [Int32.toUInt32_or, UInt32.toNat_or, promote_8_toNat, promote_16_toNat,
    promote_24_toNat]
  have hab : a.toNat * 2 ^ 24 ||| b.toNat * 2 ^ 16 = (a.toNat * 2 ^ 8 + b.toNat) * 2 ^ 16 := by
    rw [or_eq_add (by omega)]
    omega
  rw [hab, or_eq_add (by omega)]
  omega

/-! ## Bytes of a word -/

/-- The conversion of an `int` to `uint8_t`. -/
def lowByte (v : Int32) : UInt8 := v.toUInt32.toUInt8

/-- The low bits of an `int` are those of its two's complement. -/
theorem toInt_emod (v : Int32) {i : Nat} (hi : i ≤ 32) :
    v.toInt % 2 ^ i = (v.toUInt32.toNat : Int) % 2 ^ i := by
  have hdvd : (2 : Int) ^ i ∣ ((2 ^ 32 : Nat) : Int) := by
    exact_mod_cast Nat.pow_dvd_pow 2 hi
  show v.toBitVec.toInt % 2 ^ i = (v.toBitVec.toNat : Int) % 2 ^ i
  rw [BitVec.toInt_eq_toNat_bmod, ← Int.emod_emod_of_dvd _ hdvd, Int.bmod_emod,
    Int.emod_emod_of_dvd _ hdvd]

theorem lowByte_toNat (v : Int32) : ((lowByte v).toNat : Int) = v.toInt % 2 ^ 8 := by
  rw [toInt_emod v (by decide), lowByte, UInt32.toNat_toUInt8]
  omega

/-- The arithmetic shift does not disturb the byte that it brings down. -/
theorem lowByte_shiftRight_toNat (v : Int32) :
    ((lowByte (v >>> 8)).toNat : Int) = v.toInt / 2 ^ 8 % 2 ^ 8 := by
  have hshift : (v >>> 8).toInt = v.toInt / 2 ^ 8 := by
    show (v.toBitVec.sshiftRight 8).toInt = v.toBitVec.toInt / 2 ^ 8
    rw [BitVec.toInt_sshiftRight, Int.shiftRight_eq_div_pow]
    rfl
  rw [lowByte_toNat, hshift]

/-- Clearing the low byte, as a mask and by value. -/
theorem clear_low_byte_toNat (v : UInt32) :
    (v &&& (0xFFFFFF00 : UInt32)).toNat = v.toNat / 2 ^ 8 * 2 ^ 8 := by
  have hmask : v &&& (0xFFFFFF00 : UInt32) = v >>> 8 <<< 8 := by
    apply UInt32.toBitVec_inj.mp
    show v.toBitVec &&& 0xFFFFFF00#32 = v.toBitVec >>> 8 <<< 8
    rw [BitVec.shiftLeft_ushiftRight]
    rfl
  have := v.toNat_lt
  rw [hmask, UInt32.toNat_shiftLeft, UInt32.toNat_shiftRight, Nat.shiftRight_eq_div_pow,
    Nat.shiftLeft_eq]
  exact Nat.mod_eq_of_lt (by simp only [UInt32.reduceToNat, Nat.reduceMod]; omega)

end Lib.Bytes
