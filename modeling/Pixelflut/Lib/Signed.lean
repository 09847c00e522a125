import Mathlib.Algebra.Group.Int.Defs
import Mathlib.Algebra.Group.Nat.Defs

/-!
# Signed machine arithmetic

Where nothing overflows, the operations of `Int64` and `Int32` are those of the
integers, and the conversions between signed and unsigned keep the value. A
difference that C takes between an unsigned and a signed value wraps around,
and comes back when it is converted to a signed one (`toInt64_sub`). `mulInt` is
refused where it overflows.
-/

namespace Lib.Signed

theorem bmod64_eq {n : Int} (hlo : -2 ^ 63 ≤ n) (hhi : n < 2 ^ 63) : n.bmod (2 ^ 64) = n :=
  Int.bmod_eq_of_le (by omega) (by omega)

theorem bmod32_eq {n : Int} (hlo : -2 ^ 31 ≤ n) (hhi : n < 2 ^ 31) : n.bmod (2 ^ 32) = n :=
  Int.bmod_eq_of_le (by omega) (by omega)

theorem add_toInt {a b : Int64} (hlo : -2 ^ 63 ≤ a.toInt + b.toInt)
    (hhi : a.toInt + b.toInt < 2 ^ 63) : (a + b).toInt = a.toInt + b.toInt := by
  rw [Int64.toInt_add, bmod64_eq hlo hhi]

theorem sub_toInt {a b : Int64} (hlo : -2 ^ 63 ≤ a.toInt - b.toInt)
    (hhi : a.toInt - b.toInt < 2 ^ 63) : (a - b).toInt = a.toInt - b.toInt := by
  rw [Int64.toInt_sub, bmod64_eq hlo hhi]

theorem mul_toInt {a b : Int64} (hlo : -2 ^ 63 ≤ a.toInt * b.toInt)
    (hhi : a.toInt * b.toInt < 2 ^ 63) : (a * b).toInt = a.toInt * b.toInt := by
  rw [Int64.toInt_mul, bmod64_eq hlo hhi]

/-- A value that is not negative is kept by a conversion to unsigned. -/
theorem toUInt64_toNat {v : Int64} (h : 0 ≤ v.toInt) : (v.toUInt64.toNat : Int) = v.toInt := by
  have hle : 0 ≤ v := Int64.le_iff_toInt_le.mpr h
  rw [Int64.toNat_toUInt64_of_le hle, Int64.cast_toNatClampNeg v hle]

theorem toInt64_toInt {u : UInt64} (h : u.toNat < 2 ^ 63) : u.toInt64.toInt = u.toNat := by
  calc
    u.toInt64.toInt = (Int64.ofNat u.toNat).toInt := by
      rw [← UInt64.toInt64_ofNat', UInt64.ofNat_toNat]
    _ = u.toNat := Int64.toInt_ofNat_of_lt h

/-- An unsigned difference, read as a signed one. -/
theorem toInt64_sub {u : UInt64} {v : Int64} (hu : u.toNat < 2 ^ 63)
    (hlo : -2 ^ 63 ≤ (u.toNat : Int) - v.toInt) (hhi : (u.toNat : Int) - v.toInt < 2 ^ 63) :
    (u - v.toUInt64).toInt64.toInt = u.toNat - v.toInt := by
  have hu' := toInt64_toInt hu
  rw [UInt64.toInt64_sub, Int64.toInt64_toUInt64]
  rw [← hu'] at hlo hhi ⊢
  exact sub_toInt hlo hhi

/-! ### 32 bits -/

theorem toUInt32_toNat {v : Int32} (h : 0 ≤ v.toInt) : (v.toUInt32.toNat : Int) = v.toInt := by
  have hle : 0 ≤ v := Int32.le_iff_toInt_le.mpr h
  rw [Int32.toNat_toUInt32_of_le hle, Int32.cast_toNatClampNeg v hle]

/-- Large values become negative. -/
theorem toInt32_toInt (u : UInt32) :
    u.toInt32.toInt = if u.toNat < 2 ^ 31 then (u.toNat : Int) else u.toNat - 2 ^ 32 := by
  have hlt := u.toNat_lt
  have hbmod : u.toInt32.toInt = (u.toNat : Int).bmod (2 ^ 32) := by
    rw [show u.toInt32 = Int32.ofNat u.toNat by rw [← UInt32.toInt32_ofNat', UInt32.ofNat_toNat]]
    exact Int32.toInt_ofNat'
  rw [hbmod, Int.bmod_def]
  split <;> split <;> omega

/-- A product in `int`, which must not overflow. -/
def mulInt (a b : Int32) : Option Int32 :=
  if -2 ^ 31 ≤ a.toInt * b.toInt ∧ a.toInt * b.toInt < 2 ^ 31 then some (a * b) else none

theorem mulInt_eq_some {a b c : Int32} (h : mulInt a b = some c) :
    c.toInt = a.toInt * b.toInt ∧ -2 ^ 31 ≤ a.toInt * b.toInt ∧ a.toInt * b.toInt < 2 ^ 31 := by
  simp only [mulInt, Option.ite_none_right_eq_some, Option.some.injEq] at h
  obtain ⟨⟨hlo, hhi⟩, rfl⟩ := h
  rw [Int32.toInt_mul, bmod32_eq hlo hhi]
  exact ⟨rfl, hlo, hhi⟩

end Lib.Signed
