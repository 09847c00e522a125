import Mathlib.Data.Nat.Bitwise
import Mathlib.Data.Nat.Log
import Mathlib.Algebra.Group.Nat.Defs

/-!
# Counters that wrap

A 32-bit counter that is advanced again and again holds its count modulo
`2 ^ 32`. As long as two counts are less than `2 ^ 32` apart, their counters tell
them apart (`ofNat_inj`) and the difference of the counters is the difference of
the counts (`sub_ofNat_toNat`).

A table of `2 ^ k` cells is addressed by the low `k` bits of a count: `and_mask`
says which cell that is, and `slot_inj` that a window no longer than the table
never meets a cell twice. `and_not_mask` is about the other bits.

`Spreads` is about filling a word with ones below its highest bit, by shifts of
doubling length; `spreads_eq` says what is reached.
-/

namespace Lib.Wrapping

/-! ## Counts -/

theorem ofNat_inj {a b : Nat} (hle : a ≤ b) (hlt : b - a < 2 ^ 32)
    (h : UInt32.ofNat a = UInt32.ofNat b) : a = b := by
  have hmod := congrArg UInt32.toNat h
  simp only [UInt32.toNat_ofNat'] at hmod
  omega

/-- **The distance of two counters.** -/
theorem sub_ofNat_toNat {a b : Nat} (hle : a ≤ b) (hlt : b - a < 2 ^ 32) :
    (UInt32.ofNat b - UInt32.ofNat a).toNat = b - a := by
  rw [UInt32.toNat_sub]
  simp only [UInt32.toNat_ofNat']
  omega

theorem ofNat_add_toNat (a : Nat) (n : UInt32) :
    UInt32.ofNat a + n = UInt32.ofNat (a + n.toNat) := by
  apply UInt32.toNat_inj.mp
  rw [UInt32.toNat_add]
  simp only [UInt32.toNat_ofNat']
  omega

/-! ## Tables of a power of two -/

/-- The cell of the count `a`. -/
theorem and_mask {k : Nat} (hk : k ≤ 32) {mask : UInt32} (hmask : mask.toNat = 2 ^ k - 1)
    (a : Nat) : (UInt32.ofNat a &&& mask).toNat = a % 2 ^ k := by
  rw [UInt32.toNat_and, hmask, Nat.and_two_pow_sub_one_eq_mod, UInt32.toNat_ofNat']
  exact Nat.mod_mod_of_dvd a (Nat.pow_dvd_pow 2 hk)

/-- The low `k` bits are cut off. -/
theorem and_not_mask {k : Nat} (hk : k ≤ 32) {mask : UInt32} (hmask : mask.toNat = 2 ^ k - 1)
    (v : UInt32) : (v &&& ~~~mask).toNat = v.toNat / 2 ^ k * 2 ^ k := by
  have hv := v.toNat_lt
  have hlt : 2 ^ k - 1 < 2 ^ 32 := by
    have hle := Nat.pow_le_pow_right (show 0 < 2 by decide) hk
    have hpos := Nat.two_pow_pos k
    omega
  have hnot : UInt32.size - 1 - (2 ^ k - 1) = 2 ^ 32 - (2 ^ k - 1 + 1) := by
    rw [UInt32.size]
    omega
  rw [UInt32.toNat_and, UInt32.toNat_not, hmask, hnot]
  apply Nat.eq_of_testBit_eq
  intro i
  rw [Nat.testBit_and, Nat.testBit_two_pow_sub_succ hlt, Nat.testBit_two_pow_sub_one,
    Nat.testBit_mul_two_pow, Nat.testBit_div_two_pow]
  by_cases hi : i < k
  · simp [hi]
  · have hle : k ≤ i := Nat.le_of_not_lt hi
    have hback : i - k + k = i := Nat.sub_add_cancel hle
    by_cases hi' : i < 32
    · simp [hle, hi', hback]
    · have hhigh : v.toNat.testBit i = false :=
        Nat.testBit_lt_two_pow (Nat.lt_of_lt_of_le hv (Nat.pow_le_pow_right (by decide) (by omega)))
      simp [hi', hback, hhigh]

/-- Two counts in a window no longer than the table have different cells. -/
theorem slot_inj {size start a b : Nat} (ha : start ≤ a) (ha' : a < start + size)
    (hb : start ≤ b) (hb' : b < start + size) (h : a % size = b % size) : a = b := by
  have hba := Nat.sub_mod_eq_zero_of_mod_eq h
  have hab := Nat.sub_mod_eq_zero_of_mod_eq h.symm
  rw [Nat.mod_eq_of_lt (by omega)] at hba hab
  omega

/-! ## Ones below the highest bit -/

/-- Bit `i` of `y` is set when `x` has a bit set among `i, ..., i + m - 1`. -/
def Spreads (m x y : Nat) : Prop := ∀ i, y.testBit i = true ↔ ∃ j < m, x.testBit (i + j) = true

theorem Spreads.refl (x : Nat) : Spreads 1 x x := by
  intro i
  constructor
  · intro h
    exact ⟨0, by omega, h⟩
  · rintro ⟨j, hj, h⟩
    obtain rfl : j = 0 := by omega
    exact h

theorem Spreads.double {m x y : Nat} (h : Spreads m x y) : Spreads (m + m) x (y ||| y >>> m) := by
  intro i
  rw [Nat.testBit_or, Nat.testBit_shiftRight, Bool.or_eq_true, h, h]
  constructor
  · rintro (⟨j, hj, hb⟩ | ⟨j, hj, hb⟩)
    · exact ⟨j, by omega, hb⟩
    · refine ⟨m + j, by omega, ?_⟩
      rw [← Nat.add_assoc, Nat.add_comm i m]
      exact hb
  · rintro ⟨j, hj, hb⟩
    by_cases hjm : j < m
    · exact Or.inl ⟨j, hjm, hb⟩
    · refine Or.inr ⟨j - m, by omega, ?_⟩
      rw [show m + i + (j - m) = i + j by omega]
      exact hb

/-- **The ones reach down from the highest bit.** -/
theorem spreads_eq {m x y : Nat} (h : Spreads m x y) (hx : x < 2 ^ m) :
    y = 2 ^ Nat.clog 2 (x + 1) - 1 := by
  have hle : x + 1 ≤ 2 ^ Nat.clog 2 (x + 1) := Nat.le_pow_clog Nat.one_lt_two _
  have hm : Nat.clog 2 (x + 1) ≤ m := Nat.clog_le_of_le_pow hx
  apply Nat.eq_of_testBit_eq
  intro i
  rw [Nat.testBit_two_pow_sub_one, Bool.eq_iff_iff, h, decide_eq_true_iff]
  constructor
  · rintro ⟨j, -, hb⟩
    have hge : 2 ^ (i + j) ≤ x := Nat.ge_two_pow_of_testBit hb
    have hlt : i + j < Nat.clog 2 (x + 1) :=
      (Nat.lt_clog_iff_pow_lt Nat.one_lt_two).mpr (Nat.lt_succ_of_le hge)
    omega
  · intro hi
    -- the highest bit of `x`
    have htop : 2 ^ (Nat.clog 2 (x + 1) - 1) < x + 1 :=
      Nat.pow_lt_of_lt_clog (by omega)
    refine ⟨Nat.clog 2 (x + 1) - 1 - i, by omega, ?_⟩
    rw [Nat.add_sub_cancel' (by omega)]
    apply Nat.testBit_of_two_pow_le_and_two_pow_add_one_gt
    · omega
    · rw [Nat.sub_add_cancel (by omega)]
      exact hle

end Lib.Wrapping
