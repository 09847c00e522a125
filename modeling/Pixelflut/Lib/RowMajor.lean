import Mathlib.Algebra.Group.Nat.Defs
import Mathlib.Data.Nat.Basic
import Mathlib.Data.List.Basic

/-!
# Row-major grids

A grid of width `w` and height `h` stored row by row in a list of `w * h`
cells. The cell of `(x, y)` has the index `y * w + x`: it lies inside the
list, and different cells have different indices. `getElem?_set_index` says
that writing one cell changes that cell only.

A scan goes over the grid row by row, again and again: its step `k` is at
`(k % w, k / w % h)`, in pass `k / (w * h)`. `succ_mod_div` is the counter that
makes a scan, and `existsUnique_scan` says that each pass meets each cell once.

`index_toNat` is the machine side: computed in 32-bit arithmetic, the index
does not wrap as long as it is below `2 ^ 32`.
-/

namespace Lib.RowMajor

/-- The row-major index of `(x, y)` in a grid of width `w`. -/
def index (w x y : Nat) : Nat := y * w + x

theorem index_lt {w h x y : Nat} (hx : x < w) (hy : y < h) : index w x y < w * h := by
  unfold index
  calc
    y * w + x < y * w + w := Nat.add_lt_add_left hx _
    _ = (y + 1) * w := (Nat.succ_mul y w).symm
    _ ≤ h * w := Nat.mul_le_mul_right w hy
    _ = w * h := Nat.mul_comm h w

/-- The last cell has the last index. -/
theorem index_last {w h : Nat} (hw : 0 < w) (hh : 0 < h) :
    index w (w - 1) (h - 1) + 1 = w * h := by
  unfold index
  calc
    (h - 1) * w + (w - 1) + 1 = (h - 1) * w + w := by omega
    _ = (h - 1 + 1) * w := (Nat.succ_mul (h - 1) w).symm
    _ = w * h := by rw [Nat.sub_add_cancel hh, Nat.mul_comm]

/-- Different cells have different indices. -/
theorem index_inj {w x y x' y' : Nat} (hx : x < w) (hx' : x' < w)
    (h : index w x y = index w x' y') : x = x' ∧ y = y' := by
  have hw : 0 < w := Nat.zero_lt_of_lt hx
  unfold index at h
  have hdiv := congrArg (· / w) h
  have hmod := congrArg (· % w) h
  simp only [Nat.mul_comm _ w, Nat.mul_add_div hw, Nat.mul_add_mod, Nat.div_eq_of_lt hx,
    Nat.div_eq_of_lt hx', Nat.mod_eq_of_lt hx, Nat.mod_eq_of_lt hx'] at hdiv hmod
  exact ⟨hmod, hdiv⟩

/-- Writing the cell `(x, y)` changes that cell only. -/
theorem getElem?_set_index {α : Type} {l : List α} {w h x y x' y' : Nat} (v : α)
    (hl : l.length = w * h) (hx : x < w) (hy : y < h) (hx' : x' < w) :
    (l.set (index w x y) v)[index w x' y']? =
      if x' = x ∧ y' = y then some v else l[index w x' y']? := by
  by_cases he : x' = x ∧ y' = y
  · obtain ⟨rfl, rfl⟩ := he
    rw [if_pos ⟨rfl, rfl⟩, List.getElem?_set_self (hl ▸ index_lt hx hy)]
  · rw [if_neg he, List.getElem?_set_ne]
    intro hi
    obtain ⟨rfl, rfl⟩ := index_inj hx hx' hi
    exact he ⟨rfl, rfl⟩

/-! ### Scans -/

/-- A counter below `w` and what it carries. -/
theorem succ_mod_div {w : Nat} (hw : 0 < w) (k : Nat) :
    (k + 1) % w = (if k % w + 1 < w then k % w + 1 else 0) ∧
      (k + 1) / w = if k % w + 1 < w then k / w else k / w + 1 := by
  have hk := Nat.mod_add_div k w
  have hlt := Nat.mod_lt k hw
  rw [and_comm, Nat.div_mod_unique hw]
  by_cases hrow : k % w + 1 < w
  · simp only [hrow, ↓reduceIte, and_true]
    omega
  · simp only [hrow, ↓reduceIte, hw, and_true, Nat.mul_succ]
    omega

/-- Pass `j` meets the cell `(x, y)` once. -/
theorem existsUnique_scan {w h x y : Nat} (hx : x < w) (hy : y < h) (j : Nat) :
    ∃! k, k / (w * h) = j ∧ k % w = x ∧ k / w % h = y := by
  have hrow : (index w x (j * h + y)) / w = j * h + y ∧ (index w x (j * h + y)) % w = x := by
    rw [Nat.div_mod_unique (Nat.zero_lt_of_lt hx), index, Nat.mul_comm w, Nat.add_comm x]
    exact ⟨rfl, hx⟩
  have hpass : (j * h + y) / h = j ∧ (j * h + y) % h = y := by
    rw [Nat.div_mod_unique (Nat.zero_lt_of_lt hy), Nat.mul_comm h, Nat.add_comm y]
    exact ⟨rfl, hy⟩
  refine ⟨index w x (j * h + y), ⟨?_, hrow.2, ?_⟩, ?_⟩
  · rw [← Nat.div_div_eq_div_mul, hrow.1, hpass.1]
  · rw [hrow.1, hpass.2]
  · rintro k ⟨hj, hkx, hky⟩
    rw [← Nat.div_div_eq_div_mul] at hj
    calc
      k = k / w * w + k % w := (Nat.div_add_mod' k w).symm
      _ = (k / w / h * h + k / w % h) * w + k % w := by rw [Nat.div_add_mod' (k / w), Nat.div_add_mod']
      _ = index w x (j * h + y) := by rw [hj, hkx, hky, index]

/-! ### Machine arithmetic -/

/-- The usual bounds check. -/
theorem outside_iff (x y w h : UInt32) : (x ≥ w || y ≥ h) = true ↔ ¬(x < w ∧ y < h) := by
  rw [Bool.or_eq_true, decide_eq_true_iff, decide_eq_true_iff, ge_iff_le, ge_iff_le,
    ← UInt32.not_lt, ← UInt32.not_lt, not_and_or]

/-- The index computed in 32-bit arithmetic, when the exact one fits. -/
theorem index_toNat {w x y : UInt32} (h : index w.toNat x.toNat y.toNat < 2 ^ 32) :
    (y * w + x).toNat = index w.toNat x.toNat y.toNat := by
  unfold index at h ⊢
  simp only [UInt32.toNat_add, UInt32.toNat_mul, Nat.mod_add_mod]
  exact Nat.mod_eq_of_lt h

/-- A grid of fewer than `2 ^ 32` cells is indexed without wrapping. -/
theorem index_toNat_of_lt {w h x y : UInt32} (hwh : w.toNat * h.toNat < 2 ^ 32) (hx : x < w)
    (hy : y < h) : (y * w + x).toNat = index w.toNat x.toNat y.toNat :=
  index_toNat (Nat.lt_trans (index_lt (UInt32.lt_iff_toNat_lt.mp hx)
    (UInt32.lt_iff_toNat_lt.mp hy)) hwh)

end Lib.RowMajor
