import Pixelflut.Framebuffer.Basic

/-!
# When the pixel block fits the bounds check

`fb_alloc` and `fb_resize` compute the number of cells in 32-bit arithmetic,
`fb_set_pixel` checks the coordinates against the size itself. `Fits` is what
the two have to agree on; `fits_iff` says that they do exactly for sizes below
`2 ^ 32` pixels.
-/

namespace Pixelflut.Framebuffer

open Lib.BlockHeap Lib.RowMajor

/-- The pixel block has a cell for each pixel, the index of a pixel lies inside
it, and different pixels have different indices. -/
structure Fits (h : Memory) (fb : Fb) : Prop where
  cells : ∃ cells, h.block fb.pixels = some cells ∧
    fb.size.width.toNat * fb.size.height.toNat ≤ cells.length ∧
    ∀ x y, x < fb.size.width → y < fb.size.height →
      (y * fb.size.width + x).toNat < cells.length
  index_inj : ∀ x y x' y', x < fb.size.width → y < fb.size.height →
    x' < fb.size.width → y' < fb.size.height →
    y * fb.size.width + x = y' * fb.size.width + x' → x = x' ∧ y = y'

/-- The check of the options `-w` and `-h` in `main`, after `atoi`. -/
def mainAccepts (v : Int32) : Bool := !(v ≤ 0)

/-- A block of the wrapped size fits exactly when nothing has wrapped. -/
theorem fits_of_block {h : Memory} {fb : Fb} (v : UInt32)
    (hb : h.block fb.pixels = some (List.replicate (cellCount fb.size.width fb.size.height) v)) :
    Fits h fb ↔ fb.size.width.toNat * fb.size.height.toNat < 2 ^ 32 := by
  constructor
  · intro hfits
    obtain ⟨cells, hcells, hle, -⟩ := hfits.cells
    obtain rfl := Option.some.inj (hb.symm.trans hcells)
    rw [List.length_replicate] at hle
    calc
      fb.size.width.toNat * fb.size.height.toNat ≤ cellCount fb.size.width fb.size.height := hle
      _ < 2 ^ 32 := Nat.mod_lt _ (by decide)
  · intro hsmall
    rw [cellCount_eq hsmall] at hb
    refine ⟨⟨_, hb, ?_, ?_⟩, ?_⟩
    · rw [List.length_replicate]
    · intro x y hx hy
      rw [List.length_replicate]
      exact Nat.lt_of_le_of_lt (index_le _ _ _)
        (index_lt (UInt32.lt_iff_toNat_lt.mp hx) (UInt32.lt_iff_toNat_lt.mp hy))
    · intro x y x' y' hx hy hx' hy' heq
      have hnat := congrArg UInt32.toNat heq
      rw [index_toNat_of_lt hsmall hx hy, index_toNat_of_lt hsmall hx' hy'] at hnat
      obtain ⟨hxx, hyy⟩ := Lib.RowMajor.index_inj (UInt32.lt_iff_toNat_lt.mp hx)
        (UInt32.lt_iff_toNat_lt.mp hx') hnat
      exact ⟨UInt32.toNat_inj.mp hxx, UInt32.toNat_inj.mp hyy⟩

/-- **The accepted sizes.** Whenever `fb_alloc` returns 0, or `fb_resize` does
on a framebuffer with a live block, the new block fits if and only if the new
size has fewer than `2 ^ 32` pixels. -/
theorem fits_iff (width height : UInt32) :
    (∀ (h h' : Memory) (fb : Fb) (fbOk pixelsOk : Bool) (numaNode : UInt32),
      fbAlloc h width height fbOk pixelsOk numaNode = (h', .ok fb) →
      (Fits h' fb ↔ width.toNat * height.toNat < 2 ^ 32)) ∧
    (∀ (h h' : Memory) (fb fb' : Fb) (mem : Malloc), (h.block fb.pixels).isSome →
      fbResize h fb width height mem = some (h', fb', 0) →
      (Fits h' fb' ↔ width.toNat * height.toNat < 2 ^ 32)) := by
  constructor
  · intro h h' fb fbOk pixelsOk numaNode halloc
    obtain ⟨rfl, hb, -⟩ := fbAlloc_spec halloc
    exact fits_of_block 0 hb
  · intro h h' fb fb' mem hlive hresize
    obtain ⟨cells, hb⟩ := Option.isSome_iff_exists.mp hlive
    cases mem with
    | none => cases hresize
    | some old =>
      obtain ⟨h₁, hresize₁, -, hnew, -⟩ := fbResize_spec hb width height old
      cases hresize.symm.trans hresize₁
      exact fits_of_block 0 hnew

theorem fits_iff_three_by_two :
    Fits (calloc ⟨[]⟩ 6) ⟨⟨3, 2⟩, 0, 0, 0, 0⟩ ∧
    Fits ⟨[none, some [0, 0, 0, 0, 0, 0]]⟩ ⟨⟨3, 2⟩, 1, 0, 0, 0⟩ :=
  ⟨((fits_iff 3 2).1 ⟨[]⟩ _ _ true true 0 rfl).mpr (by decide),
    ((fits_iff 3 2).2 ⟨[some [9]]⟩ _ ⟨⟨1, 1⟩, 0, 0, 0, 0⟩ _ (some fun _ => 7) rfl
      (by decide)).mpr (by decide)⟩

/-- The sides 65536 and 65536 wrap to an empty block. -/
theorem not_fits_of_wrapped_size :
    ¬((∀ width height : Int32, mainAccepts width → mainAccepts height →
        ∀ (h h' : Memory) (fb : Fb) (fbOk pixelsOk : Bool) (numaNode : UInt32),
          fbAlloc h width.toUInt32 height.toUInt32 fbOk pixelsOk numaNode = (h', .ok fb) →
          Fits h' fb) ∧
      ∀ (width height : UInt32) (h h' : Memory) (fb fb' : Fb) (mem : Malloc),
        (h.block fb.pixels).isSome → fbResize h fb width height mem = some (h', fb', 0) →
        Fits h' fb') := by
  rintro ⟨halloc, -⟩
  have hfits := halloc 65536 65536 (by decide) (by decide) ⟨[]⟩ _ _ true true 0 rfl
  have hsmall := (fits_of_block 0 rfl).mp hfits
  exact absurd hsmall (by decide)

end Pixelflut.Framebuffer
