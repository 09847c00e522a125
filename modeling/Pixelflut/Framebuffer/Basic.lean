import Mathlib.Data.UInt
import Pixelflut.Lib.BlockHeap
import Pixelflut.Lib.RowMajor
import Pixelflut.Lib.Drawing
import Pixelflut.Errno

/-!
# The framebuffer of `framebuffer.c`

Pixel blocks live in a `Memory` whose cells are `uint32_t`; `fb->pixels` is an
address in it. `unsigned int` is `UInt32` and `size_t` is `UInt64`, so that
products wrap where they wrap in C. What an allocation answers is a parameter
of the call: `none` for a null pointer, or the old content of the new block.

A function returns `none` when it would access memory outside a live block or
fail an `assert`. The list entry of a framebuffer is not needed here.

`fbSetPixel_outside` and `fbSetPixel_inside` are all that `fb_set_pixel` does.
`Shows` connects a framebuffer to the raster that it is meant to be;
`fbAlloc_shows`, `fbSetPixel_shows` and `fbResize_shows` are the step lemmas.
-/

namespace Pixelflut.Framebuffer

open Lib.BlockHeap Lib.RowMajor Lib.Drawing

structure FbSize where
  width : UInt32
  height : UInt32
  deriving DecidableEq

structure Fb where
  size : FbSize
  pixels : Nat
  numaNode : UInt32
  pixelCounter : UInt64
  bytesCounter : UInt64
  deriving DecidableEq

/-- The pixel blocks. -/
abbrev Memory := Heap UInt32

/-- The answer of an allocation: null, or a block with some old content. -/
abbrev Malloc := Option (Nat → UInt32)

/-- `malloc(size)`: the block has exactly `size` bytes, four to a cell. -/
def malloc (h : Memory) (size : UInt64) (old : Nat → UInt32) : Memory :=
  h.alloc ((List.range (size.toNat / 4)).map old)

/-- `calloc(nmemb, sizeof(uint32_t))`. -/
def calloc (h : Memory) (nmemb : UInt64) : Memory := h.alloc (List.replicate nmemb.toNat 0)

/-- `fb_alloc`; `fbOk` and `pixelsOk` are the answers of its `malloc` and its
`calloc`. -/
def fbAlloc (h : Memory) (width height : UInt32) (fbOk pixelsOk : Bool) (numaNode : UInt32) :
    Memory × Except Int Fb :=
  if !fbOk then (h, .error (-ENOMEM))
  else if !pixelsOk then (h, .error (-ENOMEM))
  else (calloc h (width * height).toUInt64,
    .ok ⟨⟨width, height⟩, h.fresh, numaNode, 0, 0⟩)

/-- `fb_free`: the pixel block goes; the structure itself is not in `Memory`. -/
def fbFree (h : Memory) (fb : Fb) : Option Memory := h.free fb.pixels

def fbSetPixel (h : Memory) (fb : Fb) (x y pixel : UInt32) : Option (Memory × Fb) :=
  if x ≥ fb.size.width || y ≥ fb.size.height then some (h, fb)
  else (h.store fb.pixels (y * fb.size.width + x).toNat pixel).map fun h =>
    (h, { fb with pixelCounter := fb.pixelCounter + 1 })

def fbGetPixel (h : Memory) (fb : Fb) (x y : UInt32) : Option UInt32 :=
  if x < fb.size.width ∧ y < fb.size.height then
    h.load fb.pixels (y * fb.size.width + x).toNat
  else none

def fbSetSize (fb : Fb) (width height : UInt32) : Fb := { fb with size := ⟨width, height⟩ }

/-- `width * height * sizeof(uint32_t)`: the first product is one of
`unsigned int`, the second one of `size_t`. -/
def memsize (size : FbSize) : UInt64 := (size.width * size.height).toUInt64 * 4

/-- A block of `size` bytes from `malloc`, and the `memset` of all of it to zero. -/
def zeroedBlock (h : Memory) (size : UInt64) (old : Nat → UInt32) : Option Memory :=
  (malloc h size old).fill h.fresh (size.toNat / 4) 0

/-- `fb_resize`; `mem` is the answer of its `malloc`. -/
def fbResize (h : Memory) (fb : Fb) (width height : UInt32) (mem : Malloc) :
    Option (Memory × Fb × Int) :=
  match mem with
  | none => some (h, fb, -ENOMEM)
  | some old =>
    let size := memsize ⟨width, height⟩
    let fbmem := h.fresh
    (zeroedBlock h size old).bind fun h =>
      let oldmem := fb.pixels
      let fb := if memsize fb.size > size then
          { fbSetSize fb width height with pixels := fbmem }
        else fbSetSize { fb with pixels := fbmem } width height
      (h.free oldmem).map fun h => (h, fb, 0)

/-! ## Sizes -/

/-- The number of cells that the wrapping product asks for. -/
def cellCount (width height : UInt32) : Nat := width.toNat * height.toNat % 2 ^ 32

theorem toNat_mul_toUInt64 (width height : UInt32) :
    (width * height).toUInt64.toNat = cellCount width height := by
  simp [cellCount]

theorem memsize_toNat (size : FbSize) : (memsize size).toNat = cellCount size.width size.height * 4 := by
  have hlt : cellCount size.width size.height < 2 ^ 32 := Nat.mod_lt _ (by decide)
  rw [memsize, UInt64.toNat_mul, toNat_mul_toUInt64]
  exact Nat.mod_eq_of_lt (by show _ * 4 < _; omega)

theorem memsize_lt_iff (s s' : FbSize) :
    memsize s < memsize s' ↔ cellCount s.width s.height < cellCount s'.width s'.height := by
  rw [UInt64.lt_iff_toNat_lt, memsize_toNat, memsize_toNat]
  omega

theorem cellCount_eq {width height : UInt32} (h : width.toNat * height.toNat < 2 ^ 32) :
    cellCount width height = width.toNat * height.toNat :=
  Nat.mod_eq_of_lt h

/-! ## What the operations do -/

/-- The pixel block of `fb` is live and holds `cells`, one for each pixel. -/
structure Backed (h : Memory) (fb : Fb) (cells : List UInt32) : Prop where
  block : h.block fb.pixels = some cells
  length : cells.length = fb.size.width.toNat * fb.size.height.toNat

theorem fbSetPixel_outside (h : Memory) {fb : Fb} {x y : UInt32} (pixel : UInt32)
    (hout : ¬(x < fb.size.width ∧ y < fb.size.height)) :
    fbSetPixel h fb x y pixel = some (h, fb) := by
  rw [fbSetPixel, if_pos ((outside_iff _ _ _ _).mpr hout)]

/-- In range, the outcome is that of the one store. -/
theorem fbSetPixel_inside (h : Memory) {fb : Fb} {x y : UInt32} (pixel : UInt32)
    (hx : x < fb.size.width) (hy : y < fb.size.height) :
    fbSetPixel h fb x y pixel = (h.store fb.pixels (y * fb.size.width + x).toNat pixel).map
      fun h => (h, { fb with pixelCounter := fb.pixelCounter + 1 }) := by
  rw [fbSetPixel, if_neg fun hout => (outside_iff _ _ _ _).mp hout ⟨hx, hy⟩]

/-- The wrapping index never exceeds the exact one. -/
theorem index_le (w x y : UInt32) : (y * w + x).toNat ≤ index w.toNat x.toNat y.toNat := by
  simp only [index, UInt32.toNat_add, UInt32.toNat_mul, Nat.mod_add_mod]
  exact Nat.mod_le _ _

theorem Backed.index_lt {h : Memory} {fb : Fb} {cells : List UInt32} (hb : Backed h fb cells)
    {x y : UInt32} (hx : x < fb.size.width) (hy : y < fb.size.height) :
    (y * fb.size.width + x).toNat < cells.length := by
  rw [hb.length]
  exact Nat.lt_of_le_of_lt (index_le _ _ _)
    (Lib.RowMajor.index_lt (UInt32.lt_iff_toNat_lt.mp hx) (UInt32.lt_iff_toNat_lt.mp hy))

/-- A pixel of a backed framebuffer is stored inside the pixel block. -/
theorem Backed.fbSetPixel {h : Memory} {fb : Fb} {cells : List UInt32} (hb : Backed h fb cells)
    {x y : UInt32} (pixel : UInt32) (hx : x < fb.size.width) (hy : y < fb.size.height) :
    ∃ h', fbSetPixel h fb x y pixel = some (h', { fb with pixelCounter := fb.pixelCounter + 1 }) ∧
      h'.fresh = h.fresh ∧
      h'.block fb.pixels = some (cells.set (y * fb.size.width + x).toNat pixel) ∧
      ∀ q, q ≠ fb.pixels → h'.block q = h.block q := by
  obtain ⟨h', hs, hfresh, hself, hother⟩ := Heap.store_spec pixel hb.block (hb.index_lt hx hy)
  exact ⟨h', by rw [fbSetPixel_inside h pixel hx hy, hs]; rfl, hfresh, hself, hother⟩

/-- A successful `fb_alloc` gives a zeroed block of as many cells as the
wrapping product says. -/
theorem fbAlloc_spec {h h' : Memory} {fb : Fb} {width height : UInt32} {fbOk pixelsOk : Bool}
    {numaNode : UInt32} (ha : fbAlloc h width height fbOk pixelsOk numaNode = (h', .ok fb)) :
    fb = ⟨⟨width, height⟩, h.fresh, numaNode, 0, 0⟩ ∧
      h'.block fb.pixels = some (List.replicate (cellCount width height) 0) ∧
      ∀ q, q ≠ fb.pixels → h'.block q = h.block q := by
  cases fbOk
  · cases ha
  · cases pixelsOk
    · cases ha
    · cases ha
      obtain ⟨hb, -, ho⟩ :=
        Heap.alloc_spec h (List.replicate (width * height).toUInt64.toNat (0 : UInt32))
      rw [toNat_mul_toUInt64] at hb
      exact ⟨rfl, hb, ho⟩

theorem zeroedBlock_spec (h : Memory) (width height : UInt32) (old : Nat → UInt32) :
    ∃ h', zeroedBlock h (memsize ⟨width, height⟩) old = some h' ∧ h'.fresh = h.fresh + 1 ∧
      h'.block h.fresh = some (List.replicate (cellCount width height) 0) ∧
      ∀ q, q ≠ h.fresh → h'.block q = h.block q := by
  have hcells : (memsize ⟨width, height⟩).toNat / 4 = cellCount width height := by
    rw [memsize_toNat]
    exact Nat.mul_div_cancel _ (by decide)
  obtain ⟨hb, hfresh, hother⟩ := Heap.alloc_spec h ((List.range (cellCount width height)).map old)
  obtain ⟨h', hfill, hfresh', hb', hother'⟩ := Heap.fill_spec (0 : UInt32) hb
  rw [List.length_map, List.length_range] at hfill hb'
  refine ⟨h', ?_, by rw [hfresh', hfresh], hb', fun q hq => by rw [hother' q hq, hother q hq]⟩
  rw [zeroedBlock, malloc, hcells, hfill]

/-- A successful `fb_resize` gives a zeroed block and frees the old one. -/
theorem fbResize_spec {h : Memory} {fb : Fb} {cells : List UInt32}
    (hb : h.block fb.pixels = some cells) (width height : UInt32) (old : Nat → UInt32) :
    ∃ h', fbResize h fb width height (some old) =
        some (h', { fb with size := ⟨width, height⟩, pixels := h.fresh }, 0) ∧
      h'.fresh = h.fresh + 1 ∧
      h'.block h.fresh = some (List.replicate (cellCount width height) 0) ∧
      h'.block fb.pixels = none ∧
      ∀ q, q ≠ h.fresh → q ≠ fb.pixels → h'.block q = h.block q := by
  have hne : fb.pixels ≠ h.fresh := Nat.ne_of_lt (Heap.block_lt hb)
  obtain ⟨h₁, hzeroed, hfresh, hnew, hother⟩ := zeroedBlock_spec h width height old
  obtain ⟨h₂, hfree, hfresh', hfreed, hother'⟩ := Heap.free_spec ((hother _ hne).trans hb)
  refine ⟨h₂, ?_, by rw [hfresh', hfresh], by rw [hother' _ hne.symm, hnew], hfreed, ?_⟩
  · simp only [fbResize, hzeroed, Option.bind_some, hfree, Option.map_some]
    split <;> rfl
  · intro q hq hq'
    rw [hother' q hq', hother q hq]

/-! ## The raster of a framebuffer -/

/-- The framebuffer `fb` shows the raster `r`; its size is small enough for the
index not to wrap. -/
structure Shows (h : Memory) (fb : Fb) (r : Raster UInt32) : Prop where
  width : r.width = fb.size.width.toNat
  height : r.height = fb.size.height.toNat
  small : fb.size.width.toNat * fb.size.height.toNat < 2 ^ 32
  cells : ∃ cells, Backed h fb cells ∧ ∀ x y, x < r.width → y < r.height →
    cells[index r.width x y]? = some (r.colour x y)
  counter : fb.pixelCounter = UInt64.ofNat r.drawn

/-- A zeroed block of the right size shows an empty raster. -/
theorem shows_blank {h : Memory} {fb : Fb} {drawn : Nat}
    (hsmall : fb.size.width.toNat * fb.size.height.toNat < 2 ^ 32)
    (hb : h.block fb.pixels = some (List.replicate (cellCount fb.size.width fb.size.height) 0))
    (hc : fb.pixelCounter = UInt64.ofNat drawn) :
    Shows h fb (blank fb.size.width.toNat fb.size.height.toNat drawn) := by
  rw [cellCount_eq hsmall] at hb
  refine ⟨rfl, rfl, hsmall, ⟨_, ⟨hb, List.length_replicate⟩, ?_⟩, hc⟩
  intro x y hx hy
  exact List.getElem?_replicate_of_lt (index_lt hx hy)

theorem fbAlloc_shows {h h' : Memory} {fb : Fb} {width height : UInt32} {fbOk pixelsOk : Bool}
    {numaNode : UInt32} (hsmall : width.toNat * height.toNat < 2 ^ 32)
    (ha : fbAlloc h width height fbOk pixelsOk numaNode = (h', .ok fb)) :
    Shows h' fb (blank width.toNat height.toNat 0) := by
  obtain ⟨rfl, hb, -⟩ := fbAlloc_spec ha
  exact shows_blank hsmall hb rfl

theorem fbResize_shows {h : Memory} {fb : Fb} {r : Raster UInt32} (hs : Shows h fb r)
    {width height : UInt32} (hsmall : width.toNat * height.toNat < 2 ^ 32) (mem : Malloc) :
    ∃ h' fb' err, fbResize h fb width height mem = some (h', fb', err) ∧
      Shows h' fb' (if mem.isSome then blank width.toNat height.toNat r.drawn else r) := by
  cases mem with
  | none => exact ⟨h, fb, -ENOMEM, rfl, hs⟩
  | some old =>
    obtain ⟨cells, hb, -⟩ := hs.cells
    obtain ⟨h', hr, -, hnew, -, -⟩ := fbResize_spec hb.block width height old
    exact ⟨h', _, 0, hr, shows_blank hsmall hnew hs.counter⟩

/-- **`fb_set_pixel` draws one pixel of the raster.** -/
theorem fbSetPixel_shows {h : Memory} {fb : Fb} {r : Raster UInt32} (hs : Shows h fb r)
    (x y pixel : UInt32) :
    ∃ h' fb', fbSetPixel h fb x y pixel = some (h', fb') ∧
      Shows h' fb' (r.draw x.toNat y.toNat pixel) := by
  have hin : (x < fb.size.width ∧ y < fb.size.height) ↔
      x.toNat < r.width ∧ y.toNat < r.height := by
    rw [hs.width, hs.height, UInt32.lt_iff_toNat_lt, UInt32.lt_iff_toNat_lt]
  obtain ⟨cells, hb, hcells⟩ := hs.cells
  by_cases h_in : x < fb.size.width ∧ y < fb.size.height
  · obtain ⟨h', hset, -, hself, -⟩ := hb.fbSetPixel pixel h_in.1 h_in.2
    obtain ⟨hx, hy⟩ := hin.mp h_in
    have hlen : cells.length = r.width * r.height := by rw [hb.length, hs.width, hs.height]
    rw [index_toNat_of_lt hs.small h_in.1 h_in.2, ← hs.width] at hself
    refine ⟨h', _, hset, ?_⟩
    rw [Raster.draw, if_pos ⟨hx, hy⟩]
    refine ⟨hs.width, hs.height, hs.small, ⟨_, ⟨hself, ?_⟩, ?_⟩, ?_⟩
    · rw [List.length_set, hb.length]
    · intro x' y' hx' hy'
      show (cells.set _ pixel)[index r.width x' y']? =
        some (if x' = x.toNat ∧ y' = y.toNat then pixel else r.colour x' y')
      rw [getElem?_set_index pixel hlen hx hy hx', hcells x' y' hx' hy', apply_ite some]
    · show fb.pixelCounter + 1 = UInt64.ofNat (r.drawn + 1)
      rw [hs.counter, UInt64.ofNat_add]
      rfl
  · refine ⟨h, fb, fbSetPixel_outside h pixel h_in, ?_⟩
    rw [Raster.draw, if_neg (fun h_r => h_in (hin.mpr h_r))]
    exact hs

theorem fbGetPixel_shows {h : Memory} {fb : Fb} {r : Raster UInt32} (hs : Shows h fb r)
    {x y : UInt32} (hx : x < fb.size.width) (hy : y < fb.size.height) :
    fbGetPixel h fb x y = some (r.colour x.toNat y.toNat) := by
  obtain ⟨cells, hb, hcells⟩ := hs.cells
  rw [fbGetPixel, if_pos ⟨hx, hy⟩, Heap.load_of_block hb.block, index_toNat_of_lt hs.small hx hy,
    ← hs.width]
  apply hcells
  · rw [hs.width]
    exact UInt32.lt_iff_toNat_lt.mp hx
  · rw [hs.height]
    exact UInt32.lt_iff_toNat_lt.mp hy

end Pixelflut.Framebuffer
