import Pixelflut.Framebuffer.Basic

/-!
# The stores of `fb_resize`, one at a time

The receive thread runs while `fb_resize` does, so each store of `fb_resize`
leaves a state in which a pixel may be drawn. `resizeStores` lists the stores in
source order and `fbResize_eq_runStores` says that together they are
`fb_resize`.

`safe_iff` reduces safety of a state to an area: the size in force against the
block in force. `resize_safe_iff` says which resizes are safe after every
prefix of the stores: the branch compares areas, but the width is stored before
the height, and the mixed size of new width and old height decides.
-/

namespace Pixelflut.Framebuffer

open Lib.BlockHeap Lib.RowMajor

inductive Store where
  | width (v : UInt32)
  | height (v : UInt32)
  | pixels (p : Nat)
  | free (p : Nat)
  deriving DecidableEq

def Store.exec (st : Store) (s : Memory × Fb) : Option (Memory × Fb) :=
  match st with
  | .width v => some (s.1, { s.2 with size := { s.2.size with width := v } })
  | .height v => some (s.1, { s.2 with size := { s.2.size with height := v } })
  | .pixels p => some (s.1, { s.2 with pixels := p })
  | .free p => (s.1.free p).map fun h => (h, s.2)

def runStores (s : Memory × Fb) (stores : List Store) : Option (Memory × Fb) :=
  stores.foldlM (fun s st => st.exec s) s

theorem runStores_cons (s : Memory × Fb) (st : Store) (stores : List Store) :
    runStores s (st :: stores) = (st.exec s).bind fun s' => runStores s' stores := rfl

/-- The stores of `fb_set_size`. -/
def sizeStores (width height : UInt32) : List Store := [.width width, .height height]

/-- The stores of `fb_resize` behind its `memset`, in source order. -/
def resizeStores (fb : Fb) (width height : UInt32) (fbmem : Nat) : List Store :=
  let oldmem := fb.pixels
  (if memsize fb.size > memsize ⟨width, height⟩ then
      sizeStores width height ++ [.pixels fbmem]
    else [.pixels fbmem] ++ sizeStores width height) ++ [.free oldmem]

/-- `fb_resize` is its stores in order. -/
theorem fbResize_eq_runStores (h : Memory) (fb : Fb) (width height : UInt32) (old : Nat → UInt32) :
    fbResize h fb width height (some old) =
      (zeroedBlock h (memsize ⟨width, height⟩) old).bind fun h₁ =>
        (runStores (h₁, fb) (resizeStores fb width height h.fresh)).map fun s => (s.1, s.2, 0) := by
  rw [fbResize]
  congr 1
  funext h₁
  unfold resizeStores
  split
  · cases hfree : h₁.free fb.pixels <;>
      simp [runStores, sizeStores, Store.exec, fbSetSize, hfree]
  · cases hfree : h₁.free fb.pixels <;>
      simp [runStores, sizeStores, Store.exec, fbSetSize, hfree]

/-- Wherever a pixel is drawn, it is dropped or stored inside a live block. -/
def Safe (s : Memory × Fb) : Prop := ∀ x y pixel, (fbSetPixel s.1 s.2 x y pixel).isSome

/-- A state is safe when the block is as large as the size in force. -/
theorem safe_iff (s : Memory × Fb) {cells : List UInt32}
    (hb : s.1.block s.2.pixels = some cells)
    (hsmall : s.2.size.width.toNat * s.2.size.height.toNat < 2 ^ 32) :
    Safe s ↔ s.2.size.width.toNat * s.2.size.height.toNat ≤ cells.length := by
  obtain ⟨h, fb⟩ := s
  dsimp only at hb hsmall ⊢
  constructor
  · intro hs
    rcases Nat.eq_zero_or_pos (fb.size.width.toNat * fb.size.height.toNat) with hzero | hpos
    · omega
    · -- the last pixel has the greatest index
      have hw : 0 < fb.size.width.toNat := Nat.pos_of_mul_pos_right hpos
      have hh : 0 < fb.size.height.toNat := Nat.pos_of_mul_pos_left hpos
      have hx : (fb.size.width - 1).toNat = fb.size.width.toNat - 1 :=
        UInt32.toNat_sub_of_le _ _ (UInt32.le_iff_toNat_le.mpr hw)
      have hy : (fb.size.height - 1).toNat = fb.size.height.toNat - 1 :=
        UInt32.toNat_sub_of_le _ _ (UInt32.le_iff_toNat_le.mpr hh)
      have hxlt : fb.size.width - 1 < fb.size.width := UInt32.lt_iff_toNat_lt.mpr (by omega)
      have hylt : fb.size.height - 1 < fb.size.height := UInt32.lt_iff_toNat_lt.mpr (by omega)
      have hstore := hs (fb.size.width - 1) (fb.size.height - 1) 0
      rw [fbSetPixel_inside h 0 hxlt hylt, Option.isSome_map, Heap.store_isSome_iff 0 hb,
        index_toNat_of_lt hsmall hxlt hylt, hx, hy] at hstore
      have := index_last hw hh
      omega
  · intro hle x y pixel
    by_cases hin : x < fb.size.width ∧ y < fb.size.height
    · rw [fbSetPixel_inside h pixel hin.1 hin.2, Option.isSome_map, Heap.store_isSome_iff pixel hb,
        index_toNat_of_lt hsmall hin.1 hin.2]
      exact Nat.lt_of_lt_of_le (index_lt (UInt32.lt_iff_toNat_lt.mp hin.1)
        (UInt32.lt_iff_toNat_lt.mp hin.2)) hle
    · rw [fbSetPixel_outside h pixel hin]
      rfl

/-- Every state that the stores lead through is safe, the first one included. -/
def SafeThroughout (s : Memory × Fb) : List Store → Prop
  | [] => Safe s
  | st :: stores => Safe s ∧ ∃ s', st.exec s = some s' ∧ SafeThroughout s' stores

theorem safeThroughout_iff (s : Memory × Fb) (stores : List Store) :
    SafeThroughout s stores ↔ ∀ n, ∃ s', runStores s (stores.take n) = some s' ∧ Safe s' := by
  induction stores generalizing s with
  | nil =>
    constructor
    · intro hs n
      exact ⟨s, by rw [List.take_nil]; rfl, hs⟩
    · intro hall
      obtain ⟨s', hrun, hs⟩ := hall 0
      cases hrun
      exact hs
  | cons st stores ih =>
    constructor
    · rintro ⟨hs, s₁, hexec, hrest⟩ n
      cases n with
      | zero => exact ⟨s, rfl, hs⟩
      | succ n =>
        obtain ⟨s', hrun, hs'⟩ := (ih s₁).mp hrest n
        refine ⟨s', ?_, hs'⟩
        rw [List.take_succ_cons, runStores_cons, hexec]
        exact hrun
    · intro hall
      obtain ⟨s', hrun, hs⟩ := hall 0
      cases hrun
      obtain ⟨s₁, hexec, -⟩ := Option.bind_eq_some_iff.mp (hall 1).choose_spec.1
      refine ⟨hs, s₁, hexec, (ih s₁).mpr fun n => ?_⟩
      obtain ⟨s', hrun, hs'⟩ := hall (n + 1)
      refine ⟨s', ?_, hs'⟩
      rw [List.take_succ_cons, runStores_cons] at hrun
      rw [show st.exec s = some s₁ from hexec] at hrun
      exact hrun

/-! ## The two branches -/

section Branches

variable {h : Memory} {fb : Fb} {oldCells newCells : List UInt32} {width height : UInt32}
  {fbmem : Nat}

variable (hold : h.block fb.pixels = some oldCells) (hnew : h.block fbmem = some newCells)
  (hne : fbmem ≠ fb.pixels)
  (holdLen : oldCells.length = fb.size.width.toNat * fb.size.height.toNat)
  (hnewLen : newCells.length = width.toNat * height.toNat)
  (hs₀₀ : fb.size.width.toNat * fb.size.height.toNat < 2 ^ 32)
  (hs₁₀ : width.toNat * fb.size.height.toNat < 2 ^ 32)
  (hs₁₁ : width.toNat * height.toNat < 2 ^ 32)

include hold hnew hne holdLen hnewLen hs₀₀ hs₁₀ hs₁₁

/-- In the shrinking branch the old block must hold the mixed size. -/
theorem shrinking_safe_iff
    (hle : width.toNat * height.toNat ≤ fb.size.width.toNat * fb.size.height.toNat) :
    SafeThroughout (h, fb) [.width width, .height height, .pixels fbmem, .free fb.pixels] ↔
      width.toNat * fb.size.height.toNat ≤ fb.size.width.toNat * fb.size.height.toNat := by
  obtain ⟨h', hfree, -, -, hother⟩ := Heap.free_spec hold
  have safe₀ := safe_iff (h, fb) hold hs₀₀
  have safe₁ := safe_iff (h, { fb with size := ⟨width, fb.size.height⟩ }) hold hs₁₀
  have safe₂ := safe_iff (h, { fb with size := ⟨width, height⟩ }) hold hs₁₁
  have safe₃ := safe_iff (h, { fb with size := ⟨width, height⟩, pixels := fbmem }) hnew hs₁₁
  have safe₄ := safe_iff (h', { fb with size := ⟨width, height⟩, pixels := fbmem })
    ((hother _ hne).trans hnew) hs₁₁
  rw [holdLen] at safe₀ safe₁ safe₂
  rw [hnewLen] at safe₃ safe₄
  constructor
  · rintro ⟨-, s₁, hexec, hs₁, -⟩
    cases hexec
    exact safe₁.mp hs₁
  · intro hmixed
    exact ⟨safe₀.mpr le_rfl, _, rfl, safe₁.mpr hmixed, _, rfl, safe₂.mpr hle, _, rfl,
      safe₃.mpr le_rfl, _, congrArg (Option.map _) hfree, safe₄.mpr le_rfl⟩

/-- In the other branch the new block must hold it. -/
theorem growing_safe_iff
    (hle : fb.size.width.toNat * fb.size.height.toNat ≤ width.toNat * height.toNat) :
    SafeThroughout (h, fb) [.pixels fbmem, .width width, .height height, .free fb.pixels] ↔
      width.toNat * fb.size.height.toNat ≤ width.toNat * height.toNat := by
  obtain ⟨h', hfree, -, -, hother⟩ := Heap.free_spec hold
  have safe₀ := safe_iff (h, fb) hold hs₀₀
  have safe₁ := safe_iff (h, { fb with pixels := fbmem }) hnew hs₀₀
  have safe₂ := safe_iff (h, { fb with size := ⟨width, fb.size.height⟩, pixels := fbmem }) hnew hs₁₀
  have safe₃ := safe_iff (h, { fb with size := ⟨width, height⟩, pixels := fbmem }) hnew hs₁₁
  have safe₄ := safe_iff (h', { fb with size := ⟨width, height⟩, pixels := fbmem })
    ((hother _ hne).trans hnew) hs₁₁
  rw [holdLen] at safe₀
  rw [hnewLen] at safe₁ safe₂ safe₃ safe₄
  constructor
  · rintro ⟨-, s₁, hexec₁, -, s₂, hexec₂, hs₂, -⟩
    cases hexec₁
    cases hexec₂
    exact safe₂.mp hs₂
  · intro hmixed
    exact ⟨safe₀.mpr le_rfl, _, rfl, safe₁.mpr hle, _, rfl, safe₂.mpr hmixed, _, rfl,
      safe₃.mpr le_rfl, _, congrArg (Option.map _) hfree, safe₄.mpr le_rfl⟩

end Branches

theorem mul_le_mul_left_iff_or {k m n : Nat} : k * m ≤ k * n ↔ k = 0 ∨ m ≤ n := by
  rcases Nat.eq_zero_or_pos k with rfl | hk
  · simp
  · rw [Nat.mul_le_mul_left_iff hk]
    constructor
    · exact .inr
    · rintro (rfl | hle)
      · exact absurd hk (Nat.lt_irrefl 0)
      · exact hle

/-- **When `fb_resize` is safe after every prefix of its stores.** With the old,
the new and the mixed area below `2 ^ 32`: a shrinking resize must not widen
the framebuffer, and any other one must not lower it. -/
theorem resize_safe_iff {h h₁ : Memory} {fb : Fb} {cells : List UInt32} (hb : Backed h fb cells)
    {width height : UInt32} {old : Nat → UInt32}
    (hs₀₀ : fb.size.width.toNat * fb.size.height.toNat < 2 ^ 32)
    (hs₁₀ : width.toNat * fb.size.height.toNat < 2 ^ 32)
    (hs₁₁ : width.toNat * height.toNat < 2 ^ 32)
    (hzeroed : zeroedBlock h (memsize ⟨width, height⟩) old = some h₁) :
    (∀ n, ∃ s, runStores (h₁, fb) ((resizeStores fb width height h.fresh).take n) = some s ∧
      Safe s) ↔
    (width.toNat * height.toNat < fb.size.width.toNat * fb.size.height.toNat →
      width ≤ fb.size.width) ∧
    (fb.size.width.toNat * fb.size.height.toNat ≤ width.toNat * height.toNat →
      width = 0 ∨ fb.size.height ≤ height) := by
  have hne : fb.pixels ≠ h.fresh := Nat.ne_of_lt (Heap.block_lt hb.block)
  obtain ⟨h', hz, -, hnew, hother⟩ := zeroedBlock_spec h width height old
  cases hzeroed.symm.trans hz
  have hold := (hother _ hne).trans hb.block
  have hnewLen : (List.replicate (cellCount width height) (0 : UInt32)).length =
      width.toNat * height.toNat := by
    rw [List.length_replicate, cellCount_eq hs₁₁]
  have hbranch : memsize ⟨width, height⟩ < memsize fb.size ↔
      width.toNat * height.toNat < fb.size.width.toNat * fb.size.height.toNat := by
    rw [memsize_lt_iff, cellCount_eq hs₀₀, cellCount_eq hs₁₁]
  rw [← safeThroughout_iff, resizeStores]
  rcases Nat.lt_or_ge (width.toNat * height.toNat)
    (fb.size.width.toNat * fb.size.height.toNat) with hlt | hge
  · have hheight : 0 < fb.size.height.toNat := Nat.pos_of_mul_pos_left (Nat.zero_lt_of_lt hlt)
    rw [if_pos (hbranch.mpr hlt)]
    refine (shrinking_safe_iff hold hnew hne.symm hb.length hnewLen hs₀₀ hs₁₀ hs₁₁
      (Nat.le_of_lt hlt)).trans ?_
    rw [Nat.mul_le_mul_right_iff hheight, ← UInt32.le_iff_toNat_le]
    constructor
    · intro hw
      exact ⟨fun _ => hw, fun hle => absurd hlt (Nat.not_lt.mpr hle)⟩
    · intro hcond
      exact hcond.1 hlt
  · rw [if_neg fun hlt => absurd (hbranch.mp hlt) (Nat.not_lt.mpr hge)]
    refine (growing_safe_iff hold hnew hne.symm hb.length hnewLen hs₀₀ hs₁₀ hs₁₁ hge).trans ?_
    have hzero : width.toNat = 0 ↔ width = 0 := by
      rw [← UInt32.toNat_inj]
      rfl
    rw [mul_le_mul_left_iff_or, ← UInt32.le_iff_toNat_le, hzero]
    constructor
    · intro hh
      exact ⟨fun hlt => absurd hlt (Nat.not_lt.mpr hge), fun _ => hh⟩
    · intro hcond
      exact hcond.2 hge

theorem resize_safe_iff_widen :
    zeroedBlock ⟨[some [1, 2, 3, 4]]⟩ (memsize ⟨3, 2⟩) (fun _ => 7) =
        some ⟨[some [1, 2, 3, 4], some [0, 0, 0, 0, 0, 0]]⟩ ∧
      ∀ n, ∃ s, runStores (⟨[some [1, 2, 3, 4], some [0, 0, 0, 0, 0, 0]]⟩, ⟨⟨2, 2⟩, 0, 0, 0, 0⟩)
        ((resizeStores ⟨⟨2, 2⟩, 0, 0, 0, 0⟩ 3 2 1).take n) = some s ∧ Safe s :=
  ⟨rfl, (@resize_safe_iff ⟨[some [1, 2, 3, 4]]⟩ _ ⟨⟨2, 2⟩, 0, 0, 0, 0⟩ [1, 2, 3, 4] ⟨rfl, rfl⟩ 3 2
    (fun _ => 7) (by decide) (by decide) (by decide) rfl).mpr (by decide)⟩

/-- From 1×2 to 2×1, with only the width stored, a pixel of the mixed size 2×2
falls behind the new block. -/
theorem resize_unsafe_of_transpose :
    ¬∀ (h h₁ : Memory) (fb : Fb) (cells : List UInt32) (width height : UInt32)
      (old : Nat → UInt32), Backed h fb cells →
      fb.size.width.toNat * fb.size.height.toNat < 2 ^ 32 →
      fb.size.width.toNat * height.toNat < 2 ^ 32 →
      width.toNat * fb.size.height.toNat < 2 ^ 32 → width.toNat * height.toNat < 2 ^ 32 →
      zeroedBlock h (memsize ⟨width, height⟩) old = some h₁ →
      ∀ n, ∃ s, runStores (h₁, fb) ((resizeStores fb width height h.fresh).take n) = some s ∧
        Safe s := by
  intro hclaim
  obtain ⟨s, hrun, hs⟩ := hclaim ⟨[some [1, 2]]⟩ _ ⟨⟨1, 2⟩, 0, 0, 0, 0⟩ [1, 2] 2 1 (fun _ => 7)
    ⟨rfl, rfl⟩ (by decide) (by decide) (by decide) (by decide) rfl 2
  cases hrun
  exact absurd (hs 1 1 0) (by decide)

end Pixelflut.Framebuffer
