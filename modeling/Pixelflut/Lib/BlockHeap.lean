import Mathlib.Data.List.Basic

/-!
# A heap of blocks

A block is the list of its cells. An address is the position of a block in the
order of allocation, so an address is never given out twice; a freed block
stays behind as `none`. Every access is checked: `load`, `store` and `free`
return `none` on a freed block and on an address never given out, `load` and
`store` also on a cell outside the block.

`alloc_spec`, `free_spec`, `store_spec` and `fill_spec` say all that an
operation does, `store_of_load` the same of a store by cells, and
`store_isSome_iff` when a store is refused.
-/

namespace Lib.BlockHeap

variable {α : Type}

/-- The blocks in the order of allocation. -/
structure Heap (α : Type) where
  blocks : List (Option (List α))
  deriving DecidableEq

namespace Heap

/-- The cells of the block at `p`, unless it is freed or was never allocated. -/
def block (h : Heap α) (p : Nat) : Option (List α) := (h.blocks[p]?).join

/-- The address that the next allocation gives out. -/
def fresh (h : Heap α) : Nat := h.blocks.length

/-- Allocate a block; its address is `h.fresh`. -/
def alloc (h : Heap α) (b : List α) : Heap α := ⟨h.blocks ++ [some b]⟩

def free (h : Heap α) (p : Nat) : Option (Heap α) :=
  if (h.block p).isSome then some ⟨h.blocks.set p none⟩ else none

def load (h : Heap α) (p i : Nat) : Option α := (h.block p).bind fun b => b[i]?

def store (h : Heap α) (p i : Nat) (v : α) : Option (Heap α) :=
  (h.block p).bind fun b =>
    if i < b.length then some ⟨h.blocks.set p (some (b.set i v))⟩ else none

/-- Write `v` to the first `n` cells of the block at `p`. -/
def fill (h : Heap α) (p n : Nat) (v : α) : Option (Heap α) :=
  (h.block p).bind fun b =>
    if n ≤ b.length then some ⟨h.blocks.set p (some (List.replicate n v ++ b.drop n))⟩ else none

theorem block_lt {h : Heap α} {p : Nat} {b : List α} (hb : h.block p = some b) : p < h.fresh := by
  by_contra hp
  simp [block, List.getElem?_eq_none (Nat.le_of_not_lt hp)] at hb

theorem block_set_self {h : Heap α} {p : Nat} (c : Option (List α)) (hp : p < h.fresh) :
    (Heap.mk (h.blocks.set p c)).block p = c := by
  simp only [fresh] at hp
  simp [block, hp]

theorem block_set_ne {h : Heap α} {p q : Nat} (c : Option (List α)) (hq : q ≠ p) :
    (Heap.mk (h.blocks.set p c)).block q = h.block q := by
  simp [block, List.getElem?_set_ne (Ne.symm hq)]

theorem alloc_spec (h : Heap α) (b : List α) :
    (h.alloc b).block h.fresh = some b ∧ (h.alloc b).fresh = h.fresh + 1 ∧
      ∀ p, p ≠ h.fresh → (h.alloc b).block p = h.block p := by
  refine ⟨by simp [alloc, block, fresh], by simp [alloc, fresh], fun p hp => ?_⟩
  rcases Nat.lt_or_gt_of_ne hp with hlt | hgt
  · simp only [alloc, block, List.getElem?_append_left hlt]
  · have hold : h.blocks.length ≤ p := Nat.le_of_lt hgt
    have hnew : (h.blocks ++ [some b]).length ≤ p := by
      rw [List.length_append]
      exact hgt
    simp only [alloc, block, List.getElem?_eq_none hold, List.getElem?_eq_none hnew]

theorem free_spec {h : Heap α} {p : Nat} {b : List α} (hb : h.block p = some b) :
    ∃ h', h.free p = some h' ∧ h'.fresh = h.fresh ∧ h'.block p = none ∧
      ∀ q, q ≠ p → h'.block q = h.block q := by
  refine ⟨⟨h.blocks.set p none⟩, by simp [free, hb], by simp [fresh], ?_, ?_⟩
  · exact block_set_self none (block_lt hb)
  · exact fun q hq => block_set_ne none hq

theorem store_spec {h : Heap α} {p i : Nat} {b : List α} (v : α) (hb : h.block p = some b)
    (hi : i < b.length) :
    ∃ h', h.store p i v = some h' ∧ h'.fresh = h.fresh ∧ h'.block p = some (b.set i v) ∧
      ∀ q, q ≠ p → h'.block q = h.block q := by
  refine ⟨⟨h.blocks.set p (some (b.set i v))⟩, by simp [store, hb, hi], by simp [fresh], ?_, ?_⟩
  · exact block_set_self _ (block_lt hb)
  · exact fun q hq => block_set_ne _ hq

/-- Filling a block completely leaves nothing of its old content. -/
theorem fill_spec {h : Heap α} {p : Nat} {b : List α} (v : α) (hb : h.block p = some b) :
    ∃ h', h.fill p b.length v = some h' ∧ h'.fresh = h.fresh ∧
      h'.block p = some (List.replicate b.length v) ∧ ∀ q, q ≠ p → h'.block q = h.block q := by
  refine ⟨⟨h.blocks.set p (some (List.replicate b.length v))⟩, by simp [fill, hb], by simp [fresh],
    ?_, ?_⟩
  · exact block_set_self _ (block_lt hb)
  · exact fun q hq => block_set_ne _ hq

/-- A store into a live block is refused exactly outside its cells. -/
theorem store_isSome_iff {h : Heap α} {p i : Nat} {b : List α} (v : α) (hb : h.block p = some b) :
    (h.store p i v).isSome ↔ i < b.length := by
  by_cases hi : i < b.length <;> simp [store, hb, hi]

theorem load_of_block {h : Heap α} {p : Nat} {b : List α} (hb : h.block p = some b) (i : Nat) :
    h.load p i = b[i]? := by
  simp [load, hb]

theorem load_of_dead {h : Heap α} {p : Nat} (hp : h.block p = none) (i : Nat) :
    h.load p i = none := by
  simp [load, hp]

/-- A cell that can be read can be written; only that cell changes. -/
theorem store_of_load {h : Heap α} {p i : Nat} {w : α} (v : α) (hw : h.load p i = some w) :
    ∃ h', h.store p i v = some h' ∧ h'.fresh = h.fresh ∧ h'.load p i = some v ∧
      (∀ q j, q ≠ p ∨ j ≠ i → h'.load q j = h.load q j) ∧
      ∀ q, (h'.block q).map List.length = (h.block q).map List.length := by
  obtain ⟨b, hb, hi⟩ := Option.bind_eq_some_iff.mp hw
  obtain ⟨hlt, -⟩ := List.getElem?_eq_some_iff.mp hi
  obtain ⟨h', hstore, hfresh, hself, hother⟩ := store_spec v hb hlt
  refine ⟨h', hstore, hfresh, ?_, fun q j hqj => ?_, fun q => ?_⟩
  · rw [load_of_block hself, List.getElem?_set_self hlt]
  · by_cases hq : q = p
    · subst hq
      have hj : i ≠ j := fun hji => hqj.elim (fun hne => hne rfl) fun hne => hne hji.symm
      rw [load_of_block hself, load_of_block hb, List.getElem?_set_ne hj]
    · rw [load, load, hother q hq]
  · by_cases hq : q = p
    · subst hq
      rw [hself, hb]
      simp
    · rw [hother q hq]

end Heap

end Lib.BlockHeap
