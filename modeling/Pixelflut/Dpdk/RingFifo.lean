import Pixelflut.Dpdk.RingInvariant

/-!
# First in, first out

The runs of a ring between any number of threads: what comes out is what went in, in
the same order (`ring_fifo`).
-/

namespace Pixelflut.Dpdk.Ring

open Function (update)
open Lib.Transition Lib.Claims

variable {τ α : Type} [DecidableEq τ] {r : RteRing} {s : State τ α}

/-! ## Runs -/

/-- A ring as its initialisation leaves it, with as many cells as it has room for. -/
structure Fresh (r : RteRing) (cells : List α) : Prop where
  wellFormed : r.WellFormed
  cells_length : cells.length = r.size.toNat
  zero : ∀ side, (r.ht side).head = 0 ∧ (r.ht side).tail = 0

theorem fresh_of_init {name : List Char} {count flags : UInt32} {cells : List α}
    (h : rteRingInit name count flags = .ok r) (hr : r.WellFormed)
    (hcells : cells.length = r.size.toNat) : Fresh r cells where
  wellFormed := hr
  cells_length := hcells
  zero := by
    unfold rteRingInit at h
    dsimp only at h
    split_ifs at h
    · cases h
      intro side
      cases side <;> exact ⟨rfl, rfl⟩
    · cases h
      intro side
      cases side <;> exact ⟨rfl, rfl⟩

theorem inv_init {cells : List α} (hfresh : Fresh r cells) :
    Inv r (threads (τ := τ) r cells).init where
  shape := ⟨rfl, rfl, rfl, fun _ => rfl⟩
  cells_length := hfresh.cells_length
  head_eq side := by cases side <;> exact (hfresh.zero _).1
  tail_eq side := by cases side <;> exact (hfresh.zero _).2
  tail_le side := by cases side <;> exact Nat.le_refl 0
  head_le side := by cases side <;> exact Nat.zero_le _
  given_eq := List.prefix_rfl
  returned_eq := List.prefix_rfl
  stored k _ hlt := absurd hlt (Nat.not_lt_zero k)
  ok _ := trivial
  window side := by cases side <;> exact Window.empty 0
  alone _ _ _ _ h := by cases h

theorem inv_of_reachable {cells : List α} (hfresh : Fresh r cells)
    (hs : (threads r cells).ReachableBy (okRing r) s) : Inv r s :=
  hs.invariant (inv_init hfresh) fun _ _ _ _ hi hok hstep => hi.step hfresh.wellFormed hok hstep

/-- **First in, first out.** In every run of any number of threads, what the
completed dequeues have returned is, one after another, the beginning of what the
completed enqueues were given: nothing is lost, duplicated or overwritten before
it is read, and nothing more is in the ring than it has room for. A fixed call
that has claimed cells has claimed them for its whole table. -/
theorem ring_fifo {cells : List α} (hfresh : Fresh r cells)
    (hs : (threads r cells).ReachableBy (okRing r) s) :
    s.returned <+: s.given ∧ s.given.length ≤ s.returned.length + r.capacity.toNat ∧
      ∀ t c oldHead n start, s.pc t = .storeTail c oldHead n start →
        0 < n.toNat ∧ n ≤ c.n ∧ (c.behavior = .RTE_RING_QUEUE_FIXED → n = c.n) := by
  have h := inv_of_reachable hfresh hs
  have hcounts := h.counts
  refine ⟨?_, by omega, ?_⟩
  · exact List.prefix_of_prefix_length_le h.returned_eq h.given_eq (by omega)
  · intro t c oldHead n start hpc
    have hok := h.ok t
    rw [hpc] at hok
    have hclaim : s.claims c.side t = some (start, n.toNat) := by
      rw [State.claims, hpc]
      exact if_pos rfl
    exact ⟨((h.window c.side).inside t _ _ hclaim).2.2, hok.1.le, hok.1.fixed⟩

/-- A ring of four cells. -/
def fourCells : RteRing := ⟨[], 0, 4, 3, 3, ⟨0, 0, false⟩, ⟨0, 0, false⟩⟩

theorem fourCells_init : rteRingInit [] 4 0 = .ok fourCells := rfl

theorem fourCells_fresh : Fresh fourCells [0, 0, 0, 0] :=
  fresh_of_init fourCells_init ((rteRingInit_wellFormed_iff fourCells_init).mpr (by decide)) rfl

/-- Its runs between two threads, by the steps that meet `okRing`. -/
def twoThreads : System (State Bool Nat) (Action Bool Nat) :=
  (threads fourCells [0, 0, 0, 0]).restrict fun s a => decide (okRing fourCells s a)

theorem reachable_of_twoThreads (as : List (Action Bool Nat)) {s : State Bool Nat}
    (h : twoThreads.run twoThreads.init as = some s) :
    (threads fourCells [0, 0, 0, 0]).ReachableBy (okRing fourCells) s :=
  (System.reachableBy_of_run as h).mono fun _ _ hok => of_decide_eq_true hok

/-- Both threads race for the head; the one that loses it tries again, and then
dequeues what is there. -/
def raceThenDequeue : List (Action Bool Nat) :=
  [.call false ⟨.prod, .RTE_RING_QUEUE_FIXED, 1, [7], rfl⟩,
    .call true ⟨.prod, .RTE_RING_QUEUE_FIXED, 2, [8, 9], rfl⟩, .step false, .step false] ++
  List.replicate 8 (.step true) ++ List.replicate 8 (.step false) ++
  [.call false ⟨.cons, .RTE_RING_QUEUE_VARIABLE, 4, [0, 0, 0, 0], rfl⟩] ++
  List.replicate 9 (.step false)

theorem ring_fifo_raceThenDequeue :
    ∃ s, twoThreads.run twoThreads.init raceThenDequeue = some s ∧
      s.returned <+: s.given ∧ s.given.length ≤ s.returned.length + fourCells.capacity.toNat ∧
      ∀ t c oldHead n start, s.pc t = .storeTail c oldHead n start →
        0 < n.toNat ∧ n ≤ c.n ∧ (c.behavior = .RTE_RING_QUEUE_FIXED → n = c.n) := by
  obtain ⟨s, hrun⟩ := Option.isSome_iff_exists.mp
    (show (twoThreads.run twoThreads.init raceThenDequeue).isSome by decide)
  exact ⟨s, hrun, ring_fifo fourCells_fresh (reachable_of_twoThreads _ hrun)⟩

end Pixelflut.Dpdk.Ring
