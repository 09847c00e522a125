import Mathlib.Data.Multiset.Basic
import Mathlib.Algebra.Order.Group.Multiset
import Pixelflut.Dpdk.RingFifo

/-!
# What one call of a ring moves

`Uses side count pc` says that a thread is in a call for all or nothing of `count`
pointers on one side, or has returned from it. While it is, the pointers are with
the caller (`offered`, `result`) or in the ring (`inRing`): `accounts_step`.
`enqueue_fits` is the condition under which an enqueue is not refused.
-/

namespace Pixelflut.Dpdk.Ring

open Function (update)
open Lib.Transition Lib.Claims Lib.Wrapping

variable {τ α : Type}

/-- The pointers that are stored, or that some thread is copying. -/
def State.inRing (s : State τ α) : List α := s.reserved.drop s.returned.length

/-- The table of an enqueue that has not claimed its cells yet. -/
def Pc.offered : Pc α → List α
  | .readHead c | .readTail c _ _ | .cmpset c _ _ _ => if c.side = .prod then c.objTable else []
  | _ => []

/-- The table with which a dequeue has returned. -/
def Pc.result (side : Side) : Pc α → List α
  | .idle n objTable => if side = .cons ∧ n ≠ 0 then objTable else []
  | _ => []

@[simp] theorem Pc.result_prod (pc : Pc α) : pc.result .prod = [] := by
  unfold Pc.result
  split
  · simp
  · rfl

@[simp] theorem Pc.offered_idle (n : UInt32) (objTable : List α) :
    (Pc.idle n objTable).offered = [] := rfl

/-- A fixed call of `count` pointers on one side: what it has returned with, or its
arguments. -/
def Uses (side : Side) (count : Nat) : Pc α → Prop
  | .idle n objTable => n.toNat = count ∧ objTable.length = count ∨ side = .cons ∧ n = 0
  | .readHead c | .readTail c _ _ | .cmpset c _ _ _ | .copy c _ _ _ _ | .updateTail c _ _ _
  | .storeTail c _ _ _ => c.side = side ∧ c.behavior = .RTE_RING_QUEUE_FIXED ∧ c.n.toNat = count

variable {r : RteRing} {s s' : State τ α}

/-- An enqueue of no more pointers than there is room for is not refused. -/
theorem enqueue_fits (hr : r.WellFormed) (h : Inv r s) {c : Call α} {oldHead : UInt32} {seen : Nat}
    (hseen : Seen r s c oldHead seen) (hside : c.side = .prod)
    (hnear : s.reserved.length < seen + 2 ^ 31)
    (hroom : s.inRing.length + c.n.toNat ≤ r.capacity.toNat) :
    moveBy c.n c.behavior (s.ring.entries oldHead c.side) = c.n := by
  obtain ⟨k, hk, hsize⟩ := hr.exists_pow
  have hpow : 2 ^ k ≤ 2 ^ 31 := Nat.pow_le_pow_right (by omega) hk
  have hcap := hr.capacity_lt
  have hcounts := h.counts
  have hle := hseen.le
  rw [hside] at hle ⊢
  simp only [State.headCount] at hle
  rw [State.inRing, List.length_drop] at hroom
  have hentries : (s.ring.entries oldHead .prod).toNat =
      s.returned.length + r.capacity.toNat - seen := by
    have htail : s.ring.capacity + s.ring.cons.tail =
        .ofNat (s.returned.length + r.capacity.toNat) := by
      rw [h.shape.capacity, ← ofNat_add_toNat, UInt32.add_comm]
      exact congrArg (· + r.capacity) (h.tail_eq .cons)
    rw [RteRing.entries, htail, hseen.head]
    apply sub_ofNat_toNat
    · omega
    · omega
  unfold moveBy
  rw [if_neg]
  rw [gt_iff_lt, UInt32.lt_iff_toNat_lt, hentries]
  omega

variable [DecidableEq τ]

/-- The call stays the one it was, and returns with all or nothing. -/
theorem Uses.step (h : Inv r s) {t : τ} {side : Side} {count : Nat} (hu : Uses side count (s.pc t))
    (hfits : ∀ c oldHead seen, s.pc t = .readTail c oldHead seen → side = .prod →
      moveBy c.n c.behavior (s.ring.entries oldHead c.side) = c.n)
    (hmove : Move s (.step t) s') : Uses side count (s'.pc t) := by
  cases hmove with
  | readHead hpc =>
    rw [hpc] at hu
    rw [goto_pc_self]
    exact hu
  | @refuse t c oldHead seen hpc hn =>
    have hu' := hu
    rw [hpc] at hu'
    rw [goto_pc_self]
    cases side with
    | cons => exact Or.inr ⟨rfl, rfl⟩
    | prod =>
      have hzero : c.n = 0 := (hfits c oldHead seen hpc rfl).symm.trans hn
      have hcount := hu'.2.2
      rw [hzero] at hcount
      refine Or.inl ⟨hcount, ?_⟩
      rw [c.length_eq, hzero]
      exact hcount
  | room hpc hn hz =>
    rw [hpc] at hu
    rw [goto_pc_self]
    exact hu
  | retry hpc _ =>
    rw [hpc] at hu
    rw [goto_pc_self]
    exact hu
  | claim hpc hhead =>
    rw [hpc] at hu
    rw [claim_pc, Function.update_self]
    exact hu
  | copied hpc =>
    rw [hpc] at hu
    rw [goto_pc_self]
    exact hu
  | put hpc hside ha =>
    rw [hpc] at hu
    rw [goto_pc_self]
    exact hu
  | get hpc hside ha =>
    rw [hpc] at hu
    rw [goto_pc_self]
    exact hu
  | wait hpc _ => exact hu
  | turn hpc htail =>
    rw [hpc] at hu
    rw [goto_pc_self]
    exact hu
  | @publish t c oldHead n start hpc =>
    have hok := h.ok t
    rw [hpc] at hok hu
    rw [publish_pc, Function.update_self, hok.1.fixed hu.2.1]
    exact Or.inl ⟨hu.2.2, c.length_eq.trans hu.2.2⟩

/-- **The pointers of a call are with its caller or in the ring.** -/
theorem accounts_step (h : Inv r s) (h' : Inv r s') {t : τ} {side : Side} {count : Nat}
    (hu : Uses side count (s.pc t))
    (hfits : ∀ c oldHead seen, s.pc t = .readTail c oldHead seen → side = .prod →
      moveBy c.n c.behavior (s.ring.entries oldHead c.side) = c.n)
    (hmove : Move s (.step t) s') :
    (s'.inRing : Multiset α) + ((s'.pc t).offered + (s'.pc t).result side) =
      s.inRing + ((s.pc t).offered + (s.pc t).result side) := by
  cases hmove with
  | readHead hpc =>
    rw [hpc, goto_pc_self]
    rfl
  | @refuse t c oldHead seen hpc hn =>
    rw [hpc] at hu
    rw [hpc, goto_pc_self]
    change (s.inRing : Multiset α) + (([] : List α) + Pc.result side (.idle 0 c.objTable)) = _
    have hresult : Pc.result side (.idle 0 c.objTable) = [] := if_neg fun hc => hc.2 rfl
    have hoffered : (Pc.readTail c oldHead seen).offered = [] := by
      cases hside : side with
      | cons => exact if_neg (by rw [hu.1, hside]; exact Side.noConfusion)
      | prod =>
        have hzero : c.n = 0 := (hfits c oldHead seen hpc hside).symm.trans hn
        have hnil : c.objTable = [] := by
          rw [← List.length_eq_zero_iff, c.length_eq, hzero]
          rfl
        rw [Pc.offered, hnil, ite_self]
    rw [hresult, hoffered]
    rfl
  | room hpc hn hz =>
    rw [hpc, goto_pc_self]
    rfl
  | retry hpc _ =>
    rw [hpc, goto_pc_self]
    rfl
  | @claim t c oldHead n seen hpc hhead =>
    have hok := h.ok t
    rw [hpc] at hok hu
    have hcounts := h.counts
    have hall : c.objTable.take n.toNat = c.objTable := by
      apply List.take_of_length_le
      rw [c.length_eq, hok.2.fixed hu.2.1]
    rw [hpc, claim_pc, Function.update_self, State.inRing, claim_reserved,
      (claim_same t c oldHead n).2.2, List.drop_append_of_le_length (by omega), hall]
    change ((s.inRing ++ _ : List α) : Multiset α) + 0 = s.inRing + ((Pc.offered _ : List α) + 0)
    rw [add_zero, add_zero, ← Multiset.coe_add]
    rfl
  | copied hpc =>
    rw [hpc, goto_pc_self]
    rfl
  | put hpc hside ha =>
    rw [hpc, goto_pc_self]
    rfl
  | get hpc hside ha =>
    rw [hpc, goto_pc_self]
    rfl
  | wait hpc _ => rfl
  | turn hpc htail =>
    rw [hpc, goto_pc_self]
    rfl
  | @publish t c oldHead n start hpc =>
    have hok := h.ok t
    rw [hpc] at hok hu
    have hn : n = c.n := hok.1.fixed hu.2.1
    have hall : c.objTable.take n.toNat = c.objTable := by
      apply List.take_of_length_le
      rw [c.length_eq, hn]
    rw [hpc, publish_pc, Function.update_self]
    cases hside : c.side with
    | prod =>
      have hresult : Pc.result side (.idle n c.objTable) = [] :=
        if_neg fun hc => by rw [← hu.1, hside] at hc; cases hc.1
      rw [hresult, State.inRing, publish_returned, (publish_same t c oldHead n).2.1, hside]
      rw [if_neg Side.noConfusion, List.append_nil]
      rfl
    | cons =>
      have hclaim : s.claims c.side t = some (start, n.toNat) := by
        rw [State.claims, hpc]
        exact if_pos rfl
      have hpos := ((h.window c.side).inside t _ _ hclaim).2.2
      have hresult : Pc.result side (.idle n c.objTable) = c.objTable := by
        apply if_pos
        refine ⟨hu.1.symm.trans hside, ?_⟩
        rintro rfl
        exact Nat.lt_irrefl 0 hpos
      -- what is returned comes first in the ring
      have hprefix := h'.returned_eq
      rw [publish_returned, (publish_same t c oldHead n).2.1, if_pos hside, hall] at hprefix
      obtain ⟨rest, hrest⟩ := hprefix
      rw [hresult, State.inRing, State.inRing, publish_returned, (publish_same t c oldHead n).2.1,
        if_pos hside, hall, ← hrest, List.drop_left, List.append_assoc, List.drop_left,
        ← Multiset.coe_add]
      change (rest : Multiset α) + (0 + c.objTable) = c.objTable + rest + (0 + 0)
      rw [zero_add, add_zero, add_zero, add_comm]

end Pixelflut.Dpdk.Ring
