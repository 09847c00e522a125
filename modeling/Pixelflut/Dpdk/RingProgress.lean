import Mathlib.Algebra.BigOperators.Ring.Finset
import Pixelflut.Lib.Rounds
import Pixelflut.Dpdk.RingFifo

/-!
# A ring that never locks up

How long the calls of a ring may take. A compare-and-set fails only if another thread
has claimed cells since the head was read, and a thread waits in `update_tail` only for
threads that have claimed cells before it.

* `Inv.work_step`: the steps that a call of `n` pointers is worth;
* `Inv.owed_step`: what is still to be done before the cells claimed so far are
  published;
* `ring_progress`: the two bounds for whole runs.
-/

namespace Pixelflut.Dpdk.Ring

open Function (update)
open Lib.Transition Lib.Claims

variable {τ α : Type} {r : RteRing} {s s' : State τ α}

/-! ## What is left of a call -/

/-- The steps of a thread that has claimed cells, up to their publication. -/
def Pc.left : Pc α → Nat
  | .copy _ _ _ todo _ => todo.length + 3
  | .updateTail _ _ _ _ => 2
  | .storeTail _ _ _ _ => 1
  | _ => 0

/-- These steps, if the cells begin below `upTo`. -/
def Pc.owed (side : Side) (upTo : Nat) (pc : Pc α) : Nat :=
  (pc.claim side).elim 0 fun c => if c.1 < upTo then pc.left else 0

theorem Pc.left_pos {pc : Pc α} {side : Side} {c : Nat × Nat} (h : pc.claim side = some c) :
    0 < pc.left := by
  cases pc with
  | copy | updateTail | storeTail => exact Nat.succ_pos _
  | _ => cases h

theorem Pc.owed_of_none {pc : Pc α} {side : Side} (upTo : Nat) (h : pc.claim side = none) :
    pc.owed side upTo = 0 := by
  rw [Pc.owed, h]
  rfl

theorem Pc.owed_of_some {pc : Pc α} {side : Side} {start n : Nat} (upTo : Nat)
    (h : pc.claim side = some (start, n)) :
    pc.owed side upTo = if start < upTo then pc.left else 0 := by
  rw [Pc.owed, h]
  rfl

theorem Pc.owed_pos {pc : Pc α} {side : Side} {start n upTo : Nat}
    (h : pc.claim side = some (start, n)) (hlt : start < upTo) : 0 < pc.owed side upTo := by
  rw [owed_of_some upTo h, if_pos hlt]
  exact left_pos h

theorem toNat_and_pos_le (works : Bool) (n : Nat) : (works && decide (0 < n)).toNat ≤ n := by
  cases n with
  | zero => simp
  | succ n => exact Nat.le_trans (Bool.toNat_le _) (Nat.succ_pos n)

/-- A thread that goes on with its claim owes less, if it owes anything. -/
theorem Pc.owed_goOn {pc pc' : Pc α} {side : Side} {upTo : Nat}
    (hclaim : pc'.claim side = pc.claim side) (hleft : pc'.left + 1 ≤ pc.left) (works : Bool) :
    pc'.owed side upTo + (works && decide (0 < pc.owed side upTo)).toNat ≤
      pc.owed side upTo := by
  cases hc : pc.claim side with
  | none =>
    rw [owed_of_none upTo hc, owed_of_none upTo (hclaim.trans hc), Nat.zero_add]
    exact toNat_and_pos_le works 0
  | some c =>
    rw [owed_of_some upTo hc, owed_of_some upTo (hclaim.trans hc)]
    split
    · exact Nat.le_trans (Nat.add_le_add_left (Bool.toNat_le _) _) hleft
    · rw [Nat.zero_add]
      exact toNat_and_pos_le works 0

/-- A claim of `n` cells leaves at most `n + 3` steps. -/
theorem Pc.owed_le (hr : r.WellFormed) {side : Side} (upTo : Nat) {t : τ}
    (hok : s.Ok r (s.pc t)) (hpos : ∀ start n, s.claims side t = some (start, n) → 0 < n) :
    (s.pc t).owed side upTo ≤ 4 * (s.claims side t).elim 0 Prod.snd := by
  unfold State.claims at hpos ⊢
  generalize s.pc t = pc at hok hpos
  cases hc : pc.claim side with
  | none => exact Nat.le_of_eq (owed_of_none upTo hc)
  | some c =>
    have hn := hpos c.1 c.2 hc
    have hleft : pc.left ≤ c.2 + 3 := by
      cases pc with
      | copy call oldHead n todo start =>
        obtain ⟨hclaimed, k, -, rfl, -⟩ := hok
        rw [Pc.claim] at hc
        split at hc
        · cases hc
          rw [Pc.left, List.length_drop, hclaimed.length_copyPtrs hr]
          omega
        · cases hc
      | updateTail => simp only [Pc.left]; omega
      | storeTail => simp only [Pc.left]; omega
      | _ => cases hc
    rw [owed_of_some upTo hc, Option.elim_some]
    split_ifs <;> omega

variable [DecidableEq τ]

/-! ## A step for everyone -/

/-- The accesses of a copying thread lie inside the ring and its table. -/
theorem Inv.access_isSome (hr : r.WellFormed) (h : Inv r s) {t : τ} {c : Call α}
    {oldHead n idx i : UInt32} {todo : List (UInt32 × UInt32)} {start : Nat}
    (hpc : s.pc t = .copy c oldHead n ((idx, i) :: todo) start) :
    (s.access t c oldHead n idx i todo start).isSome := by
  have hok := h.ok t
  rw [hpc] at hok
  obtain ⟨hc, k, -, htodo, -⟩ := hok
  obtain ⟨hk, hidx, hi, -⟩ := hc.access hr htodo
  have hcell : idx.toNat < s.cells.length := by
    rw [h.cells_length, hidx]
    exact Nat.mod_lt _ (by have := hr.capacity_lt; omega)
  have hentry : i.toNat < c.objTable.length := by
    rw [c.length_eq, hi]
    exact Nat.lt_of_lt_of_le hk (UInt32.le_iff_toNat_le.mp hc.le)
  unfold State.access
  rw [List.getElem?_eq_getElem hcell, List.getElem?_eq_getElem hentry]
  cases c.side with
  | prod => rfl
  | cons => rfl

/-- A thread in a call has a step, which stays inside the ring and its table. -/
theorem Inv.step_isSome (hr : r.WellFormed) (h : Inv r s) {t : τ} {side : Side}
    (hbusy : (s.pc t).side = some side) : (ringStep s (.step t)).isSome := by
  cases hpc : s.pc t with
  | idle n objTable =>
    rw [hpc] at hbusy
    cases hbusy
  | readHead c => rw [ringStep, hpc]; rfl
  | readTail c oldHead seen =>
    rw [ringStep, hpc]
    dsimp only
    split
    · rfl
    · rfl
  | cmpset c oldHead n seen =>
    rw [ringStep, hpc]
    dsimp only
    split
    · rfl
    · rfl
  | copy c oldHead n todo start =>
    cases todo with
    | nil => rw [ringStep, hpc]; rfl
    | cons access todo =>
      rw [ringStep, hpc]
      exact h.access_isSome hr hpc
  | updateTail c oldHead n start =>
    rw [ringStep, hpc]
    dsimp only
    split
    · rfl
    · rfl
  | storeTail c oldHead n start => rw [ringStep, hpc]; rfl

/-! ## What calls are worth -/

/-- The action is a step that is no turn of the loop of `update_tail`. -/
def State.works (s : State τ α) : Action τ α → Bool
  | .call _ _ => false
  | .step t =>
    match s.pc t with
    | .updateTail c oldHead _ _ => (s.ring.ht c.side).single || (s.ring.ht c.side).tail == oldHead
    | _ => true

/-- The steps of a call of `n` pointers: one for each pointer and six others, and for
each thread three that may be lost. -/
def callSteps (threads : Nat) : Action τ α → Nat
  | .call _ c => c.n.toNat + 6 + 3 * threads
  | .step _ => 0

/-- The steps that a thread has before it, and may lose. It loses a round of three when
the head is not any more what it has seen. -/
def Pc.work (threads : Nat) (head : Side → Nat) : Pc α → Nat
  | .idle _ _ => 0
  | .readHead c => c.n.toNat + 6 + 3 * threads
  | .readTail c _ seen => (if seen = head c.side then 0 else 3) + c.n.toNat + 5 + 3 * threads
  | .cmpset c _ _ seen => (if seen = head c.side then 0 else 3) + c.n.toNat + 4 + 3 * threads
  | .copy _ _ _ todo _ => todo.length + 3
  | .updateTail _ _ _ _ => 2
  | .storeTail _ _ _ _ => 1

theorem Pc.work_pos (threads : Nat) (head : Side → Nat) {pc : Pc α} (h : pc.side ≠ none) :
    0 < pc.work threads head := by
  cases pc with
  | idle n objTable => exact absurd rfl h
  | _ =>
    simp only [Pc.work]
    omega

/-- A head that is moved costs a round at most. -/
theorem Pc.work_le (threads : Nat) (head head' : Side → Nat) (pc : Pc α) :
    pc.work threads head' ≤ pc.work threads head + 3 := by
  cases pc with
  | readTail c oldHead seen =>
    simp only [Pc.work]
    split_ifs <;> omega
  | cmpset c oldHead n seen =>
    simp only [Pc.work]
    split_ifs <;> omega
  | _ => exact Nat.le_add_right _ 3

section
variable [Fintype τ]

def State.work (s : State τ α) : Nat := ∑ t, (s.pc t).work (Fintype.card τ) s.headCount

theorem work_goto (t : τ) (pc : Pc α) {d g : Nat}
    (hle : pc.work (Fintype.card τ) s.headCount + d ≤
      (s.pc t).work (Fintype.card τ) s.headCount + g) : (s.goto t pc).work + d ≤ s.work + g := by
  have hhead : (s.goto t pc).headCount = s.headCount := funext (headCount_goto t pc)
  apply sum_rank_le t (e := 0)
  · intro t' hne
    rw [goto_pc_ne pc hne, hhead]
    exact Nat.le_refl _
  · rw [goto_pc_self, hhead]
    omega


/-- A claim is worth the rounds that the others lose by it. -/
theorem Inv.work_claim (hr : r.WellFormed) (h : Inv r s) {t : τ} {c : Call α}
    {oldHead n : UInt32} {seen : Nat} (hpc : s.pc t = .cmpset c oldHead n seen)
    (h' : Inv r (s.claim t c oldHead n)) : (s.claim t c oldHead n).work + 1 ≤ s.work := by
  have hok := h'.ok t
  rw [claim_pc, Function.update_self] at hok
  have hlen := hok.1.length_copyPtrs hr
  have hle := UInt32.le_iff_toNat_le.mp hok.1.le
  apply sum_rank_le t (e := 3) (g := 0)
  · intro t' hne
    rw [claim_pc, Function.update_of_ne hne]
    exact Pc.work_le _ _ _ _
  · rw [claim_pc, Function.update_self, hpc, h.shape.copyPtrs]
    simp only [Pc.work, hlen]
    split_ifs <;> omega

/-- **What a step is worth.** -/
theorem Inv.work_step (hr : r.WellFormed) (h : Inv r s) (h' : Inv r s') {a : Action τ α}
    (hstep : ringStep s a = some s') :
    s'.work + (s.works a).toNat ≤ s.work + callSteps (Fintype.card τ) a := by
  cases move_of_ringStep hstep with
  | call c hpc =>
    apply work_goto
    rw [hpc]
    simp [Pc.work, State.works, callSteps]
  | readHead hpc =>
    apply work_goto
    simp only [hpc, Pc.work, State.works, callSteps, ↓reduceIte, Bool.toNat_true]
    omega
  | refuse hpc _ | room hpc _ _ =>
    apply work_goto
    simp only [hpc, Pc.work, State.works, callSteps, Bool.toNat_true]
    omega
  | @retry t c oldHead n seen hpc hlost =>
    -- the head is not what this thread has seen
    have hseen := h.ok t
    rw [hpc] at hseen
    have hne : seen ≠ s.headCount c.side := by
      intro he
      apply hlost
      rw [h.head_eq, ← he, hseen.1.head]
      exact Or.inr rfl
    apply work_goto
    simp only [hpc, Pc.work, State.works, callSteps, hne, ↓reduceIte, Bool.toNat_true]
    omega
  | @claim t c oldHead n seen hpc _ =>
    have hclaim := h.work_claim hr hpc h'
    simpa [State.works, hpc, callSteps] using hclaim
  | copied hpc | get hpc _ _ =>
    apply work_goto
    simp [hpc, Pc.work, State.works, callSteps]
  | @put t c oldHead n idx i todo start a hpc _ _ =>
    apply work_goto (s := { s with cells := s.cells.set idx.toNat a })
    simp [hpc, Pc.work, State.works, callSteps]
  | @wait t c oldHead n start hpc hwait =>
    have hworks : s.works (.step t) = false := by simpa [State.works, hpc] using hwait
    rw [hworks]
    exact Nat.le_refl _
  | turn hpc _ =>
    apply work_goto
    simp only [hpc, Pc.work, State.works, callSteps]
    exact Nat.add_le_add_left (Bool.toNat_le _) 1
  | @publish t c oldHead n start hpc =>
    have hhead : (s.publish t c oldHead n).headCount = s.headCount :=
      funext (publish_headCount t c oldHead n)
    apply sum_rank_le t (e := 0)
    · intro t' hne
      rw [publish_pc, Function.update_of_ne hne, hhead]
      exact Nat.le_refl _
    · simp [publish_pc, hpc, Pc.work, State.works, callSteps]

/-! ## What is still to be done for the cells claimed -/

def State.owed (s : State τ α) (side : Side) (upTo : Nat) : Nat :=
  ∑ t, (s.pc t).owed side upTo

/-- The action is a step towards the publication of the cells below `upTo`. -/
def State.pays (s : State τ α) (side : Side) (upTo : Nat) : Action τ α → Bool
  | .call _ _ => false
  | .step t => s.works (.step t) && decide (0 < (s.pc t).owed side upTo)

omit [DecidableEq τ] [Fintype τ] in
theorem pays_step (side : Side) (upTo : Nat) (t : τ) : s.pays side upTo (.step t) =
    (s.works (.step t) && decide (0 < (s.pc t).owed side upTo)) := rfl

theorem owed_goto (t : τ) (pc : Pc α) {side : Side} {upTo d : Nat}
    (hle : pc.owed side upTo + d ≤ (s.pc t).owed side upTo) :
    (s.goto t pc).owed side upTo + d ≤ s.owed side upTo := by
  apply sum_rank_le t (e := 0) (g := 0)
  · intro t' hne
    rw [goto_pc_ne pc hne]
    exact Nat.le_refl _
  · rw [goto_pc_self]
    omega

/-- **Nothing is added to what is owed, and each such step takes something away.** -/
theorem owed_step {a : Action τ α} (hmove : Move s a s') {side : Side} {upTo : Nat}
    (hup : upTo ≤ s.headCount side) :
    s'.owed side upTo + (s.pays side upTo a).toNat ≤ s.owed side upTo := by
  cases hmove with
  | call c hpc =>
    apply owed_goto
    rw [Pc.owed_of_none upTo rfl]
    exact Nat.zero_le _
  | readHead hpc | refuse hpc _ | room hpc _ _ | retry hpc _ =>
    apply owed_goto
    simp [hpc, Pc.owed, Pc.claim, State.pays]
  | @claim t c oldHead n seen hpc _ =>
    apply sum_rank_le t (e := 0) (g := 0)
    · intro t' hne
      rw [claim_pc, Function.update_of_ne hne]
      exact Nat.le_refl _
    · -- the new cells lie above
      have hnew : (Pc.copy c oldHead n (copyPtrs s.ring oldHead n) (s.headCount c.side)).owed
          side upTo = 0 := by
        simp only [Pc.owed, Pc.claim]
        split
        · next hside =>
          rw [hside]
          exact if_neg (Nat.not_lt.mpr hup)
        · rfl
      rw [claim_pc, Function.update_self, hnew]
      simp [hpc, Pc.owed, Pc.claim, State.pays]
  | copied hpc | get hpc _ _ | turn hpc _ =>
    apply owed_goto
    rw [pays_step, hpc]
    refine Pc.owed_goOn ?_ ?_ _
    · rfl
    · exact Nat.le_refl _
  | @put t c oldHead n idx i todo start a hpc _ _ =>
    apply owed_goto (s := { s with cells := s.cells.set idx.toNat a })
    rw [pays_step, hpc]
    refine Pc.owed_goOn ?_ ?_ _
    · rfl
    · exact Nat.le_refl _
  | @wait t c oldHead n start hpc hwait =>
    have hworks : s.works (.step t) = false := by simpa [State.works, hpc] using hwait
    rw [pays_step, hworks]
    exact Nat.le_refl _
  | @publish t c oldHead n start hpc =>
    apply sum_rank_le t (e := 0) (g := 0)
    · intro t' hne
      rw [publish_pc, Function.update_of_ne hne]
      exact Nat.le_refl _
    · rw [publish_pc, Function.update_self, Pc.owed_of_none upTo rfl, pays_step]
      have := toNat_and_pos_le (s.works (.step t)) ((s.pc t).owed side upTo)
      omega

omit [DecidableEq τ] in
/-- What is owed on one side, in terms of the ring. -/
theorem Inv.owed_le (hr : r.WellFormed) (h : Inv r s) (side : Side) (upTo : Nat) :
    s.owed side upTo ≤ 4 * r.capacity.toNat := by
  have hcounts := h.counts
  calc
    s.owed side upTo ≤ ∑ t, 4 * (s.claims side t).elim 0 Prod.snd :=
      Finset.sum_le_sum fun t _ => Pc.owed_le hr upTo (h.ok t) fun start n hc =>
        ((h.window side).inside t start n hc).2.2
    _ = 4 * ∑ t, (s.claims side t).elim 0 Prod.snd := (Finset.mul_sum _ _ _).symm
    _ ≤ 4 * (s.headCount side - s.tailCount side) :=
      Nat.mul_le_mul_left 4 (h.window side).sum_le
    _ ≤ 4 * r.capacity.toNat := by
      cases side with
      | prod =>
        simp only [State.headCount, State.tailCount]
        omega
      | cons =>
        simp only [State.headCount, State.tailCount]
        omega

end

/-! ## Who comes next -/

/-- A thread in a call moves by its own steps only. -/
theorem Move.pc_kept {a : Action τ α} (hmove : Move s a s') {t : τ} {side : Side}
    (hbusy : (s.pc t).side = some side) (hne : a ≠ .step t) : s'.pc t = s.pc t := by
  cases a with
  | step t' => exact hmove.pc_ne fun he => hne (congrArg Action.step he.symm)
  | call t' c =>
    cases hmove with
    | call c hpc =>
      apply goto_pc_ne
      rintro rfl
      rw [hpc] at hbusy
      cases hbusy

/-- Heads are only moved on. -/
theorem Inv.headCount_le (h : Inv r s) {a : Action τ α} (hmove : Move s a s') (side : Side) :
    s.headCount side ≤ s'.headCount side := by
  cases hmove with
  | @claim t c oldHead n seen hpc _ =>
    have hok := h.ok t
    rw [hpc] at hok
    rw [claim_headCount t c oldHead hok.2.le]
    exact Nat.le_add_right _ _
  | publish hpc => rw [publish_headCount]
  | wait => exact Nat.le_refl _
  | put => rw [headCount_goto]; exact Nat.le_refl _
  | _ => rw [headCount_goto]

/-- A tail is moved by the thread whose cells come next, and moved on. -/
theorem Inv.tailCount_step (h : Inv r s) {a : Action τ α} (hmove : Move s a s') (side : Side) :
    s'.tailCount side = s.tailCount side ∨ s.tailCount side ≤ s'.tailCount side ∧
      ∃ t n, a = .step t ∧ s.claims side t = some (s.tailCount side, n) := by
  cases hmove with
  | @publish t c oldHead n start hpc =>
    have hok := h.ok t
    rw [hpc] at hok
    rw [publish_tailCount t c oldHead hok.1.le]
    by_cases hside : side = c.side
    · subst hside
      refine Or.inr ⟨Nat.le_add_right _ _, t, n.toNat, rfl, ?_⟩
      rw [State.claims, hpc, ← hok.2.2]
      exact if_pos rfl
    · rw [if_neg hside]
      exact Or.inl rfl
  | claim => exact Or.inl (claim_tailCount _ _ _ _ side)
  | wait => exact Or.inl rfl
  | put => rw [tailCount_goto]; exact Or.inl rfl
  | _ => exact Or.inl (tailCount_goto _ _ side)

theorem Inv.tailCount_le (h : Inv r s) {a : Action τ α} (hmove : Move s a s') (side : Side) :
    s.tailCount side ≤ s'.tailCount side := by
  rcases h.tailCount_step hmove side with heq | ⟨hle, -⟩
  · exact Nat.le_of_eq heq.symm
  · exact hle

/-- The thread whose cells come next stays next until it takes a step. -/
theorem Inv.first_kept (h : Inv r s) {a : Action τ α} (hmove : Move s a s') {t : τ} {side : Side}
    {m : Nat} (hclaim : s.claims side t = some (s.tailCount side, m)) (hne : a ≠ .step t) :
    s'.tailCount side = s.tailCount side ∧ s'.claims side t = s.claims side t := by
  have htail : s'.tailCount side = s.tailCount side := by
    rcases h.tailCount_step hmove side with heq | ⟨-, t', n, rfl, hclaim'⟩
    · exact heq
    · -- the cells of two threads do not begin at the same number
      have hin := (h.window side).inside t _ _ hclaim
      have hin' := (h.window side).inside t' _ _ hclaim'
      have := (h.window side).apart t t' _ _ _ _ hclaim hclaim' fun he =>
        hne (congrArg Action.step he.symm)
      omega
  rw [State.claims, hmove.pc_kept (Pc.side_of_claim hclaim) hne]
  exact ⟨htail, rfl⟩

omit [DecidableEq τ] in
/-- The thread whose cells come next can go on. -/
theorem Inv.first_pays (h : Inv r s) {t : τ} {side : Side} {upTo m : Nat}
    (hclaim : s.claims side t = some (s.tailCount side, m)) (hlt : s.tailCount side < upTo) :
    s.pays side upTo (.step t) = true := by
  rw [pays_step, decide_eq_true (Pc.owed_pos hclaim hlt), Bool.and_true]
  have hbusy := Pc.side_of_claim hclaim
  cases hpc : s.pc t with
  | updateTail c oldHead n start =>
    have hok := h.ok t
    rw [hpc] at hok hbusy
    obtain rfl : c.side = side := Option.some.inj hbusy
    rw [State.claims, hpc, Pc.claim, if_pos rfl] at hclaim
    cases hclaim
    have htail : (s.ring.ht c.side).tail = oldHead := by rw [h.tail_eq, hok.1.head]
    simp [State.works, hpc, htail]
  | _ => simp [State.works, hpc]

/-- A turn of the loop of `update_tail` changes nothing. -/
theorem eq_of_not_works {t : τ} (hstep : ringStep s (.step t) = some s')
    (hworks : s.works (.step t) = false) : s' = s := by
  cases hpc : s.pc t with
  | updateTail c oldHead n start =>
    have hwait : ¬((s.ring.ht c.side).single = true ∨ (s.ring.ht c.side).tail = oldHead) := by
      simpa [State.works, hpc] using hworks
    simp only [ringStep, hpc] at hstep
    rw [if_neg hwait] at hstep
    exact (Option.some.inj hstep).symm
  | _ => simp [State.works, hpc] at hworks

theorem busy_of_step {t : τ} (hstep : ringStep s (.step t) = some s') : (s.pc t).side ≠ none := by
  cases hpc : s.pc t with
  | idle n objTable =>
    rw [ringStep, hpc] at hstep
    cases hstep
  | _ => exact Option.some_ne_none _

omit [DecidableEq τ] in
/-- A thread waits only while another one can go on. -/
theorem Inv.exists_works (h : Inv r s) {t : τ} (hbusy : (s.pc t).side ≠ none) :
    ∃ t', (s.pc t').side ≠ none ∧ s.works (.step t') = true := by
  cases hworks : s.works (.step t) with
  | true => exact ⟨t, hbusy, hworks⟩
  | false =>
    cases hpc : s.pc t with
    | updateTail c oldHead n start =>
      have hclaim : s.claims c.side t = some (start, n.toNat) := by
        rw [State.claims, hpc]
        exact if_pos rfl
      have hin := (h.window c.side).inside t _ _ hclaim
      obtain ⟨t', m, hclaim'⟩ := (h.window c.side).first (by omega)
      have hpays := h.first_pays hclaim' (Nat.lt_succ_self _)
      rw [pays_step, Bool.and_eq_true] at hpays
      refine ⟨t', ?_, hpays.1⟩
      rw [Pc.side_of_claim hclaim']
      exact Option.some_ne_none _
    | _ => simp [State.works, hpc] at hworks

/-! ## Whole runs -/

section
variable [Fintype τ]

/-- A ring that is used as `okRing` says. -/
def okThreads (r : RteRing) (cells : List α) : System (State τ α) (Action τ α) :=
  (threads r cells).restrict fun s a => decide (okRing r s a)

def Action.isStep : Action τ α → Bool
  | .call _ _ => false
  | .step _ => true

/-- From now on no call is begun. -/
def quietThreads (r : RteRing) (cells : List α) : System (State τ α) (Action τ α) :=
  (okThreads r cells).restrict fun _ a => a.isStep

/-- In a round every thread that is in a call takes a step. -/
def State.Round (s : State τ α) (as : List (Action τ α)) : Prop :=
  ∀ t, (s.pc t).side ≠ none → .step t ∈ as

theorem okThreads_step {cells : List α} {a : Action τ α}
    (h : (okThreads r cells).step s a = some s') : okRing r s a ∧ ringStep s a = some s' := by
  obtain ⟨hok, hstep⟩ := System.restrict_step.mp h
  exact ⟨of_decide_eq_true hok, hstep⟩

/-- The cells below `upTo` have been claimed. -/
structure Claiming (r : RteRing) (side : Side) (upTo : Nat) (s : State τ α) : Prop where
  inv : Inv r s
  claimed : upTo ≤ s.headCount side

/-- The action is the next step of the thread that has the first cells, which lie below
`upTo`. -/
def First (side : Side) (upTo : Nat) (s : State τ α) (a : Action τ α) : Prop :=
  s.tailCount side < upTo ∧ ∃ t m, a = .step t ∧ s.claims side t = some (s.tailCount side, m)

section
variable {cells : List α} {side : Side} {upTo : Nat}

theorem Claiming.step (hr : r.WellFormed) (h : Claiming r side upTo s) {a : Action τ α}
    (hstep : (okThreads r cells).step s a = some s') :
    Claiming r side upTo s' ∧ s'.owed side upTo ≤ s.owed side upTo := by
  obtain ⟨hok, hstep⟩ := okThreads_step hstep
  have hmove := move_of_ringStep hstep
  have howed := owed_step hmove h.claimed
  exact ⟨⟨h.inv.step hr hok hstep, Nat.le_trans h.claimed (h.inv.headCount_le hmove side)⟩,
    by omega⟩

theorem First.step {a b : Action τ α} (h : Claiming r side upTo s) (hfirst : First side upTo s b)
    (hstep : (okThreads r cells).step s a = some s') :
    s'.owed side upTo < s.owed side upTo ∨ a ≠ b ∧ First side upTo s' b := by
  obtain ⟨hlt, t, m, rfl, hclaim⟩ := hfirst
  have hmove := move_of_ringStep (okThreads_step hstep).2
  by_cases ha : a = .step t
  · have howed := owed_step hmove h.claimed
    rw [ha, h.inv.first_pays hclaim hlt, Bool.toNat_true] at howed
    exact Or.inl howed
  · obtain ⟨htail, hkept⟩ := h.inv.first_kept hmove hclaim ha
    refine Or.inr ⟨ha, ?_, t, m, rfl, ?_⟩
    · rw [htail]
      exact hlt
    · rw [hkept, htail]
      exact hclaim

omit [DecidableEq τ] in
/-- Short of their publication, the first cells belong to a thread in a call. -/
theorem Claiming.exists_first (h : Claiming r side upTo s) (hlt : s.tailCount side < upTo) :
    0 < s.owed side upTo ∧ ∃ b, First side upTo s b ∧ ∀ as, s.Round as → b ∈ as := by
  obtain ⟨t, m, hclaim⟩ := (h.inv.window side).first (Nat.lt_of_lt_of_le hlt h.claimed)
  constructor
  · exact Nat.lt_of_lt_of_le (Pc.owed_pos hclaim hlt) (Finset.single_le_sum
      (f := fun t => (s.pc t).owed side upTo) (fun _ _ => Nat.zero_le _) (Finset.mem_univ t))
  · refine ⟨.step t, ⟨hlt, t, m, rfl, hclaim⟩, fun as hround => hround t ?_⟩
    rw [Pc.side_of_claim hclaim]
    exact Option.some_ne_none side

/-- **What has been claimed is published**, whatever the other threads begin meanwhile. -/
theorem Inv.publishes (hr : r.WellFormed) (h : Inv r s) {k : Nat} (side : Side)
    (hk : 4 * r.capacity.toNat ≤ k) (hrounds : (okThreads r cells).Rounds State.Round k s s') :
    Inv r s' ∧ s.headCount side ≤ s'.tailCount side := by
  generalize hup : s.headCount side = upTo
  have hstart : Claiming r side upTo s := ⟨h, Nat.le_of_eq hup.symm⟩
  have hstep : ∀ (s : State τ α) a s', Claiming r side upTo s →
      (okThreads r cells).step s a = some s' →
      Claiming r side upTo s' ∧ s'.owed side upTo ≤ s.owed side upTo :=
    fun s a s' h hstep => h.step hr hstep
  have hhelp : ∀ (s : State τ α) a b s', Claiming r side upTo s → First side upTo s b →
      (okThreads r cells).step s a = some s' →
      s'.owed side upTo < s.owed side upTo ∨ a ≠ b ∧ First side upTo s' b :=
    fun s a b s' h hfirst hstep => hfirst.step h hstep
  have hgoal : ∀ (s : State τ α) a s', Claiming r side upTo s →
      (Inv r s ∧ upTo ≤ s.tailCount side) → (okThreads r cells).step s a = some s' →
      Inv r s' ∧ upTo ≤ s'.tailCount side := by
    intro s a s' h hQ hstep
    have hmove := move_of_ringStep (okThreads_step hstep).2
    exact ⟨(h.step hr hstep).1.inv, Nat.le_trans hQ.2 (h.inv.tailCount_le hmove side)⟩
  apply System.Rounds.reaches hstep hhelp hgoal _ hrounds hstart
  · exact Or.inr (Nat.le_trans (h.owed_le hr side upTo) hk)
  · exact fun s h hQ => h.exists_first (Nat.lt_of_not_le fun hle => hQ ⟨h.inv, hle⟩)

/-- The action is a step that is no turn of the loop. -/
def State.Helps (s : State τ α) (b : Action τ α) : Prop := s.works b = true ∧ ∃ t, b = .step t

theorem Inv.quiet_step (hr : r.WellFormed) (h : Inv r s) {a : Action τ α}
    (hstep : (quietThreads r cells).step s a = some s') :
    (∃ t, a = .step t ∧ ringStep s a = some s') ∧ Inv r s' ∧
      s'.work + (s.works a).toNat ≤ s.work := by
  obtain ⟨ha, hstep⟩ := System.restrict_step.mp hstep
  obtain ⟨hok, hstep⟩ := okThreads_step hstep
  cases a with
  | call t c => cases ha
  | step t =>
    have h' := h.step hr hok hstep
    exact ⟨⟨t, rfl, hstep⟩, h', h.work_step hr h' hstep⟩

theorem State.Helps.step (hr : r.WellFormed) (h : Inv r s) {a b : Action τ α} (hb : s.Helps b)
    (hstep : (quietThreads r cells).step s a = some s') :
    s'.work < s.work ∨ a ≠ b ∧ s'.Helps b := by
  obtain ⟨⟨t, rfl, hstep⟩, -, hwork⟩ := h.quiet_step hr hstep
  cases ha : s.works (.step t) with
  | true =>
    rw [ha, Bool.toNat_true] at hwork
    exact Or.inl hwork
  | false =>
    obtain rfl := eq_of_not_works hstep ha
    refine Or.inr ⟨?_, hb⟩
    rintro rfl
    rw [hb.1] at ha
    cases ha

omit [DecidableEq τ] in
/-- As long as a thread is in a call, some thread in a call can go on. -/
theorem Inv.exists_helps (h : Inv r s) (hbusy : ¬∀ t, (s.pc t).side = none) :
    0 < s.work ∧ ∃ b, s.Helps b ∧ ∀ as, s.Round as → b ∈ as := by
  obtain ⟨t, ht⟩ := not_forall.mp hbusy
  obtain ⟨t', ht', hworks⟩ := h.exists_works ht
  refine ⟨?_, .step t', ⟨hworks, t', rfl⟩, fun as hround => hround t' ht'⟩
  exact Nat.lt_of_lt_of_le (Pc.work_pos _ _ ht) (Finset.single_le_sum
    (f := fun t => (s.pc t).work (Fintype.card τ) s.headCount) (fun _ _ => Nat.zero_le _)
    (Finset.mem_univ t))

/-- **Calls return**, when no new ones are begun. -/
theorem Inv.allReturn (hr : r.WellFormed) (h : Inv r s) {k : Nat} (hk : s.work ≤ k)
    (hrounds : (quietThreads r cells).Rounds State.Round k s s') (t : τ) :
    (s'.pc t).side = none := by
  have hstep : ∀ (s : State τ α) a s', Inv r s → (quietThreads r cells).step s a = some s' →
      Inv r s' ∧ s'.work ≤ s.work := by
    intro s a s' h hs'
    obtain ⟨-, h', hwork⟩ := h.quiet_step hr hs'
    exact ⟨h', by omega⟩
  have hhelp : ∀ (s : State τ α) a b s', Inv r s → s.Helps b →
      (quietThreads r cells).step s a = some s' → s'.work < s.work ∨ a ≠ b ∧ s'.Helps b :=
    fun s a b s' h hb hs' => hb.step hr h hs'
  have hgoal : ∀ (s : State τ α) a s', Inv r s → (∀ t, (s.pc t).side = none) →
      (quietThreads r cells).step s a = some s' → ∀ t, (s'.pc t).side = none := by
    intro s a s' h hidle hs'
    obtain ⟨⟨t, rfl, hs'⟩, -⟩ := h.quiet_step hr hs'
    exact absurd (hidle t) (busy_of_step hs')
  exact System.Rounds.reaches hstep hhelp hgoal (fun s h => h.exists_helps) hrounds h (Or.inr hk) t

end

/-- What holds of the ring `r` behind the run `as`, which has led to `s`. -/
structure Progress (r : RteRing) (cells : List α) (as : List (Action τ α)) (s : State τ α) :
    Prop where
  /-- A thread in a call has a step, inside the ring and its table. -/
  step : ∀ t, (s.pc t).side ≠ none → (ringStep s (.step t)).isSome
  /-- What a call of `n` pointers has cost all threads, but for the loop of `update_tail`. -/
  works : (okThreads r cells).count State.works (okThreads r cells).init as ≤
    (as.map (callSteps (Fintype.card τ))).sum
  /-- The threads that have claimed cells have published them and returned, whatever
  calls are begun meanwhile. -/
  publishes : ∀ k s', 4 * r.capacity.toNat ≤ k →
    (okThreads r cells).Rounds State.Round k s s' →
    ∀ side, s.headCount side ≤ s'.tailCount side ∧
      ∀ t c, s.claims side t = some c → s'.claims side t ≠ some c
  /-- All calls have returned, if none are begun any more. -/
  returns : ∀ k s', (as.map (callSteps (Fintype.card τ))).sum ≤ k →
    (quietThreads r cells).Rounds State.Round k s s' → ∀ t, (s'.pc t).side = none

/-- **The ring never locks up.** In every run, each call of `n` pointers costs at most
`n + 6` steps and three for each thread, failed compare-and-sets included, but for the
turns of the loop in `update_tail`; and this loop ends. -/
theorem ring_progress {cells : List α} (hfresh : Fresh r cells) {as : List (Action τ α)}
    (hrun : (okThreads r cells).run (okThreads r cells).init as = some s) :
    Progress r cells as s := by
  have hr := hfresh.wellFormed
  have hstep : ∀ (s : State τ α) a s', Inv r s → (okThreads r cells).step s a = some s' →
      Inv r s' ∧ s'.work + (s.works a).toNat ≤ s.work + callSteps (Fintype.card τ) a := by
    intro s a s' h hstep
    obtain ⟨hok, hstep⟩ := okThreads_step hstep
    have h' := h.step hr hok hstep
    exact ⟨h', h.work_step hr h' hstep⟩
  have hinit : Inv r (okThreads (τ := τ) r cells).init := inv_init hfresh
  obtain ⟨h, hwork⟩ := System.count_le hstep as hinit hrun
  have hzero : (okThreads (τ := τ) r cells).init.work = 0 :=
    Finset.sum_eq_zero fun _ _ => rfl
  rw [hzero, Nat.zero_add] at hwork
  constructor
  case step =>
    intro t hbusy
    obtain ⟨side, hside⟩ := Option.ne_none_iff_exists'.mp hbusy
    exact h.step_isSome hr hside
  case works => omega
  case publishes =>
    intro k s' hk hrounds side
    obtain ⟨h', hle⟩ := h.publishes hr side hk hrounds
    refine ⟨hle, fun t c hc hc' => ?_⟩
    have hin := (h.window side).inside t c.1 c.2 hc
    have hin' := (h'.window side).inside t c.1 c.2 hc'
    omega
  case returns =>
    intro k s' hk hrounds
    exact h.allReturn hr (by omega) hrounds

end

/-- One thread has claimed a cell and is delayed; the other one has filled the next. -/
def waitForTurn : List (Action Bool Nat) :=
  [.call false ⟨.prod, .RTE_RING_QUEUE_FIXED, 1, [4], rfl⟩] ++ List.replicate 3 (.step false) ++
  [.call true ⟨.prod, .RTE_RING_QUEUE_FIXED, 1, [5], rfl⟩] ++ List.replicate 6 (.step true)

theorem ring_progress_waitForTurn :
    ∃ s, (okThreads fourCells [0, 0, 0, 0]).run (okThreads fourCells [0, 0, 0, 0]).init
        waitForTurn = some s ∧
      s.claims .prod true = some (1, 1) ∧ Progress fourCells [0, 0, 0, 0] waitForTurn s := by
  obtain ⟨s, hrun, hclaim⟩ := Option.map_eq_some_iff.mp
    (show ((okThreads fourCells [0, 0, 0, 0]).run (okThreads fourCells [0, 0, 0, 0]).init
      waitForTurn).map (fun s => s.claims .prod true) = some (some (1, 1)) by decide)
  exact ⟨s, hrun, hclaim, ring_progress fourCells_fresh hrun⟩

end Pixelflut.Dpdk.Ring
