import Pixelflut.Dpdk.RingThreads

/-!
# The invariant of a ring

The numbers of the cells run on without end; a number stands for the cell that is
its remainder. At every moment the numbers fall into the ones that have been
dequeued, those that consumers have claimed, those that are stored, and those that
producers have claimed. `Inv` says so, and what each thread knows of it where it
is; `Inv.step` says that every step keeps it. `Later` is what a step of one thread
must leave true for the others.
-/

namespace Pixelflut.Dpdk.Ring

open Function (update)
open Lib.Transition Lib.Claims Lib.Wrapping

variable {τ α : Type}

/-! ## The invariant -/

/-- The fields of a ring that are written by its initialisation only. -/
structure SameShape (r r' : RteRing) : Prop where
  size : r'.size = r.size
  mask : r'.mask = r.mask
  capacity : r'.capacity = r.capacity
  single : ∀ side, (r'.ht side).single = (r.ht side).single

/-- The cells that a thread has claimed: their first number, and how many. -/
def Pc.claim (side : Side) : Pc α → Option (Nat × Nat)
  | .copy c _ n _ start | .updateTail c _ n start | .storeTail c _ n start =>
    if c.side = side then some (start, n.toNat) else none
  | _ => none

def State.claims (s : State τ α) (side : Side) (t : τ) : Option (Nat × Nat) := (s.pc t).claim side

/-- Up to where a head may be moved. -/
def State.limit (s : State τ α) (capacity : Nat) : Side → Nat
  | .prod => s.returned.length + capacity
  | .cons => s.given.length

section
variable (r : RteRing)

/-- What the read of a head has told. -/
structure Seen (s : State τ α) (c : Call α) (oldHead : UInt32) (seen : Nat) : Prop where
  head : oldHead = .ofNat seen
  le : seen ≤ s.headCount c.side
  alone : (r.ht c.side).single = true → s.headCount c.side = seen

/-- What has been found out about the room. -/
structure Room (s : State τ α) (c : Call α) (n : UInt32) (seen : Nat) : Prop where
  pos : 0 < n.toNat
  le : n ≤ c.n
  fixed : c.behavior = .RTE_RING_QUEUE_FIXED → n = c.n
  fits : s.headCount c.side = seen → seen + n.toNat ≤ s.limit r.capacity.toNat c.side

/-- The call `c` has claimed `n` cells from `start` on. -/
structure Claimed (s : State τ α) (c : Call α) (oldHead n : UInt32) (start : Nat) : Prop where
  head : oldHead = .ofNat start
  le : n ≤ c.n
  le_capacity : n ≤ r.capacity
  fixed : c.behavior = .RTE_RING_QUEUE_FIXED → n = c.n
  reserved : c.side = .prod → ∀ j < n.toNat, s.reserved[start + j]? = c.objTable[j]?

/-- The first `i` pointers have been copied. -/
def Copied (s : State τ α) (c : Call α) (start i : Nat) : Prop :=
  ∀ j < i, s.reserved[start + j]? = match c.side with
    | .prod => s.cells[(start + j) % r.size.toNat]?
    | .cons => c.objTable[j]?

def State.Ok (s : State τ α) : Pc α → Prop
  | .idle _ _ | .readHead _ => True
  | .readTail c oldHead seen => Seen r s c oldHead seen
  | .cmpset c oldHead n seen => Seen r s c oldHead seen ∧ Room r s c n seen
  | .copy c oldHead n todo start => Claimed r s c oldHead n start ∧
    ∃ i ≤ n.toNat, todo = (copyPtrs r oldHead n).drop i ∧ Copied r s c start i
  | .updateTail c oldHead n start => Claimed r s c oldHead n start ∧ Copied r s c start n.toNat
  | .storeTail c oldHead n start => Claimed r s c oldHead n start ∧ Copied r s c start n.toNat ∧
    start = s.tailCount c.side

/-- A side for a single thread is used by one thread. -/
def Alone (pcs : τ → Pc α) : Prop := ∀ side, (r.ht side).single = true →
  ∀ t t', (pcs t).side = some side → (pcs t').side = some side → t = t'

structure Inv (s : State τ α) : Prop where
  shape : SameShape r s.ring
  cells_length : s.cells.length = r.size.toNat
  head_eq : ∀ side, (s.ring.ht side).head = .ofNat (s.headCount side)
  tail_eq : ∀ side, (s.ring.ht side).tail = .ofNat (s.tailCount side)
  tail_le : ∀ side, s.tailCount side ≤ s.headCount side
  head_le : ∀ side, s.headCount side ≤ s.limit r.capacity.toNat side
  given_eq : s.given <+: s.reserved
  returned_eq : s.returned <+: s.reserved
  stored : ∀ k, s.returned.length ≤ k → k < s.given.length →
    s.reserved[k]? = s.cells[k % r.size.toNat]?
  ok : ∀ t, s.Ok r (s.pc t)
  window : ∀ side, Window (s.tailCount side) (s.headCount side) (s.claims side)
  alone : Alone r s.pc

end

/-! ## What it says -/

theorem SameShape.setHead {r r' : RteRing} (h : SameShape r r') (side : Side) (v : UInt32) :
    SameShape r (r'.setHead side v) where
  size := by cases side <;> exact h.size
  mask := by cases side <;> exact h.mask
  capacity := by cases side <;> exact h.capacity
  single side' := by
    rw [ht_setHead]
    split
    · next he => rw [he]; exact h.single side
    · exact h.single side'

theorem SameShape.setTail {r r' : RteRing} (h : SameShape r r') (side : Side) (v : UInt32) :
    SameShape r (r'.setTail side v) where
  size := by cases side <;> exact h.size
  mask := by cases side <;> exact h.mask
  capacity := by cases side <;> exact h.capacity
  single side' := by
    rw [ht_setTail]
    split
    · next he => rw [he]; exact h.single side
    · exact h.single side'

theorem SameShape.copyPtrs {r r' : RteRing} (h : SameShape r r') (head n : UInt32) :
    copyPtrs r' head n = copyPtrs r head n := by
  simp only [Ring.copyPtrs, h.size, h.mask]

theorem Pc.side_of_claim {pc : Pc α} {side : Side} {c : Nat × Nat} (h : pc.claim side = some c) :
    pc.side = some side := by
  unfold Pc.claim at h
  split at h
  · split at h
    · next he => exact congrArg some he
    · cases h
  · split at h
    · next he => exact congrArg some he
    · cases h
  · split at h
    · next he => exact congrArg some he
    · cases h
  · cases h

section
variable {r : RteRing} {s : State τ α}

theorem Inv.counts {r : RteRing} {s : State τ α} (h : Inv r s) :
    s.returned.length ≤ s.taken ∧ s.taken ≤ s.given.length ∧
      s.given.length ≤ s.reserved.length ∧
      s.reserved.length ≤ s.returned.length + r.capacity.toNat :=
  ⟨h.tail_le .cons, h.head_le .cons, h.tail_le .prod, h.head_le .prod⟩

/-- The numbers that are in use lie in one window of the length of the ring. -/
theorem Inv.in_window (h : Inv r s) {side : Side} {t : τ} {start n k : Nat}
    (ht : s.claims side t = some (start, n)) (hle : start ≤ k) (hlt : k < start + n) :
    s.returned.length ≤ k ∧ k < s.returned.length + r.capacity.toNat := by
  have hin := (h.window side).inside t start n ht
  have hcounts := h.counts
  cases side with
  | prod =>
    simp only [State.tailCount, State.headCount] at hin
    omega
  | cons =>
    simp only [State.tailCount, State.headCount] at hin
    omega

/-- Every number that is claimed is one of a reserved pointer. -/
theorem Inv.claimed_lt (h : Inv r s) {side : Side} {t : τ} {start n k : Nat}
    (ht : s.claims side t = some (start, n)) (hk : k < start + n) : k < s.reserved.length := by
  have hin := (h.window side).inside t start n ht
  have hcounts := h.counts
  cases side with
  | prod =>
    simp only [State.headCount] at hin
    omega
  | cons =>
    simp only [State.headCount] at hin
    omega

/-- The cell of another number. -/
theorem cells_set_ne (hr : r.WellFormed) {p k : Nat} (a : α)
    (hp : s.returned.length ≤ p ∧ p < s.returned.length + r.capacity.toNat)
    (hk : s.returned.length ≤ k ∧ k < s.returned.length + r.capacity.toNat) (hne : k ≠ p) :
    (s.cells.set (p % r.size.toNat) a)[k % r.size.toNat]? = s.cells[k % r.size.toNat]? := by
  have hcap := hr.capacity_lt
  rw [List.getElem?_set_ne]
  intro he
  exact hne (slot_inj hk.1 (by omega) hp.1 (by omega) he.symm)

/-- The next access of a copying thread. -/
theorem Claimed.access (hr : r.WellFormed) {c : Call α} {oldHead n idx i : UInt32} {start k : Nat}
    {todo : List (UInt32 × UInt32)} (hc : Claimed r s c oldHead n start)
    (htodo : (idx, i) :: todo = (copyPtrs r oldHead n).drop k) :
    k < n.toNat ∧ idx.toNat = (start + k) % r.size.toNat ∧ i.toNat = k ∧
      todo = (copyPtrs r oldHead n).drop (k + 1) := by
  obtain ⟨m, hm, hsize⟩ := hr.exists_pow
  have hk : k < (copyPtrs r oldHead n).length := by
    by_contra hge
    rw [List.drop_eq_nil_of_le (Nat.le_of_not_lt hge)] at htodo
    cases htodo
  rw [List.drop_eq_getElem_cons hk] at htodo
  injection htodo with hfirst hrest
  have hlen : k < n.toNat := by
    rw [copyPtrs_eq hr oldHead hc.le_capacity, List.length_map, List.length_range] at hk
    exact hk
  have hcell : (idx, i) = ((oldHead + .ofNat k) &&& r.mask, .ofNat k) := by
    rw [hfirst]
    simp only [copyPtrs_eq hr oldHead hc.le_capacity, List.getElem_map, List.getElem_range]
  obtain ⟨rfl, rfl⟩ := Prod.mk.inj hcell
  refine ⟨hlen, ?_, ?_, hrest⟩
  · rw [hc.head, ← UInt32.ofNat_add, hsize]
    exact and_mask (by omega) (hsize ▸ hr.mask_eq) _
  · have := n.toNat_lt
    rw [UInt32.toNat_ofNat', Nat.mod_eq_of_lt (by omega)]

/-- The copying loops access as many cells as have been claimed. -/
theorem Claimed.length_copyPtrs (hr : r.WellFormed) {c : Call α} {oldHead n : UInt32}
    {start : Nat} (hc : Claimed r s c oldHead n start) :
    (copyPtrs r oldHead n).length = n.toNat := by
  rw [copyPtrs_eq hr oldHead hc.le_capacity, List.length_map, List.length_range]

/-- What a thread has put into the ring, or got from it. -/
theorem Claimed.entries {c : Call α} {oldHead n : UInt32} {start : Nat}
    (hc : Claimed r s c oldHead n start) (hdone : Copied r s c start n.toNat) (j : Nat)
    (hj : j < n.toNat) : s.reserved[start + j]? = (c.objTable.take n.toNat)[j]? := by
  rw [List.getElem?_take_of_lt hj]
  cases hside : c.side with
  | prod => exact hc.reserved hside j hj
  | cons =>
    have := hdone j hj
    rw [hside] at this
    exact this

/-- The head has not been moved since it was read. -/
theorem Inv.head_unmoved (h : Inv r s) {c : Call α} {oldHead : UInt32} {seen : Nat}
    (hseen : Seen r s c oldHead seen) (hok : s.headCount c.side < seen + 2 ^ 32)
    (hhead : (s.ring.ht c.side).single = true ∨ (s.ring.ht c.side).head = oldHead) :
    s.headCount c.side = seen := by
  rcases hhead with hsingle | heq
  · rw [h.shape.single] at hsingle
    exact hseen.alone hsingle
  · rw [h.head_eq, hseen.head] at heq
    have hle := hseen.le
    exact (ofNat_inj hle (by omega) heq.symm).symm

/-- The room that a thread computes, when the head has not moved since it was read. -/
theorem Inv.entries_toNat (hr : r.WellFormed) (h : Inv r s) {side : Side} {seen : Nat}
    (hsame : s.headCount side = seen) :
    (s.ring.entries (.ofNat seen) side).toNat = s.limit r.capacity.toNat side - seen := by
  obtain ⟨k, hk, hsize⟩ := hr.exists_pow
  have hpow : 2 ^ k ≤ 2 ^ 31 := Nat.pow_le_pow_right (by omega) hk
  have hcap := hr.capacity_lt
  have hle := h.head_le side
  have hcounts := h.counts
  cases side with
  | prod =>
    have htail : s.ring.capacity + s.ring.cons.tail =
        .ofNat (s.returned.length + r.capacity.toNat) := by
      rw [h.shape.capacity, ← ofNat_add_toNat, UInt32.add_comm]
      exact congrArg (· + r.capacity) (h.tail_eq .cons)
    simp only [State.headCount, State.limit] at hsame hle ⊢
    rw [RteRing.entries, htail]
    apply sub_ofNat_toNat
    · omega
    · omega
  | cons =>
    have htail : s.ring.prod.tail = .ofNat s.given.length := h.tail_eq .prod
    simp only [State.headCount, State.limit] at hsame hle ⊢
    rw [RteRing.entries, htail]
    apply sub_ofNat_toNat
    · omega
    · omega

theorem moveBy_spec {n entries : UInt32} {behavior : Behavior}
    (hne : moveBy n behavior entries ≠ 0) :
    moveBy n behavior entries ≤ n ∧ moveBy n behavior entries ≤ entries ∧
      (behavior = .RTE_RING_QUEUE_FIXED → moveBy n behavior entries = n) := by
  unfold moveBy at hne ⊢
  split at hne
  · next hgt =>
    rw [if_pos hgt]
    cases behavior with
    | RTE_RING_QUEUE_FIXED => exact absurd rfl hne
    | RTE_RING_QUEUE_VARIABLE => exact ⟨UInt32.le_of_lt hgt, UInt32.le_refl _, Behavior.noConfusion⟩
  · next hle =>
    rw [if_neg hle]
    exact ⟨UInt32.le_refl _, UInt32.not_lt.mp hle, fun _ => rfl⟩

theorem Inv.findRoom (hr : r.WellFormed) (h : Inv r s) {c : Call α} {oldHead n : UInt32}
    {seen : Nat} (hseen : Seen r s c oldHead seen)
    (hn : n = moveBy c.n c.behavior (s.ring.entries oldHead c.side)) (hne : n ≠ 0) :
    Room r s c n seen := by
  subst hn
  obtain ⟨hle, hentries, hfixed⟩ := moveBy_spec hne
  refine ⟨?_, hle, hfixed, ?_⟩
  · rw [Nat.pos_iff_ne_zero]
    exact fun hzero => hne (UInt32.toNat_inj.mp hzero)
  · intro hsame
    have hlim := h.head_le c.side
    have := UInt32.le_iff_toNat_le.mp hentries
    rw [hseen.head, h.entries_toNat hr hsame] at this
    rw [hseen.head]
    omega

/-- A thread that leaves the loop of `update_tail` comes next. -/
theorem Inv.comes_next (h : Inv r s) {t : τ} {c : Call α} {oldHead n : UInt32}
    {start : Nat} (hpc : s.pc t = .updateTail c oldHead n start) (hc : Claimed r s c oldHead n start)
    (htail : (s.ring.ht c.side).single = true ∨ (s.ring.ht c.side).tail = oldHead) :
    start = s.tailCount c.side := by
  have hclaim : s.claims c.side t = some (start, n.toNat) := by
    rw [State.claims, hpc]
    exact if_pos rfl
  have hbusy : (s.pc t).side = some c.side := by rw [hpc]; rfl
  rcases htail with hsingle | heq
  · rw [h.shape.single] at hsingle
    apply (h.window c.side).eq_lo_of_alone hclaim
    intro t' c' ht'
    exact h.alone _ hsingle t' t (Pc.side_of_claim ht') hbusy
  · have hin := (h.window c.side).inside t _ _ hclaim
    have hwin := h.in_window hclaim (Nat.le_refl start) (by omega)
    have hcounts := h.counts
    have hlt := r.capacity.toNat_lt
    have hge : s.returned.length ≤ s.tailCount c.side := by
      cases c.side
      · simp only [State.tailCount]
        omega
      · exact Nat.le_refl _
    rw [h.tail_eq, hc.head] at heq
    exact (ofNat_inj hin.1 (by omega) heq).symm

theorem prefix_append_of_getElem? {xs ys zs : List α} (h : xs <+: zs)
    (hys : ∀ j < ys.length, zs[xs.length + j]? = ys[j]?) : xs ++ ys <+: zs := by
  obtain ⟨rest, rfl⟩ := h
  rw [List.prefix_append_right_inj, List.prefix_iff_getElem?]
  intro j hj
  have := hys j hj
  rw [List.getElem?_append_right (by omega), Nat.add_sub_cancel_left] at this
  rw [this, List.getElem?_eq_getElem hj]

/-! ## The other threads -/

/-- What a step of one thread must leave true for another one, which is at `pc`. -/
structure Later (r : RteRing) (s s' : State τ α) (pc : Pc α) : Prop where
  head : ∀ side, s.headCount side ≤ s'.headCount side
  limit : ∀ side, s.limit r.capacity.toNat side ≤ s'.limit r.capacity.toNat side
  alone : ∀ side, pc.side = some side → (r.ht side).single = true →
    s'.headCount side = s.headCount side
  reserved : ∀ side start n k, pc.claim side = some (start, n) → k < start + n →
    s'.reserved[k]? = s.reserved[k]?
  cells : ∀ start n k, pc.claim .prod = some (start, n) → start ≤ k → k < start + n →
    s'.cells[k % r.size.toNat]? = s.cells[k % r.size.toNat]?
  tail : ∀ side start n, pc.claim side = some (start, n) → start = s.tailCount side →
    s'.tailCount side = s.tailCount side

theorem Seen.later {r : RteRing} {s s' : State τ α} {pc : Pc α} {c : Call α} {oldHead : UInt32}
    {seen : Nat} (hs : Seen r s c oldHead seen) (h : Later r s s' pc)
    (hpc : pc.side = some c.side) : Seen r s' c oldHead seen where
  head := hs.head
  le := Nat.le_trans hs.le (h.head _)
  alone hsingle := (h.alone _ hpc hsingle).trans (hs.alone hsingle)

theorem Claimed.later {r : RteRing} {s s' : State τ α} {pc : Pc α} {c : Call α}
    {oldHead n : UInt32} {start : Nat} (hc : Claimed r s c oldHead n start) (h : Later r s s' pc)
    (hpc : pc.claim c.side = some (start, n.toNat)) : Claimed r s' c oldHead n start where
  head := hc.head
  le := hc.le
  le_capacity := hc.le_capacity
  fixed := hc.fixed
  reserved hside j hj := by
    rw [h.reserved _ _ _ _ hpc (by omega)]
    exact hc.reserved hside j hj

theorem Copied.later {r : RteRing} {s s' : State τ α} {pc : Pc α} {c : Call α}
    {n : UInt32} {start i : Nat} (hc : Copied r s c start i) (h : Later r s s' pc) (hi : i ≤ n.toNat)
    (hpc : pc.claim c.side = some (start, n.toNat)) : Copied r s' c start i := by
  intro j hj
  rw [h.reserved _ _ _ _ hpc (by omega), hc j hj]
  cases hside : c.side with
  | prod =>
    rw [hside] at hpc
    exact (h.cells _ _ _ hpc (by omega) (by omega)).symm
  | cons => rfl

theorem State.Ok.later {r : RteRing} {s s' : State τ α} {pc : Pc α} (hok : s.Ok r pc)
    (h : Later r s s' pc) : s'.Ok r pc := by
  cases pc with
  | idle n objTable => trivial
  | readHead c => trivial
  | readTail c oldHead seen => exact Seen.later hok h rfl
  | cmpset c oldHead n seen =>
    obtain ⟨hseen, hroom⟩ := hok
    refine ⟨hseen.later h rfl, hroom.pos, hroom.le, hroom.fixed, ?_⟩
    intro hhead
    have hsame : s.headCount c.side = seen :=
      Nat.le_antisymm (hhead ▸ h.head c.side) hseen.le
    exact Nat.le_trans (hroom.fits hsame) (h.limit c.side)
  | copy c oldHead n todo start =>
    obtain ⟨hc, i, hi, htodo, hdone⟩ := hok
    exact ⟨hc.later h (if_pos rfl), i, hi, htodo, hdone.later h hi (if_pos rfl)⟩
  | updateTail c oldHead n start =>
    obtain ⟨hc, hdone⟩ := hok
    exact ⟨hc.later h (if_pos rfl), hdone.later h (Nat.le_refl _) (if_pos rfl)⟩
  | storeTail c oldHead n start =>
    obtain ⟨hc, hdone, hstart⟩ := hok
    refine ⟨hc.later h (if_pos rfl), hdone.later h (Nat.le_refl _) (if_pos rfl), ?_⟩
    rw [h.tail _ _ _ (if_pos rfl) hstart]
    exact hstart

/-! ## What a step keeps -/

variable [DecidableEq τ]

theorem limit_goto (t : τ) (pc : Pc α) (capacity : Nat) (side : Side) :
    (s.goto t pc).limit capacity side = s.limit capacity side := by
  cases side
  · rfl
  · rfl

theorem claim_limit (t : τ) (c : Call α) (oldHead n : UInt32) (capacity : Nat) (side : Side) :
    (s.claim t c oldHead n).limit capacity side = s.limit capacity side := by
  obtain ⟨-, hgiven, hreturned⟩ := claim_same (s := s) t c oldHead n
  cases side
  · exact congrArg (·.length + capacity) hreturned
  · exact congrArg List.length hgiven

theorem publish_limit (t : τ) (c : Call α) (oldHead n : UInt32) (capacity : Nat) (side : Side) :
    s.limit capacity side ≤ (s.publish t c oldHead n).limit capacity side := by
  cases side with
  | prod =>
    simp only [State.limit, publish_returned, List.length_append]
    omega
  | cons =>
    simp only [State.limit, publish_given, List.length_append]
    omega

theorem later_goto (t : τ) (pc pc' : Pc α) : Later r s (s.goto t pc) pc' where
  head side := Nat.le_of_eq (headCount_goto t pc side).symm
  limit side := Nat.le_of_eq (limit_goto t pc _ side).symm
  alone side _ _ := headCount_goto t pc side
  reserved _ _ _ _ _ _ := rfl
  cells _ _ _ _ _ _ := rfl
  tail side _ _ _ _ := tailCount_goto t pc side

/-- What a claim leaves true for the others. -/
theorem Inv.later_claim (h : Inv r s) {t t' : τ} {c : Call α} {oldHead n : UInt32} (hn : n ≤ c.n)
    (hbusy : (s.pc t).side = some c.side) (hne : t' ≠ t) :
    Later r s (s.claim t c oldHead n) (s.pc t') where
  head side := by
    rw [claim_headCount t c oldHead hn]
    omega
  limit side := Nat.le_of_eq (claim_limit t c oldHead n _ side).symm
  alone side hside hsingle := by
    rw [claim_headCount t c oldHead hn, if_neg, Nat.add_zero]
    rintro rfl
    exact hne (h.alone _ hsingle t' t hside hbusy)
  reserved side start m k ht' hk := by
    rw [claim_reserved, List.getElem?_append_left (h.claimed_lt ht' hk)]
  cells start m k _ _ _ := by rw [(claim_same t c oldHead n).1]
  tail side _ _ _ _ := claim_tailCount t c oldHead n side

/-- What a publishing thread leaves true for the others. -/
theorem Inv.later_publish (h : Inv r s) {t t' : τ} {c : Call α} {oldHead n : UInt32}
    (hn : n ≤ c.n) (ht : s.claims c.side t = some (s.tailCount c.side, n.toNat)) (hne : t' ≠ t) :
    Later r s (s.publish t c oldHead n) (s.pc t') where
  head side := Nat.le_of_eq (publish_headCount t c oldHead n side).symm
  limit side := publish_limit t c oldHead n _ side
  alone side _ _ := publish_headCount t c oldHead n side
  reserved _ _ _ _ _ _ := by rw [(publish_same t c oldHead n).2.1]
  cells _ _ _ _ _ _ := by rw [(publish_same t c oldHead n).1]
  tail side start m ht' hstart := by
    rw [publish_tailCount t c oldHead hn, if_neg, Nat.add_zero]
    -- two threads do not come next at once
    rintro rfl
    have hin := (h.window c.side).inside t _ _ ht
    have hin' := (h.window c.side).inside t' _ _ ht'
    have := (h.window c.side).apart t t' _ _ _ _ ht ht' (Ne.symm hne)
    omega

theorem Alone.update {pcs : τ → Pc α} {t : τ} {pc : Pc α} (h : Alone r pcs)
    (halone : ∀ side, (r.ht side).single = true → pc.side = some side →
      ∀ t', (pcs t').side = some side → t' = t) : Alone r (update pcs t pc) := by
  intro side hsingle t₁ t₂ h₁ h₂
  by_cases ht₁ : t₁ = t
  · subst ht₁
    by_cases ht₂ : t₂ = t₁
    · exact ht₂.symm
    · rw [Function.update_self] at h₁
      rw [Function.update_of_ne ht₂] at h₂
      exact (halone side hsingle h₁ t₂ h₂).symm
  · rw [Function.update_of_ne ht₁] at h₁
    by_cases ht₂ : t₂ = t
    · subst ht₂
      rw [Function.update_self] at h₂
      exact halone side hsingle h₂ t₁ h₁
    · rw [Function.update_of_ne ht₂] at h₂
      exact h side hsingle t₁ t₂ h₁ h₂

/-- A thread that stays on its side, or leaves it. -/
theorem Alone.goOn {pcs : τ → Pc α} {t : τ} {pc : Pc α} (h : Alone r pcs)
    (hside : ∀ side, pc.side = some side → (pcs t).side = some side) :
    Alone r (Function.update pcs t pc) := by
  apply h.update
  intro side hsingle hpc t' ht'
  exact h side hsingle t' t ht' (hside side hpc)

theorem claims_of_pc {s' : State τ α} {t : τ} {pc : Pc α} (h : s'.pc = update s.pc t pc)
    (side : Side) : s'.claims side = update (s.claims side) t (pc.claim side) := by
  funext t'
  rw [State.claims, h]
  by_cases ht : t' = t
  · subst ht
    rw [Function.update_self, Function.update_self]
  · rw [Function.update_of_ne ht, Function.update_of_ne ht, State.claims]

/-- The claims on a side where the thread has the same claim as before. -/
theorem claims_goOn {s' : State τ α} {t : τ} {pc : Pc α} {side : Side}
    (h : s'.pc = update s.pc t pc) (hclaim : pc.claim side = (s.pc t).claim side) :
    s'.claims side = s.claims side := by
  rw [claims_of_pc h, hclaim]
  exact Function.update_eq_self t (s.claims side)

/-- A thread goes on, and nothing that is shared changes. -/
theorem Inv.goto (h : Inv r s) {t : τ} {pc : Pc α} (hok : s.Ok r pc)
    (hclaim : ∀ side, pc.claim side = (s.pc t).claim side) (halone : Alone r (s.goto t pc).pc) :
    Inv r (s.goto t pc) where
  shape := h.shape
  cells_length := h.cells_length
  head_eq side := by
    rw [headCount_goto]
    exact h.head_eq side
  tail_eq side := by
    rw [tailCount_goto]
    exact h.tail_eq side
  tail_le side := by
    rw [headCount_goto, tailCount_goto]
    exact h.tail_le side
  head_le side := by
    rw [headCount_goto, limit_goto]
    exact h.head_le side
  given_eq := h.given_eq
  returned_eq := h.returned_eq
  stored := h.stored
  ok t' := by
    by_cases ht : t' = t
    · subst ht
      rw [goto_pc_self]
      exact hok.later (later_goto t' pc pc)
    · rw [goto_pc_ne pc ht]
      exact (h.ok t').later (later_goto t pc _)
  window side := by
    rw [headCount_goto, tailCount_goto, claims_goOn rfl (hclaim side)]
    exact h.window side
  alone := halone

/-- The case of a thread that stays on its side with its claim, or leaves it without one. -/
theorem Inv.goOn (h : Inv r s) {t : τ} {pc pc' : Pc α} (hpc : s.pc t = pc) (hok : s.Ok r pc')
    (hclaim : ∀ side, pc'.claim side = pc.claim side)
    (hside : ∀ side, pc'.side = some side → pc.side = some side) : Inv r (s.goto t pc') := by
  subst hpc
  exact h.goto hok hclaim (h.alone.goOn hside)

theorem Inv.put (hr : r.WellFormed) (h : Inv r s) {t : τ} {c : Call α} {oldHead n idx i : UInt32}
    {todo : List (UInt32 × UInt32)} {start : Nat} {a : α}
    (hpc : s.pc t = .copy c oldHead n ((idx, i) :: todo) start) (hside : c.side = .prod)
    (ha : c.objTable[i.toNat]? = some a) :
    Inv r ({ s with cells := s.cells.set idx.toNat a }.goto t (.copy c oldHead n todo start)) := by
  have hok := h.ok t
  rw [hpc] at hok
  obtain ⟨hc, k, -, htodo, hdone⟩ := hok
  obtain ⟨hk, hidx, hi, hrest⟩ := hc.access hr htodo
  have hclaim : s.claims .prod t = some (start, n.toNat) := by
    rw [State.claims, hpc, Pc.claim, if_pos hside]
  have hp := h.in_window hclaim (k := start + k) (by omega) (by omega)
  have hstart := (h.window .prod).inside t _ _ hclaim
  simp only [State.tailCount, State.headCount] at hstart
  have hother : ∀ t' start' n' k', t' ≠ t → s.claims .prod t' = some (start', n') →
      start' ≤ k' → k' < start' + n' → (s.cells.set idx.toNat a)[k' % r.size.toNat]? =
        s.cells[k' % r.size.toNat]? := by
    intro t' start' n' k' hne ht' hle hlt
    have hp' := h.in_window ht' hle hlt
    have hapart := (h.window .prod).apart t' t _ _ _ _ ht' hclaim hne
    rw [hidx]
    exact cells_set_ne hr a hp hp' (by omega)
  have hlater : ∀ t', t' ≠ t → Later r s
      ({ s with cells := s.cells.set idx.toNat a }.goto t (.copy c oldHead n todo start))
      (s.pc t') := by
    intro t' hne
    refine ⟨?_, ?_, ?_, fun _ _ _ _ _ _ => rfl, ?_, ?_⟩
    · intro side
      exact Nat.le_of_eq (by rw [headCount_goto]; rfl)
    · intro side
      exact Nat.le_of_eq (by rw [limit_goto]; rfl)
    · intro side _ _
      rw [headCount_goto]
      rfl
    · intro start' n' k' ht' hle hlt
      exact hother t' start' n' k' hne ht' hle hlt
    · intro side _ _ _ _
      rw [tailCount_goto]
      rfl
  constructor
  case shape => exact h.shape
  case cells_length => exact (List.length_set ..).trans h.cells_length
  case head_eq =>
    intro side
    rw [headCount_goto]
    exact h.head_eq side
  case tail_eq =>
    intro side
    rw [tailCount_goto]
    exact h.tail_eq side
  case tail_le =>
    intro side
    rw [headCount_goto, tailCount_goto]
    exact h.tail_le side
  case head_le =>
    intro side
    rw [headCount_goto, limit_goto]
    exact h.head_le side
  case given_eq => exact h.given_eq
  case returned_eq => exact h.returned_eq
  case stored =>
    intro k' hle hlt
    change k' < s.given.length at hlt
    change s.reserved[k']? = (s.cells.set idx.toNat a)[k' % r.size.toNat]?
    have hle' : s.returned.length ≤ k' := hle
    have hcounts := h.counts
    rw [h.stored k' hle hlt, hidx, cells_set_ne hr a hp ⟨hle', by omega⟩ (by omega)]
  case ok =>
    intro t'
    by_cases hne : t' = t
    · subst hne
      rw [goto_pc_self]
      refine ⟨⟨hc.head, hc.le, hc.le_capacity, hc.fixed, hc.reserved⟩, k + 1, hk, hrest, ?_⟩
      have hlt : (start + k) % r.size.toNat < s.cells.length := by
        rw [h.cells_length]
        exact Nat.mod_lt _ (by have := hr.capacity_lt; omega)
      intro j hj
      change s.reserved[start + j]? = match c.side with
        | .prod => (s.cells.set idx.toNat a)[(start + j) % r.size.toNat]?
        | .cons => c.objTable[j]?
      rw [hside, hidx]
      by_cases hjk : j = k
      · rw [hjk, hc.reserved hside k hk, List.getElem?_set_self hlt, ← hi]
        exact ha
      · have hj' := h.in_window hclaim (k := start + j) (by omega) (by omega)
        have hcopied := hdone j (by omega)
        rw [hside] at hcopied
        rw [hcopied]
        exact (cells_set_ne hr a hp hj' (by omega)).symm
    · rw [goto_pc_ne _ hne]
      exact (h.ok t').later (hlater t' hne)
  case window =>
    intro side
    rw [headCount_goto, tailCount_goto, claims_goOn (s := s) rfl]
    · exact h.window side
    · rw [hpc]
      rfl
  case alone =>
    apply h.alone.goOn
    intro side hs
    rw [hpc]
    exact hs

theorem Inv.get (hr : r.WellFormed) (h : Inv r s) {t : τ} {c : Call α} {oldHead n idx i : UInt32}
    {todo : List (UInt32 × UInt32)} {start : Nat} {a : α}
    (hpc : s.pc t = .copy c oldHead n ((idx, i) :: todo) start) (hside : c.side = .cons)
    (ha : s.cells[idx.toNat]? = some a) :
    Inv r (s.goto t (.copy (c.store i a) oldHead n todo start)) := by
  have hok := h.ok t
  rw [hpc] at hok
  obtain ⟨hc, k, -, htodo, hdone⟩ := hok
  obtain ⟨hk, hidx, hi, hrest⟩ := hc.access hr htodo
  have hclaim : s.claims .cons t = some (start, n.toNat) := by
    rw [State.claims, hpc, Pc.claim, if_pos hside]
  have hstart := (h.window .cons).inside t _ _ hclaim
  simp only [State.tailCount, State.headCount] at hstart
  have hcounts := h.counts
  have hclaimed : Claimed r s (c.store i a) oldHead n start := by
    refine ⟨hc.head, hc.le, hc.le_capacity, hc.fixed, ?_⟩
    intro hprod
    cases hside.symm.trans hprod
  refine h.goOn hpc ?_ (fun _ => rfl) (fun _ => id)
  · refine ⟨hclaimed, k + 1, hk, hrest, ?_⟩
    intro j hj
    change s.reserved[start + j]? = match c.side with
      | .prod => s.cells[(start + j) % r.size.toNat]?
      | .cons => (c.objTable.set i.toNat a)[j]?
    rw [hside, hi]
    by_cases hjk : j = k
    · have hlen : k < c.objTable.length := by
        rw [c.length_eq]
        exact Nat.lt_of_lt_of_le hk (UInt32.le_iff_toNat_le.mp hc.le)
      rw [hjk, List.getElem?_set_self hlen, h.stored _ (by omega) (by omega), ← hidx]
      exact ha
    · have hcopied := hdone j (by omega)
      rw [hside] at hcopied
      rw [List.getElem?_set_ne (Ne.symm hjk)]
      exact hcopied

theorem Inv.claim (h : Inv r s) {t : τ} {c : Call α} {oldHead n : UInt32} {seen : Nat}
    (hpc : s.pc t = .cmpset c oldHead n seen) (hok : s.headCount c.side < seen + 2 ^ 32)
    (hhead : (s.ring.ht c.side).single = true ∨ (s.ring.ht c.side).head = oldHead) :
    Inv r (s.claim t c oldHead n) := by
  have hpcOk := h.ok t
  rw [hpc] at hpcOk
  obtain ⟨hseen, hroom⟩ := hpcOk
  have hsame : s.headCount c.side = seen := h.head_unmoved hseen hok hhead
  have hfits := hroom.fits hsame
  have hbusy : (s.pc t).side = some c.side := by rw [hpc]; rfl
  obtain ⟨hcells, hgiven, hreturned⟩ := claim_same (s := s) t c oldHead n
  have hcounts := h.counts
  constructor
  case shape =>
    rw [claim_ring]
    exact h.shape.setHead _ _
  case cells_length =>
    rw [hcells]
    exact h.cells_length
  case head_eq =>
    intro side
    rw [claim_ring, ht_setHead, claim_headCount t c oldHead hroom.le]
    split
    · next he =>
      rw [he, hsame, hseen.head, ofNat_add_toNat]
    · rw [Nat.add_zero]
      exact h.head_eq side
  case tail_eq =>
    intro side
    rw [claim_ring, ht_setHead, claim_tailCount, ← h.tail_eq]
    split
    · next he => rw [he]
    · rfl
  case tail_le =>
    intro side
    have := h.tail_le side
    rw [claim_headCount t c oldHead hroom.le, claim_tailCount]
    omega
  case head_le =>
    intro side
    rw [claim_headCount t c oldHead hroom.le, claim_limit]
    split
    · next he =>
      rw [he, hsame]
      exact hfits
    · exact h.head_le side
  case given_eq =>
    rw [hgiven, claim_reserved]
    exact h.given_eq.trans (List.prefix_append _ _)
  case returned_eq =>
    rw [hreturned, claim_reserved]
    exact h.returned_eq.trans (List.prefix_append _ _)
  case stored =>
    intro k hle hlt
    rw [hreturned] at hle
    rw [hgiven] at hlt
    rw [claim_reserved, hcells, List.getElem?_append_left (by omega)]
    exact h.stored k hle hlt
  case ok =>
    intro t'
    rw [claim_pc]
    by_cases hne : t' = t
    · subst hne
      rw [Function.update_self]
      refine ⟨⟨?_, hroom.le, ?_, hroom.fixed, ?_⟩, 0, Nat.zero_le _, ?_, ?_⟩
      · rw [hsame]
        exact hseen.head
      · rw [UInt32.le_iff_toNat_le]
        cases hside : c.side <;> simp only [hside, State.limit, State.headCount] at hfits hsame <;>
          omega
      · intro hside j hj
        rw [claim_reserved, if_pos hside, hside]
        change (s.reserved ++ _)[s.reserved.length + j]? = _
        rw [List.getElem?_append_right (by omega), Nat.add_sub_cancel_left,
          List.getElem?_take_of_lt hj]
      · rw [h.shape.copyPtrs]
        rfl
      · intro j hj
        omega
    · rw [Function.update_of_ne hne]
      exact (h.ok t').later (h.later_claim hroom.le hbusy hne)
  case window =>
    intro side
    rw [claim_headCount t c oldHead hroom.le, claim_tailCount]
    by_cases hside : side = c.side
    · rw [if_pos hside, claims_of_pc (claim_pc t c oldHead n)]
      simp only [Pc.claim, ← hside]
      apply (h.window side).reserve _ (h.tail_le side) hroom.pos
      rw [State.claims, hpc]
      rfl
    · rw [if_neg hside, Nat.add_zero, claims_goOn (claim_pc t c oldHead n)]
      · exact h.window side
      · rw [hpc]
        exact if_neg (Ne.symm hside)
  case alone =>
    rw [claim_pc]
    apply h.alone.goOn
    intro side hs
    rw [hpc]
    exact hs

theorem Inv.publish (h : Inv r s) {t : τ} {c : Call α} {oldHead n : UInt32} {start : Nat}
    (hpc : s.pc t = .storeTail c oldHead n start) : Inv r (s.publish t c oldHead n) := by
  have hok := h.ok t
  rw [hpc] at hok
  obtain ⟨hc, hdone, hstart⟩ := hok
  have hclaim : s.claims c.side t = some (s.tailCount c.side, n.toNat) := by
    rw [State.claims, hpc, ← hstart]
    exact if_pos rfl
  obtain ⟨hcells, hreserved, htaken⟩ := publish_same (s := s) t c oldHead n
  have hin := (h.window c.side).inside t _ _ hclaim
  have hentries := hc.entries hdone
  have hlen := c.take_length hc.le
  constructor
  case shape =>
    rw [publish_ring]
    exact h.shape.setTail _ _
  case cells_length =>
    rw [hcells]
    exact h.cells_length
  case head_eq =>
    intro side
    rw [publish_ring, ht_setTail, publish_headCount, ← h.head_eq]
    split
    · next he => rw [he]
    · rfl
  case tail_eq =>
    intro side
    rw [publish_ring, ht_setTail, publish_tailCount t c oldHead hc.le]
    split
    · next he =>
      rw [he, ← hstart, hc.head, ofNat_add_toNat]
    · rw [Nat.add_zero]
      exact h.tail_eq side
  case tail_le =>
    intro side
    have := h.tail_le side
    rw [publish_headCount, publish_tailCount t c oldHead hc.le]
    split
    · next he =>
      rw [he]
      omega
    · omega
  case head_le =>
    intro side
    rw [publish_headCount]
    exact Nat.le_trans (h.head_le side) (publish_limit t c oldHead n _ side)
  case given_eq =>
    rw [publish_given, hreserved]
    split
    · next hside =>
      rw [hside] at hstart
      apply prefix_append_of_getElem? h.given_eq
      intro j hj
      rw [← show start = s.given.length from hstart]
      exact hentries j (hlen ▸ hj)
    · rw [List.append_nil]
      exact h.given_eq
  case returned_eq =>
    rw [publish_returned, hreserved]
    split
    · next hside =>
      rw [hside] at hstart
      apply prefix_append_of_getElem? h.returned_eq
      intro j hj
      rw [← show start = s.returned.length from hstart]
      exact hentries j (hlen ▸ hj)
    · rw [List.append_nil]
      exact h.returned_eq
  case stored =>
    intro k hle hlt
    rw [publish_returned, List.length_append] at hle
    rw [publish_given, List.length_append] at hlt
    rw [hreserved, hcells]
    by_cases hk : k < s.given.length
    · exact h.stored k (by omega) hk
    · cases hside : c.side with
      | prod =>
        rw [hside] at hstart
        rw [if_pos hside, hlen] at hlt
        have hstart' : start = s.given.length := hstart
        have := hdone (k - start) (by omega)
        rw [hside, Nat.add_sub_cancel' (by omega)] at this
        exact this
      | cons =>
        rw [if_neg (by rw [hside]; exact Side.noConfusion), List.length_nil] at hlt
        omega
  case ok =>
    intro t'
    rw [publish_pc]
    by_cases hne : t' = t
    · subst hne
      rw [Function.update_self]
      trivial
    · rw [Function.update_of_ne hne]
      exact (h.ok t').later (h.later_publish hc.le hclaim hne)
  case window =>
    intro side
    rw [publish_headCount, publish_tailCount t c oldHead hc.le]
    by_cases hside : side = c.side
    · subst hside
      rw [if_pos rfl, claims_of_pc (publish_pc t c oldHead n)]
      exact (h.window c.side).release hclaim
    · rw [if_neg hside, Nat.add_zero, claims_goOn (publish_pc t c oldHead n)]
      · exact h.window side
      · rw [hpc]
        exact (if_neg (Ne.symm hside)).symm
  case alone =>
    rw [publish_pc]
    apply h.alone.goOn
    intro side hs
    cases hs

/-- **Every step keeps the invariant.** -/
theorem Inv.step (hr : r.WellFormed) (h : Inv r s) {a : Action τ α} (hok : okRing r s a)
    {s' : State τ α} (hstep : ringStep s a = some s') : Inv r s' := by
  cases move_of_ringStep hstep with
  | call c hpc =>
    apply h.goto (show s.Ok r (.readHead c) from trivial)
    · intro side
      rw [hpc]
      rfl
    · apply h.alone.update
      intro side hsingle hside t' ht'
      cases hside
      exact absurd ht' (hok hsingle t')
  | readHead hpc =>
    exact h.goOn hpc ⟨h.head_eq _, Nat.le_refl _, fun _ => rfl⟩ (fun _ => rfl) (fun _ => id)
  | @refuse t c oldHead seen hpc _ =>
    apply h.goOn hpc (show s.Ok r (.idle 0 c.objTable) from trivial) (fun _ => rfl)
    intro side hs
    cases hs
  | @room t c oldHead n seen hpc hn hne =>
    have hseen := h.ok t
    rw [hpc] at hseen
    exact h.goOn hpc ⟨hseen, h.findRoom hr hseen hn hne⟩ (fun _ => rfl) (fun _ => id)
  | @retry t c oldHead n seen hpc _ =>
    exact h.goOn hpc (show s.Ok r (.readHead c) from trivial) (fun _ => rfl) (fun _ => id)
  | claim hpc hhead =>
    simp only [okRing, hpc, okCas] at hok
    exact h.claim hpc hok hhead
  | @copied t c oldHead n start hpc =>
    have hpcOk := h.ok t
    rw [hpc] at hpcOk
    obtain ⟨hc, k, hk, htodo, hdone⟩ := hpcOk
    have hlen := hc.length_copyPtrs hr
    have hall : k = n.toNat := by
      have := List.drop_eq_nil_iff.mp htodo.symm
      omega
    exact h.goOn hpc ⟨hc, hall ▸ hdone⟩ (fun _ => rfl) (fun _ => id)
  | put hpc hside ha => exact h.put hr hpc hside ha
  | get hpc hside ha => exact h.get hr hpc hside ha
  | wait hpc _ => exact h
  | @turn t c oldHead n start hpc htail =>
    have hpcOk := h.ok t
    rw [hpc] at hpcOk
    obtain ⟨hc, hdone⟩ := hpcOk
    exact h.goOn hpc ⟨hc, hdone, h.comes_next hpc hc htail⟩ (fun _ => rfl) (fun _ => id)
  | publish hpc => exact h.publish hpc

end

end Pixelflut.Dpdk.Ring
