import Mathlib.Data.Fintype.Basic
import Pixelflut.Lib.Transition
import Pixelflut.Lib.Claims
import Pixelflut.Dpdk.Ring

/-!
# A ring between threads

Any number of threads enqueue to one ring and dequeue from it, in any mixture of
the fixed and the variable calls, with one or several producers and consumers. A
step is one access to the ring; the accesses take effect in one order, which is
what the barriers of the source are for. `seen`, `start` and the fields from
`reserved` on are no variables of the program: they count what has been claimed
and record the pointers that went in and came out.
-/

namespace Pixelflut.Dpdk.Ring

open Function (update)
open Lib.Transition

/-! ## States -/

inductive Side where
  | prod
  | cons
  deriving DecidableEq

/-- `enum rte_ring_queue_behavior`. -/
inductive Behavior where
  | RTE_RING_QUEUE_FIXED
  | RTE_RING_QUEUE_VARIABLE
  deriving DecidableEq

/-- The arguments of an enqueue or a dequeue: a table of `n` pointers. -/
structure Call (α : Type) where
  side : Side
  behavior : Behavior
  n : UInt32
  objTable : List α
  length_eq : objTable.length = n.toNat

/-- Where a thread is. -/
inductive Pc (α : Type) where
  /-- In no call; the last one returned `n`, with this table. -/
  | idle (n : UInt32) (objTable : List α)
  | readHead (c : Call α)
  | readTail (c : Call α) (oldHead : UInt32) (seen : Nat)
  | cmpset (c : Call α) (oldHead n : UInt32) (seen : Nat)
  | copy (c : Call α) (oldHead n : UInt32) (todo : List (UInt32 × UInt32)) (start : Nat)
  /-- In the loop of `update_tail`. -/
  | updateTail (c : Call α) (oldHead n : UInt32) (start : Nat)
  | storeTail (c : Call α) (oldHead n : UInt32) (start : Nat)

structure State (τ α : Type) where
  ring : RteRing
  cells : List α
  pc : τ → Pc α
  /-- The pointers in the order in which producers have claimed cells for them. -/
  reserved : List α
  /-- How many of them consumers have claimed. -/
  taken : Nat
  /-- What the completed enqueues were given, one after another. -/
  given : List α
  /-- What the completed dequeues have returned, one after another. -/
  returned : List α

variable {τ α : Type}

def RteRing.ht (r : RteRing) : Side → HeadTail
  | .prod => r.prod
  | .cons => r.cons

def RteRing.setHead (r : RteRing) (side : Side) (v : UInt32) : RteRing :=
  match side with
  | .prod => { r with prod := { r.prod with head := v } }
  | .cons => { r with cons := { r.cons with head := v } }

def RteRing.setTail (r : RteRing) (side : Side) (v : UInt32) : RteRing :=
  match side with
  | .prod => { r with prod := { r.prod with tail := v } }
  | .cons => { r with cons := { r.cons with tail := v } }

/-- `free_entries` of `__rte_ring_move_prod_head`, and `entries` of
`__rte_ring_move_cons_head`. -/
def RteRing.entries (r : RteRing) (oldHead : UInt32) : Side → UInt32
  | .prod => r.capacity + r.cons.tail - oldHead
  | .cons => r.prod.tail - oldHead

/-- How far a head is moved for a call of `n` pointers. -/
def moveBy (n : UInt32) (behavior : Behavior) (entries : UInt32) : UInt32 :=
  if n > entries then
    match behavior with
    | .RTE_RING_QUEUE_FIXED => 0
    | .RTE_RING_QUEUE_VARIABLE => entries
  else n

/-- `obj_table[i] = a`. -/
def Call.store (c : Call α) (i : UInt32) (a : α) : Call α :=
  { c with objTable := c.objTable.set i.toNat a
           length_eq := by rw [List.length_set, c.length_eq] }

def State.headCount (s : State τ α) : Side → Nat
  | .prod => s.reserved.length
  | .cons => s.taken

def State.tailCount (s : State τ α) : Side → Nat
  | .prod => s.given.length
  | .cons => s.returned.length

/-! ## Steps -/

inductive Action (τ α : Type) where
  | call (t : τ) (c : Call α)
  | step (t : τ)

variable [DecidableEq τ]

def State.goto (s : State τ α) (t : τ) (pc : Pc α) : State τ α := { s with pc := update s.pc t pc }

/-- The head has been moved over `n` cells for the call `c`. -/
def State.claim (s : State τ α) (t : τ) (c : Call α) (oldHead n : UInt32) : State τ α :=
  let s' := { s with ring := s.ring.setHead c.side (oldHead + n) }
  match c.side with
  | .prod => { s' with reserved := s.reserved ++ c.objTable.take n.toNat }.goto t
      (.copy c oldHead n (enqueuePtrs s.ring oldHead n) s.reserved.length)
  | .cons => { s' with taken := s.taken + n.toNat }.goto t
      (.copy c oldHead n (dequeuePtrs s.ring oldHead n) s.taken)

/-- The store of `update_tail`, after which the call returns. -/
def State.publish (s : State τ α) (t : τ) (c : Call α) (oldHead n : UInt32) : State τ α :=
  let s' := { s with ring := s.ring.setTail c.side (oldHead + n) }.goto t (.idle n c.objTable)
  match c.side with
  | .prod => { s' with given := s.given ++ c.objTable.take n.toNat }
  | .cons => { s' with returned := s.returned ++ c.objTable.take n.toNat }

/-- `ring[idx] = obj_table[i]`, or the other way round; nothing outside the
ring or the table is accessed. -/
def State.access (s : State τ α) (t : τ) (c : Call α) (oldHead n : UInt32) (idx i : UInt32)
    (todo : List (UInt32 × UInt32)) (start : Nat) : Option (State τ α) :=
  match c.side, s.cells[idx.toNat]?, c.objTable[i.toNat]? with
  | .prod, some _, some a =>
    some ({ s with cells := s.cells.set idx.toNat a }.goto t (.copy c oldHead n todo start))
  | .cons, some a, some _ => some (s.goto t (.copy (c.store i a) oldHead n todo start))
  | _, _, _ => none

def ringStep (s : State τ α) : Action τ α → Option (State τ α)
  | .call t c =>
    match s.pc t with
    | .idle _ _ => some (s.goto t (.readHead c))
    | _ => none
  | .step t =>
    match s.pc t with
    | .idle _ _ => none
    | .readHead c => some (s.goto t (.readTail c (s.ring.ht c.side).head (s.headCount c.side)))
    | .readTail c oldHead seen =>
      let n := moveBy c.n c.behavior (s.ring.entries oldHead c.side)
      if n = 0 then some (s.goto t (.idle 0 c.objTable))
      else some (s.goto t (.cmpset c oldHead n seen))
    | .cmpset c oldHead n _ =>
      if (s.ring.ht c.side).single ∨ (s.ring.ht c.side).head = oldHead then
        some (s.claim t c oldHead n)
      else some (s.goto t (.readHead c))
    | .copy c oldHead n [] start => some (s.goto t (.updateTail c oldHead n start))
    | .copy c oldHead n ((idx, i) :: todo) start => s.access t c oldHead n idx i todo start
    | .updateTail c oldHead n start =>
      if (s.ring.ht c.side).single ∨ (s.ring.ht c.side).tail = oldHead then
        some (s.goto t (.storeTail c oldHead n start))
      else some s
    | .storeTail c oldHead n _ => some (s.publish t c oldHead n)

/-- A ring as `rte_ring_init` has left it, over any cells, with no thread in a call. -/
def threads (r : RteRing) (cells : List α) : System (State τ α) (Action τ α) where
  init := ⟨r, cells, fun _ => .idle 0 [], [], 0, [], []⟩
  step := ringStep

/-! ## Conditions on a run -/

def Pc.side : Pc α → Option Side
  | .idle _ _ => none
  | .readHead c | .readTail c _ _ | .cmpset c _ _ _ | .copy c _ _ _ _ | .updateTail c _ _ _
  | .storeTail c _ _ _ => some c.side

/-- Between its read of a head and its compare-and-set, a thread is not overtaken
by `2 ^ 32` pointers. -/
def okCas (s : State τ α) : Pc α → Prop
  | .cmpset c _ _ seen => s.headCount c.side < seen + 2 ^ 32
  | _ => True

/-- What the callers promise and the 32-bit indices need: a side for a single
thread is used by one at a time, and `okCas`. -/
def okRing (r : RteRing) (s : State τ α) : Action τ α → Prop
  | .call _ c => (r.ht c.side).single = true → ∀ t, (s.pc t).side ≠ some c.side
  | .step t => okCas s (s.pc t)

instance (s : State τ α) : (pc : Pc α) → Decidable (okCas s pc)
  | .cmpset c _ _ seen => inferInstanceAs (Decidable (s.headCount c.side < seen + 2 ^ 32))
  | .idle _ _ | .readHead _ | .readTail _ _ _ | .copy _ _ _ _ _ | .updateTail _ _ _ _
  | .storeTail _ _ _ _ => inferInstanceAs (Decidable True)

instance [Fintype τ] (r : RteRing) (s : State τ α) : (a : Action τ α) → Decidable (okRing r s a)
  | .call _ c => inferInstanceAs
    (Decidable ((r.ht c.side).single = true → ∀ t, (s.pc t).side ≠ some c.side))
  | .step t => inferInstanceAs (Decidable (okCas s (s.pc t)))

/-! ## What the operations change -/

@[simp] theorem ht_setHead (r : RteRing) (side side' : Side) (v : UInt32) :
    (r.setHead side v).ht side' = if side' = side then { r.ht side with head := v }
      else r.ht side' := by
  cases side
  · cases side'
    · rfl
    · rfl
  · cases side'
    · rfl
    · rfl

@[simp] theorem ht_setTail (r : RteRing) (side side' : Side) (v : UInt32) :
    (r.setTail side v).ht side' = if side' = side then { r.ht side with tail := v }
      else r.ht side' := by
  cases side
  · cases side'
    · rfl
    · rfl
  · cases side'
    · rfl
    · rfl

theorem Call.take_length (c : Call α) {n : UInt32} (hn : n ≤ c.n) :
    (c.objTable.take n.toNat).length = n.toNat := by
  rw [List.length_take, c.length_eq, Nat.min_eq_left (UInt32.le_iff_toNat_le.mp hn)]

section
variable {s : State τ α}

theorem headCount_goto (t : τ) (pc : Pc α) (side : Side) :
    (s.goto t pc).headCount side = s.headCount side := by
  cases side
  · rfl
  · rfl

theorem tailCount_goto (t : τ) (pc : Pc α) (side : Side) :
    (s.goto t pc).tailCount side = s.tailCount side := by
  cases side
  · rfl
  · rfl

@[simp] theorem goto_pc_self (t : τ) (pc : Pc α) : (s.goto t pc).pc t = pc := by
  simp [State.goto]

theorem goto_pc_ne {t t' : τ} (pc : Pc α) (h : t' ≠ t) : (s.goto t pc).pc t' = s.pc t' := by
  simp [State.goto, h]

theorem claim_pc (t : τ) (c : Call α) (oldHead n : UInt32) : (s.claim t c oldHead n).pc =
    update s.pc t (.copy c oldHead n (copyPtrs s.ring oldHead n) (s.headCount c.side)) := by
  unfold State.claim
  cases c.side
  · rfl
  · rfl

theorem claim_ring (t : τ) (c : Call α) (oldHead n : UInt32) :
    (s.claim t c oldHead n).ring = s.ring.setHead c.side (oldHead + n) := by
  unfold State.claim
  cases c.side
  · rfl
  · rfl

theorem claim_same (t : τ) (c : Call α) (oldHead n : UInt32) :
    (s.claim t c oldHead n).cells = s.cells ∧ (s.claim t c oldHead n).given = s.given ∧
      (s.claim t c oldHead n).returned = s.returned := by
  unfold State.claim
  cases c.side
  · exact ⟨rfl, rfl, rfl⟩
  · exact ⟨rfl, rfl, rfl⟩

theorem claim_reserved (t : τ) (c : Call α) (oldHead n : UInt32) :
    (s.claim t c oldHead n).reserved =
      s.reserved ++ if c.side = .prod then c.objTable.take n.toNat else [] := by
  unfold State.claim
  cases c.side
  · rfl
  · exact (List.append_nil _).symm

theorem claim_headCount (t : τ) (c : Call α) (oldHead : UInt32) {n : UInt32} (hn : n ≤ c.n)
    (side : Side) : (s.claim t c oldHead n).headCount side =
      s.headCount side + if side = c.side then n.toNat else 0 := by
  cases side with
  | prod =>
    change (s.claim t c oldHead n).reserved.length = s.reserved.length + _
    rw [claim_reserved, List.length_append]
    cases hside : c.side
    · rw [if_pos rfl, if_pos rfl, c.take_length hn]
    · rfl
  | cons =>
    unfold State.claim
    cases c.side
    · rfl
    · rfl

theorem claim_tailCount (t : τ) (c : Call α) (oldHead n : UInt32) (side : Side) :
    (s.claim t c oldHead n).tailCount side = s.tailCount side := by
  obtain ⟨-, hgiven, hreturned⟩ := claim_same (s := s) t c oldHead n
  cases side
  · exact congrArg List.length hgiven
  · exact congrArg List.length hreturned

theorem publish_pc (t : τ) (c : Call α) (oldHead n : UInt32) :
    (s.publish t c oldHead n).pc = update s.pc t (.idle n c.objTable) := by
  unfold State.publish
  cases c.side
  · rfl
  · rfl

theorem publish_ring (t : τ) (c : Call α) (oldHead n : UInt32) :
    (s.publish t c oldHead n).ring = s.ring.setTail c.side (oldHead + n) := by
  unfold State.publish
  cases c.side
  · rfl
  · rfl

theorem publish_same (t : τ) (c : Call α) (oldHead n : UInt32) :
    (s.publish t c oldHead n).cells = s.cells ∧ (s.publish t c oldHead n).reserved = s.reserved ∧
      (s.publish t c oldHead n).taken = s.taken := by
  unfold State.publish
  cases c.side
  · exact ⟨rfl, rfl, rfl⟩
  · exact ⟨rfl, rfl, rfl⟩

theorem publish_given (t : τ) (c : Call α) (oldHead n : UInt32) :
    (s.publish t c oldHead n).given =
      s.given ++ if c.side = .prod then c.objTable.take n.toNat else [] := by
  unfold State.publish
  cases c.side
  · rfl
  · exact (List.append_nil _).symm

theorem publish_returned (t : τ) (c : Call α) (oldHead n : UInt32) :
    (s.publish t c oldHead n).returned =
      s.returned ++ if c.side = .cons then c.objTable.take n.toNat else [] := by
  unfold State.publish
  cases c.side
  · exact (List.append_nil _).symm
  · rfl

theorem publish_headCount (t : τ) (c : Call α) (oldHead n : UInt32) (side : Side) :
    (s.publish t c oldHead n).headCount side = s.headCount side := by
  obtain ⟨-, hreserved, htaken⟩ := publish_same (s := s) t c oldHead n
  cases side
  · exact congrArg List.length hreserved
  · exact htaken

theorem publish_tailCount (t : τ) (c : Call α) (oldHead : UInt32) {n : UInt32} (hn : n ≤ c.n)
    (side : Side) : (s.publish t c oldHead n).tailCount side =
      s.tailCount side + if side = c.side then n.toNat else 0 := by
  cases side with
  | prod =>
    change (s.publish t c oldHead n).given.length = s.given.length + _
    rw [publish_given, List.length_append]
    cases hside : c.side
    · rw [if_pos rfl, if_pos rfl, c.take_length hn]
    · rfl
  | cons =>
    change (s.publish t c oldHead n).returned.length = s.returned.length + _
    rw [publish_returned, List.length_append]
    cases hside : c.side
    · rfl
    · rw [if_pos rfl, if_pos rfl, c.take_length hn]

end

/-! ## The steps, with their guards -/

inductive Move (s : State τ α) : Action τ α → State τ α → Prop where
  | call {t : τ} {n : UInt32} {objTable : List α} (c : Call α) (hpc : s.pc t = .idle n objTable) :
      Move s (.call t c) (s.goto t (.readHead c))
  | readHead {t : τ} {c : Call α} (hpc : s.pc t = .readHead c) :
      Move s (.step t) (s.goto t (.readTail c (s.ring.ht c.side).head (s.headCount c.side)))
  | refuse {t : τ} {c : Call α} {oldHead : UInt32} {seen : Nat}
      (hpc : s.pc t = .readTail c oldHead seen)
      (hn : moveBy c.n c.behavior (s.ring.entries oldHead c.side) = 0) :
      Move s (.step t) (s.goto t (.idle 0 c.objTable))
  | room {t : τ} {c : Call α} {oldHead n : UInt32} {seen : Nat}
      (hpc : s.pc t = .readTail c oldHead seen)
      (hn : n = moveBy c.n c.behavior (s.ring.entries oldHead c.side)) (hne : n ≠ 0) :
      Move s (.step t) (s.goto t (.cmpset c oldHead n seen))
  | retry {t : τ} {c : Call α} {oldHead n : UInt32} {seen : Nat}
      (hpc : s.pc t = .cmpset c oldHead n seen)
      (hlost : ¬((s.ring.ht c.side).single = true ∨ (s.ring.ht c.side).head = oldHead)) :
      Move s (.step t) (s.goto t (.readHead c))
  | claim {t : τ} {c : Call α} {oldHead n : UInt32} {seen : Nat}
      (hpc : s.pc t = .cmpset c oldHead n seen)
      (hhead : (s.ring.ht c.side).single = true ∨ (s.ring.ht c.side).head = oldHead) :
      Move s (.step t) (s.claim t c oldHead n)
  | copied {t : τ} {c : Call α} {oldHead n : UInt32} {start : Nat}
      (hpc : s.pc t = .copy c oldHead n [] start) :
      Move s (.step t) (s.goto t (.updateTail c oldHead n start))
  | put {t : τ} {c : Call α} {oldHead n idx i : UInt32} {todo : List (UInt32 × UInt32)}
      {start : Nat} {a : α} (hpc : s.pc t = .copy c oldHead n ((idx, i) :: todo) start)
      (hside : c.side = .prod) (ha : c.objTable[i.toNat]? = some a) :
      Move s (.step t)
        ({ s with cells := s.cells.set idx.toNat a }.goto t (.copy c oldHead n todo start))
  | get {t : τ} {c : Call α} {oldHead n idx i : UInt32} {todo : List (UInt32 × UInt32)}
      {start : Nat} {a : α} (hpc : s.pc t = .copy c oldHead n ((idx, i) :: todo) start)
      (hside : c.side = .cons) (ha : s.cells[idx.toNat]? = some a) :
      Move s (.step t) (s.goto t (.copy (c.store i a) oldHead n todo start))
  | wait {t : τ} {c : Call α} {oldHead n : UInt32} {start : Nat}
      (hpc : s.pc t = .updateTail c oldHead n start)
      (hwait : ¬((s.ring.ht c.side).single = true ∨ (s.ring.ht c.side).tail = oldHead)) :
      Move s (.step t) s
  | turn {t : τ} {c : Call α} {oldHead n : UInt32} {start : Nat}
      (hpc : s.pc t = .updateTail c oldHead n start)
      (htail : (s.ring.ht c.side).single = true ∨ (s.ring.ht c.side).tail = oldHead) :
      Move s (.step t) (s.goto t (.storeTail c oldHead n start))
  | publish {t : τ} {c : Call α} {oldHead n : UInt32} {start : Nat}
      (hpc : s.pc t = .storeTail c oldHead n start) :
      Move s (.step t) (s.publish t c oldHead n)

theorem move_of_access {s s' : State τ α} {t : τ} {c : Call α} {oldHead n idx i : UInt32}
    {todo : List (UInt32 × UInt32)} {start : Nat}
    (hpc : s.pc t = .copy c oldHead n ((idx, i) :: todo) start)
    (h : s.access t c oldHead n idx i todo start = some s') : Move s (.step t) s' := by
  unfold State.access at h
  split at h
  · next hside _ ha =>
    cases h
    exact .put hpc hside ha
  · next hside ha _ =>
    cases h
    exact .get hpc hside ha
  · cases h

theorem move_of_ringStep {s s' : State τ α} {a : Action τ α} (h : ringStep s a = some s') :
    Move s a s' := by
  cases a with
  | call t c =>
    simp only [ringStep] at h
    split at h
    · next hpc =>
      cases h
      exact .call c hpc
    · cases h
  | step t =>
    simp only [ringStep] at h
    split at h
    · cases h
    · next hpc =>
      cases h
      exact .readHead hpc
    · next hpc =>
      split at h
      · next hn =>
        cases h
        exact .refuse hpc hn
      · next hne =>
        cases h
        exact .room hpc rfl hne
    · next hpc =>
      split at h
      · next hhead =>
        cases h
        exact .claim hpc hhead
      · next hlost =>
        cases h
        exact .retry hpc hlost
    · next hpc =>
      cases h
      exact .copied hpc
    · next hpc => exact move_of_access hpc h
    · next hpc =>
      split at h
      · next htail =>
        cases h
        exact .turn hpc htail
      · next hwait =>
        cases h
        exact .wait hpc hwait
    · next hpc =>
      cases h
      exact .publish hpc

theorem Move.pc_ne {s s' : State τ α} {t t' : τ} (h : Move s (.step t) s') (hne : t' ≠ t) : s'.pc t' = s.pc t' := by
  cases h with
  | readHead hpc => exact goto_pc_ne _ hne
  | refuse hpc hn => exact goto_pc_ne _ hne
  | room hpc hn hz => exact goto_pc_ne _ hne
  | retry hpc _ => exact goto_pc_ne _ hne
  | claim hpc hhead => rw [claim_pc, Function.update_of_ne hne]
  | copied hpc => exact goto_pc_ne _ hne
  | put hpc hside ha => exact goto_pc_ne _ hne
  | get hpc hside ha => exact goto_pc_ne _ hne
  | wait hpc _ => rfl
  | turn hpc htail => exact goto_pc_ne _ hne
  | publish hpc => rw [publish_pc, Function.update_of_ne hne]

end Pixelflut.Dpdk.Ring
