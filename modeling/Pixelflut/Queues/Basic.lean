import Mathlib.Data.UInt
import Mathlib.Algebra.Group.Nat.Defs
import Pixelflut.Lib.BlockHeap
import Pixelflut.Errno
import Pixelflut.Workqueue.Basic

/-!
# The queues of a process

`workqueue_init`, `workqueue_deinit` and `workqueue_enqueue` on the static
variables of `workqueue.c`: the array of queues lives in a heap, and every
access to one of its elements goes through it, so that an access to an array
that is not allocated any more is `none`. Joining a thread that was never
created is `none` too.

What the workers do with their queues is left to `Workqueue`; here a queue
holds what is on its list, and a worker is the name of its thread.

`stopAt_spec` and `freeWorkqueues_spec` are what the two ways down are made
of; `rollback_spec` and `stopLoop_spec` are their loops.
-/

namespace Pixelflut.Queues

open Lib.BlockHeap Workqueue

/-- What libnuma says about the machine. Both functions return an `int`, and
the highest node number is not negative. -/
structure Topology where
  numaAvailable : Int
  numaMaxNode : Nat
  maxNode_lt : numaMaxNode < 2 ^ 31

/-- A `struct workqueue`; `thread` is unset until `pthread_create` sets it. -/
structure Wqueue (φ π : Type) where
  entries : List (WorkqueueEntry φ π)
  numaNode : UInt32
  doExit : Bool
  thread : Option Nat
  deriving DecidableEq

/-- The static variables and the arrays that they point to. The last three
fields are no variables of the program: they record what has happened. -/
structure Globals (φ π : Type) where
  heap : Heap (Wqueue φ π)
  workqueues : Option Nat
  numWorkqueues : Nat
  numWorkqueueItems : Int
  nextId : Nat
  created : List Nat
  joined : List Nat
  trace : List (Event (WorkqueueEntry φ π))
  deriving DecidableEq

variable {φ π : Type}

/-- The start of the process: static variables are zero. -/
def Globals.start : Globals φ π where
  heap := ⟨[]⟩
  workqueues := none
  numWorkqueues := 0
  numWorkqueueItems := 0
  nextId := 0
  created := []
  joined := []
  trace := []

/-- An element of the array as `calloc` leaves it. -/
def zeroed : Wqueue φ π := ⟨[], 0, false, none⟩

/-! ## Stopping -/

/-- The loop at the end of `stop_workqueue`. -/
def drainEvents (entries : List (WorkqueueEntry φ π)) : List (Event (WorkqueueEntry φ π)) :=
  entries.flatMap fun entry => .drain entry :: cleanupEvents entry 0 ++ [.free entry]

/-- `stop_workqueue` for the element `i` of the array at `p`. -/
def stopWorkqueue (g : Globals φ π) (p i : Nat) : Option (Globals φ π) := do
  let wqueue ← g.heap.load p i
  let thread ← wqueue.thread
  let heap ← g.heap.store p i { wqueue with doExit := true, entries := [] }
  some { g with
    heap := heap
    joined := g.joined ++ [thread]
    trace := g.trace ++ drainEvents wqueue.entries }

/-- `stop_workqueue(&workqueues[i])`. -/
def stopAt (g : Globals φ π) (i : Nat) : Option (Globals φ π) :=
  g.workqueues.bind fun p => stopWorkqueue g p i

/-- `free(workqueues)`; a null pointer is left alone. -/
def freeWorkqueues (g : Globals φ π) : Option (Globals φ π) :=
  match g.workqueues with
  | none => some g
  | some p => (g.heap.free p).map fun heap => { g with heap := heap }

/-- The loop of `workqueue_deinit` from `i` on, with so many queues to go. -/
def stopLoop (g : Globals φ π) (i : Nat) : Nat → Option (Globals φ π)
  | 0 => some g
  | left + 1 => (stopAt g i).bind fun g => stopLoop g (i + 1) left

def workqueueDeinit (g : Globals φ π) : Option (Globals φ π) :=
  (stopLoop g 0 g.numWorkqueues).bind fun g => freeWorkqueues { g with numWorkqueues := 0 }

/-! ## Starting -/

def Topology.numWorkqueues (T : Topology) : Nat :=
  if T.numaAvailable ≠ 0 then T.numaMaxNode else 1

/-- The body of the loop of `workqueue_init`; `threadErr` is the answer of its
`pthread_create`. -/
def startAt (g : Globals φ π) (p i : Nat) (threadErr : Int) : Option (Globals φ π × Int) := do
  let wqueue ← g.heap.load p i
  let wqueue := { wqueue with numaNode := .ofNat i, entries := [] }
  if threadErr = 0 then
    let thread := g.created.length
    let heap ← g.heap.store p i { wqueue with thread := some thread }
    some ({ g with heap := heap, created := g.created ++ [thread] }, 0)
  else
    let heap ← g.heap.store p i wqueue
    some ({ g with heap := heap }, -threadErr)

/-- The loop of `workqueue_init` from `i` on, with so many queues to go. It
ends with the value of `i` and of `err`. -/
def startLoop (threadErr : Nat → Int) (g : Globals φ π) (p i : Nat) :
    Nat → Option (Globals φ π × Nat × Int)
  | 0 => some (g, i, 0)
  | left + 1 => do
    let (g, err) ← startAt g p i (threadErr i)
    if err = 0 then startLoop threadErr g p (i + 1) left else some (g, i, err)

/-- The loop at `fail_threads`: `while(i-- > 0) stop_workqueue(&workqueues[i]);`. -/
def rollback (g : Globals φ π) : Nat → Option (Globals φ π)
  | 0 => some g
  | i + 1 => (stopAt g i).bind fun g => rollback g i

/-- `num_workqueues = n; workqueues = calloc(n, sizeof(struct workqueue));`
when it succeeds. -/
def allocWorkqueues (g : Globals φ π) (n : Nat) : Globals φ π :=
  { g with
    heap := g.heap.alloc (List.replicate n zeroed)
    workqueues := some g.heap.fresh
    numWorkqueues := n }

/-- `workqueue_init`; `callocOk` is the answer of its `calloc`, `threadErr k`
that of the `pthread_create` of queue `k`. -/
def workqueueInit (T : Topology) (callocOk : Bool) (threadErr : Nat → Int) (g : Globals φ π) :
    Option (Globals φ π × Int) :=
  let n := T.numWorkqueues
  if callocOk then do
    let (g, i, err) ← startLoop threadErr (allocWorkqueues g n) g.heap.fresh 0 n
    if err = 0 then some (g, 0)
    else do
      let g ← rollback g i
      let g ← freeWorkqueues g
      some (g, err)
  else some ({ g with workqueues := none, numWorkqueues := n }, -ENOMEM)

/-! ## Enqueueing -/

/-- An operation `f` on `workqueues[i].entries`. -/
def updateEntries (g : Globals φ π) (i : Nat)
    (f : List (WorkqueueEntry φ π) → List (WorkqueueEntry φ π)) : Option (Globals φ π) := do
  let p ← g.workqueues
  let wqueue ← g.heap.load p i
  let heap ← g.heap.store p i { wqueue with entries := f wqueue.entries }
  some { g with heap := heap }

/-- `workqueue_enqueue`; `callocOk` is the answer of its `calloc`. -/
def workqueueEnqueue (g : Globals φ π) (numaNode : UInt32) (priv : π) (cb : φ)
    (err cleanup : Option φ) (callocOk : Bool) : Option (Globals φ π × Int) :=
  if numaNode.toNat ≥ g.numWorkqueues then some (g, -EINVAL)
  else if !callocOk then some (g, -ENOMEM)
  else do
    let entry := ⟨g.nextId, cb, err, cleanup, priv⟩
    let g ← updateEntries g numaNode.toNat (· ++ [entry])
    some ({ g with
      nextId := g.nextId + 1
      numWorkqueueItems := g.numWorkqueueItems + 1
      trace := g.trace ++ [.append entry] }, 0)

/-! ## What the operations do -/

/-- The thread of the element `i` of the array at `p`. -/
def threadAt (g : Globals φ π) (p i : Nat) : Option Nat :=
  (g.heap.load p i).bind Wqueue.thread

/-- The threads `ts` have been joined, and nothing else has changed that
stopping and freeing depend on. -/
structure Stopped (g g' : Globals φ π) (ts : List Nat) : Prop where
  workqueues : g'.workqueues = g.workqueues
  numWorkqueues : g'.numWorkqueues = g.numWorkqueues
  created : g'.created = g.created
  joined : g'.joined = g.joined ++ ts
  threadAt : ∀ p i, threadAt g' p i = threadAt g p i
  live : ∀ p, (g'.heap.block p).isSome = (g.heap.block p).isSome

theorem Stopped.refl (g : Globals φ π) : Stopped g g [] :=
  ⟨rfl, rfl, rfl, (List.append_nil _).symm, fun _ _ => rfl, fun _ => rfl⟩

theorem Stopped.trans {g g' g'' : Globals φ π} {ts ts' : List Nat} (h : Stopped g g' ts)
    (h' : Stopped g' g'' ts') : Stopped g g'' (ts ++ ts') where
  workqueues := h'.workqueues.trans h.workqueues
  numWorkqueues := h'.numWorkqueues.trans h.numWorkqueues
  created := h'.created.trans h.created
  joined := by rw [h'.joined, h.joined, List.append_assoc]
  threadAt p i := (h'.threadAt p i).trans (h.threadAt p i)
  live p := (h'.live p).trans (h.live p)

/-- Stopping a queue joins its thread. -/
theorem stopAt_spec {g : Globals φ π} {p i t : Nat} (hp : g.workqueues = some p)
    (ht : threadAt g p i = some t) : ∃ g', stopAt g i = some g' ∧ Stopped g g' [t] := by
  obtain ⟨⟨entries, numaNode, doExit, thread⟩, hload, rfl⟩ := Option.bind_eq_some_iff.mp ht
  obtain ⟨heap, hstore, -, hself, hother, hlen⟩ :=
    Heap.store_of_load (⟨[], numaNode, true, some t⟩ : Wqueue φ π) hload
  have hstop : stopAt g i = some { g with
      heap := heap, joined := g.joined ++ [t], trace := g.trace ++ drainEvents entries } := by
    simp only [stopAt, hp, stopWorkqueue, hload, hstore, Option.bind_some, Option.bind_eq_bind]
  refine ⟨_, hstop, rfl, rfl, rfl, rfl, fun q j => ?_, fun q => ?_⟩
  · by_cases hqj : q = p ∧ j = i
    · obtain ⟨rfl, rfl⟩ := hqj
      rw [ht, threadAt, hself, Option.bind_some]
    · rw [threadAt, threadAt, hother q j (not_and_or.mp hqj)]
  · have hsome := congrArg Option.isSome (hlen q)
    rwa [Option.isSome_map, Option.isSome_map] at hsome

/-- The rollback joins the first `i` threads, the last one first. -/
theorem rollback_spec {g : Globals φ π} {p : Nat} (hp : g.workqueues = some p) (i : Nat)
    (ht : ∀ j < i, threadAt g p j = some j) :
    ∃ g', rollback g i = some g' ∧ Stopped g g' (List.range i).reverse := by
  induction i generalizing g with
  | zero => exact ⟨g, rfl, .refl g⟩
  | succ i ih =>
    obtain ⟨g₁, hstop, h₁⟩ := stopAt_spec hp (ht i (Nat.lt_succ_self i))
    obtain ⟨g₂, hrest, h₂⟩ := ih (h₁.workqueues.trans hp) fun j hj =>
      (h₁.threadAt p j).trans (ht j (Nat.lt_succ_of_lt hj))
    refine ⟨g₂, by rw [rollback, hstop, Option.bind_some, hrest], ?_⟩
    rw [List.range_succ, List.reverse_append]
    exact h₁.trans h₂

/-- The loop of `workqueue_deinit` joins the threads in order. -/
theorem stopLoop_spec {g : Globals φ π} {p : Nat} (hp : g.workqueues = some p) (i left : Nat)
    (ht : ∀ j, i ≤ j → j < i + left → threadAt g p j = some j) :
    ∃ g', stopLoop g i left = some g' ∧ Stopped g g' (List.range' i left) := by
  induction left generalizing g i with
  | zero => exact ⟨g, rfl, .refl g⟩
  | succ left ih =>
    obtain ⟨g₁, hstop, h₁⟩ := stopAt_spec hp (ht i (Nat.le_refl i) (by omega))
    obtain ⟨g₂, hrest, h₂⟩ := ih (h₁.workqueues.trans hp) (i + 1) fun j hij hj =>
      (h₁.threadAt p j).trans (ht j (by omega) (by omega))
    refine ⟨g₂, by rw [stopLoop, hstop, Option.bind_some, hrest], ?_⟩
    rw [List.range'_succ]
    exact h₁.trans h₂

theorem freeWorkqueues_spec {g : Globals φ π} {p : Nat} (hp : g.workqueues = some p)
    (hlive : (g.heap.block p).isSome) (hdead : ∀ q, q ≠ p → g.heap.block q = none) :
    ∃ heap, freeWorkqueues g = some { g with heap := heap } ∧ ∀ q, heap.block q = none := by
  obtain ⟨ws, hws⟩ := Option.isSome_iff_exists.mp hlive
  obtain ⟨heap, hfree, -, hself, hother⟩ := Heap.free_spec hws
  refine ⟨heap, by simp only [freeWorkqueues, hp, hfree, Option.map_some], fun q => ?_⟩
  by_cases hq : q = p
  · rw [hq, hself]
  · rw [hother q hq, hdead q hq]

/-- No element of an array that is not there can be stopped. -/
theorem stopLoop_of_dead {g : Globals φ π} (hdead : ∀ p, g.heap.block p = none) (i left : Nat) :
    stopLoop g i (left + 1) = none := by
  have hstop : stopAt g i = none := by
    rw [stopAt, Option.bind_eq_none_iff]
    intro p hp
    simp [stopWorkqueue, Heap.load_of_dead (hdead p)]
  rw [stopLoop, hstop, Option.bind_none]

end Pixelflut.Queues
