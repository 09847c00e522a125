import Mathlib.Logic.Function.Basic
import Pixelflut.Lib.Transition
import Pixelflut.LList.Basic

/-!
# The work queue of `workqueue.c`

One queue with its worker, any number of threads that call
`workqueue_enqueue` on it, and one thread that calls `stop_workqueue`. A step
of a thread is what it does between two points where others may see a
difference: taking or giving back the lock, parking and waking, a broadcast, a
callback, an iteration of the drain loop.

The list of entries is reached through `ListOps` only. `queue` is the system
over the memory of `llist.c`; `specQueue` is the same code over plain lists.

`φ` is the type of the function pointers, `π` that of the private data. What a
callback or an error handler returns is part of the action. A step is `none`
when the thread is blocked or finished. `trace` is no variable of the program:
it records what has happened.
-/

namespace Pixelflut.Workqueue

open Function (update)

/-- A `struct workqueue_entry`. Its fields do not change after it has been
filled in; `id` is the address of its block, which no other block ever gets. -/
structure WorkqueueEntry (φ π : Type) where
  id : Nat
  cb : φ
  err : Option φ
  cleanup : Option φ
  priv : π
  deriving DecidableEq

/-- The functions of `llist.c` on the list of the queue. -/
structure ListOps (σ ε : Type) where
  llistInit : σ
  /-- The zeroed list entry of a fresh block. -/
  llistEntryInit : σ → ε → σ
  llistIsEmpty : σ → Bool
  /-- `llist_get_entry(&entries, 0)`. -/
  llistGetEntry : σ → Option ε
  llistRemove : σ → ε → Option σ
  llistAppend : σ → ε → Option σ

/-- The list in memory. -/
def memOps {ε : Type} [DecidableEq ε] (garbage : LList.Mem ε Unit) :
    ListOps (LList.Mem ε Unit) ε where
  llistInit := LList.llistInit garbage ()
  llistEntryInit := LList.llistEntryInit
  llistIsEmpty m := LList.llistIsEmpty m ()
  llistGetEntry m := (LList.llistGetEntry m 1 () 0).join
  llistRemove := LList.llistRemove
  llistAppend m e := LList.llistAppend m () e

/-- The list as a sequence. -/
def seqOps {ε : Type} [DecidableEq ε] : ListOps (List ε) ε where
  llistInit := []
  llistEntryInit l _ := l
  llistIsEmpty := List.isEmpty
  llistGetEntry := List.head?
  llistRemove l e := some (l.erase e)
  llistAppend l e := some (l ++ [e])

/-! ## States -/

inductive Thread where
  | worker
  | enqueuer (t : Nat)
  deriving DecidableEq

/-- Where `work_thread` is. -/
inductive WorkerPc (ε : Type) where
  /-- Before the lock. -/
  | start
  /-- Before the test of `do_exit` in the outer loop. -/
  | test
  /-- Before `pthread_cond_wait`. -/
  | wait
  /-- In `pthread_cond_wait`, without a signal. -/
  | parked
  /-- In `pthread_cond_wait`, signalled, without the lock. -/
  | woken
  /-- Before the test of the inner loop. -/
  | loop
  /-- In the callback of the entry. -/
  | running (entry : ε)
  /-- In the error handler of the entry. -/
  | handler (entry : ε) (err : Int)
  /-- At the label `next`. -/
  | next (entry : ε)
  /-- Before the `pthread_mutex_unlock` of the failure path. -/
  | failing (entry : ε)
  /-- Before the `free` of the failure path. -/
  | unlocked (entry : ε)
  | returned

/-- Where `stop_workqueue` is. -/
inductive StopperPc where
  | idle
  /-- Before the broadcast. -/
  | stored
  /-- In `pthread_join`. -/
  | joining
  | draining
  | done
  deriving DecidableEq

/-- Where a thread is in `workqueue_enqueue`. -/
inductive EnqueuerPc (ε : Type) where
  | idle
  /-- Before the lock, with its entry filled in. -/
  | ready (entry : ε)
  | locked (entry : ε)
  | appended (entry : ε)
  /-- Before the broadcast. -/
  | unlocked (entry : ε)

inductive Event (ε : Type) where
  | append (entry : ε)
  /-- Removed by the worker. -/
  | remove (entry : ε)
  | cbStart (entry : ε)
  | cbEnd (entry : ε) (result : Int)
  | errEnd (entry : ε) (result : Int)
  | cleanup (entry : ε) (err : Int)
  | free (entry : ε)
  /-- Removed by `stop_workqueue`. -/
  | drain (entry : ε)
  | park
  deriving DecidableEq

structure State (σ ε : Type) where
  entries : σ
  doExit : Bool
  lock : Option Thread
  worker : WorkerPc ε
  stopper : StopperPc
  enqueuer : Nat → EnqueuerPc ε
  nextId : Nat
  numWorkqueueItems : Int
  trace : List (Event ε)

/-- The arguments of a `workqueue_enqueue` on this queue, and the answer of
its `calloc`. -/
structure Request (φ π : Type) where
  priv : π
  cb : φ
  err : Option φ
  cleanup : Option φ
  callocOk : Bool

inductive Action (φ π : Type) where
  /-- `result` is what the callback or handler returns that is running. -/
  | worker (result : Int)
  | enqueuer (t : Nat) (req : Request φ π)
  | stopper

/-! ## Steps -/

variable {σ φ π : Type}

/-- A broadcast moves the worker when it is parked; nobody else ever waits. -/
def WorkerPc.wake {ε : Type} : WorkerPc ε → WorkerPc ε
  | .parked => .woken
  | pc => pc

/-- `pthread_cond_broadcast(&wqueue->cond)`. -/
def broadcast {ε : Type} (s : State σ ε) : State σ ε := { s with worker := s.worker.wake }

/-- `if(entry->cleanup) entry->cleanup(err, entry->priv);`. -/
def cleanupEvents (entry : WorkqueueEntry φ π) (err : Int) : List (Event (WorkqueueEntry φ π)) :=
  if entry.cleanup.isSome then [.cleanup entry err] else []

def workThread (L : ListOps σ (WorkqueueEntry φ π)) (s : State σ (WorkqueueEntry φ π))
    (result : Int) : Option (State σ (WorkqueueEntry φ π)) :=
  match s.worker with
  | .start =>
    if s.lock = none then some { s with lock := some .worker, worker := .test } else none
  | .test =>
    -- the function returns with the lock
    if s.doExit then some { s with worker := .returned } else some { s with worker := .wait }
  | .wait => some { s with lock := none, worker := .parked, trace := s.trace ++ [.park] }
  | .parked => none
  | .woken =>
    if s.lock = none then some { s with lock := some .worker, worker := .loop } else none
  | .loop =>
    if L.llistIsEmpty s.entries || s.doExit then some { s with worker := .test }
    else do
      let entry ← L.llistGetEntry s.entries
      let entries ← L.llistRemove s.entries entry
      some { s with
        entries := entries
        worker := .running entry
        numWorkqueueItems := s.numWorkqueueItems - 1
        trace := s.trace ++ [.remove entry, .cbStart entry] }
  | .running entry =>
    if result = 0 then
      some { s with worker := .next entry, trace := s.trace ++ [.cbEnd entry result] }
    else if entry.err.isNone then
      some { s with
        worker := .next entry
        trace := s.trace ++ .cbEnd entry result :: cleanupEvents entry result }
    else some { s with worker := .handler entry result, trace := s.trace ++ [.cbEnd entry result] }
  | .handler entry err =>
    if result = 0 then
      some { s with worker := .next entry, trace := s.trace ++ [.errEnd entry result] }
    else some { s with
      worker := .failing entry
      trace := s.trace ++ .errEnd entry result :: cleanupEvents entry err }
  | .next entry => some { s with worker := .loop, trace := s.trace ++ [.free entry] }
  | .failing entry => some { s with lock := none, worker := .unlocked entry }
  | .unlocked entry => some { s with worker := .returned, trace := s.trace ++ [.free entry] }
  | .returned => none

def workqueueEnqueue (L : ListOps σ (WorkqueueEntry φ π)) (s : State σ (WorkqueueEntry φ π))
    (t : Nat) (req : Request φ π) : Option (State σ (WorkqueueEntry φ π)) :=
  match s.enqueuer t with
  | .idle =>
    if req.callocOk then
      let entry := ⟨s.nextId, req.cb, req.err, req.cleanup, req.priv⟩
      some { s with
        entries := L.llistEntryInit s.entries entry
        enqueuer := update s.enqueuer t (.ready entry)
        nextId := s.nextId + 1 }
    else some s
  | .ready entry =>
    if s.lock = none then
      some { s with
        lock := some (.enqueuer t)
        enqueuer := update s.enqueuer t (.locked entry) }
    else none
  | .locked entry => do
    let entries ← L.llistAppend s.entries entry
    some { s with
      entries := entries
      enqueuer := update s.enqueuer t (.appended entry)
      numWorkqueueItems := s.numWorkqueueItems + 1
      trace := s.trace ++ [.append entry] }
  | .appended entry =>
    some { s with lock := none, enqueuer := update s.enqueuer t (.unlocked entry) }
  | .unlocked _ => some (broadcast { s with enqueuer := update s.enqueuer t .idle })

def stopWorkqueue (L : ListOps σ (WorkqueueEntry φ π)) (s : State σ (WorkqueueEntry φ π)) :
    Option (State σ (WorkqueueEntry φ π)) :=
  match s.stopper with
  | .idle => some { s with doExit := true, stopper := .stored }
  | .stored => some (broadcast { s with stopper := .joining })
  | .joining =>
    match s.worker with
    | .returned => some { s with stopper := .draining }
    | _ => none
  | .draining =>
    if L.llistIsEmpty s.entries then some { s with stopper := .done }
    else do
      let entry ← L.llistGetEntry s.entries
      let entries ← L.llistRemove s.entries entry
      some { s with
        entries := entries
        trace := s.trace ++ .drain entry :: cleanupEvents entry 0 ++ [.free entry] }
  | .done => none

def step (L : ListOps σ (WorkqueueEntry φ π)) (s : State σ (WorkqueueEntry φ π)) :
    Action φ π → Option (State σ (WorkqueueEntry φ π))
  | .worker result => workThread L s result
  | .enqueuer t req => workqueueEnqueue L s t req
  | .stopper => stopWorkqueue L s

/-- The queue right behind the `pthread_create` of `workqueue_init`. -/
def initState (L : ListOps σ (WorkqueueEntry φ π)) : State σ (WorkqueueEntry φ π) where
  entries := L.llistInit
  doExit := false
  lock := none
  worker := .start
  stopper := .idle
  enqueuer := fun _ => .idle
  nextId := 0
  numWorkqueueItems := 0
  trace := []

open Lib.Transition

variable [DecidableEq φ] [DecidableEq π]

/-- The entry lists in memory; `garbage` is the memory before `llist_init`. -/
abbrev EntryMem (φ π : Type) := LList.Mem (WorkqueueEntry φ π) Unit

/-- The queue over the memory of `llist.c`. -/
def queue (garbage : EntryMem φ π) :
    System (State (EntryMem φ π) (WorkqueueEntry φ π)) (Action φ π) where
  init := initState (memOps garbage)
  step := step (memOps garbage)

/-- The queue over sequences. -/
def specQueue (φ π : Type) [DecidableEq φ] [DecidableEq π] :
    System (State (List (WorkqueueEntry φ π)) (WorkqueueEntry φ π)) (Action φ π) where
  init := initState seqOps
  step := step seqOps

end Pixelflut.Workqueue
