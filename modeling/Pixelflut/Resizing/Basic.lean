import Pixelflut.Queues.ResizeAll
import Pixelflut.Workqueue.Calls

/-!
# Resize jobs

`resize_cb` allocates a `struct resize_wq_priv` for each framebuffer and hands
it to the work queue of its node; the worker of that queue resizes. This is the
system of the main thread, which is in `resize_cb` or in `workqueue_deinit`,
and of all the workers. The queues are those of `Workqueue`, step by step, each
over the memory of its own list.

Of `fb_resize` a job knows the arguments and the result only, and the result is
part of the action: what the framebuffer comes to is left to `Framebuffer`.

A step is `none` when the thread is blocked or has nothing to do, or when it
would touch a block that is not allocated.
-/

namespace Pixelflut.Resizing

open Function (update)
open Lib.BlockHeap Lib.Transition Framebuffer
open Queues (Fn ResizeWqPriv)
open Workqueue hiding State Action step

/-- What does not change while the process runs: the number of queues, the list
`sdl->cb_private` of framebuffers, `fb->numa_node` for each of them, and the
memory of each queue before `llist_init`. -/
structure Setup where
  numWorkqueues : Nat
  fbList : List Nat
  numaNode : Nat → UInt32
  garbage : Nat → EntryMem Fn Nat

/-- The private data of an entry is the address of its `resize_priv`. -/
abbrev Entry := WorkqueueEntry Fn Nat

abbrev QueueState := Workqueue.State (EntryMem Fn Nat) Entry

/-- Where the main thread is. -/
inductive MainPc where
  /-- In neither of the two functions. -/
  | idle
  /-- At the head of the loop of `resize_cb`, with these framebuffers to go. -/
  | loop (size : FbSize) (fbs : List Nat)
  /-- Before `workqueue_enqueue`, with `resize_priv` filled in. -/
  | filled (resizePriv fb : Nat) (size : FbSize) (fbs : List Nat)
  /-- In `workqueue_enqueue`, behind its `calloc`. -/
  | enqueuing (resizePriv fb : Nat) (size : FbSize) (fbs : List Nat)
  /-- Before `free(resize_priv)`, with an error from `workqueue_enqueue`. -/
  | refused (resizePriv : Nat)
  /-- In the loop of `workqueue_deinit`. -/
  | stopping (i : Nat)
  | ended
  deriving DecidableEq

/-- `doExit` is the variable of `main.c`. The last two fields are no variables
of the program: the structures that `resize_cb` has filled in, by address, and
the calls of `fb_resize` that each worker has made, with their results. -/
structure State where
  queue : Nat → QueueState
  privs : Heap ResizeWqPriv
  doExit : Bool
  main : MainPc
  requests : List ResizeWqPriv
  calls : Nat → List (ResizeWqPriv × Int)

inductive Action where
  /-- The main thread calls `resize_cb`. -/
  | resize (width height : UInt32)
  /-- The main thread calls `workqueue_deinit`. -/
  | deinit
  /-- The main thread goes on; the answers of its next `malloc` and `calloc`. -/
  | main (mallocOk callocOk : Bool)
  /-- The worker of a queue goes on; the result of its next `fb_resize`. -/
  | worker (i : Nat) (result : Int)

/-! ## The functions of `main.c` -/

/-- `resize_wq_cb`: the arguments of its `fb_resize`. -/
def resizeWqCb (privs : Heap ResizeWqPriv) (priv : Nat) : Option ResizeWqPriv := privs.load priv 0

/-- `resize_wq_err`: `do_exit` and what it returns. -/
def resizeWqErr (err : Int) : Bool × Int := (true, err)

def resizeWqCleanup (privs : Heap ResizeWqPriv) (priv : Nat) : Option (Heap ResizeWqPriv) :=
  privs.free priv

/-! ## Steps -/

/-- The calls of `cleanup` among some events. -/
def runCleanups (privs : Heap ResizeWqPriv) (evs : List (Event Entry)) :
    Option (Heap ResizeWqPriv) :=
  (cleaned evs).foldlM (fun privs e => resizeWqCleanup privs e.priv) privs

/-- Queue `i` takes a step to `q`; the cleanups that it calls are run. -/
def putQueue (c : State) (i : Nat) (q : QueueState) : Option State :=
  (runCleanups c.privs (q.trace.drop (c.queue i).trace.length)).map fun privs =>
    { c with queue := update c.queue i q, privs := privs }

/-- The worker of queue `i`. -/
def workerStep (M : Setup) (c : State) (i : Nat) (result : Int) : Option State :=
  let L := memOps (M.garbage i)
  match (c.queue i).worker with
  | .running entry => do
    let resizePriv ← resizeWqCb c.privs entry.priv
    let q ← workThread L (c.queue i) result
    putQueue { c with calls := update c.calls i (c.calls i ++ [(resizePriv, result)]) } i q
  | .handler _ err => do
    let (doExit, result) := resizeWqErr err
    let q ← workThread L (c.queue i) result
    putQueue { c with doExit := doExit } i q
  | _ => do
    let q ← workThread L (c.queue i) 0
    putQueue c i q

/-- The arguments of `workqueue_enqueue`. -/
def request (resizePriv : Nat) (callocOk : Bool) : Request Fn Nat :=
  ⟨resizePriv, .resizeWqCb, some .resizeWqErr, some .resizeWqCleanup, callocOk⟩

/-- The queue that a framebuffer's jobs go to. -/
def Setup.node (M : Setup) (fb : Nat) : Nat := (M.numaNode fb).toNat

/-- A step of `workqueue_enqueue` in the main thread. -/
def enqueueStep (M : Setup) (c : State) (resizePriv fb : Nat) (callocOk : Bool) : Option State := do
  let q ← workqueueEnqueue (memOps (M.garbage (M.node fb))) (c.queue (M.node fb)) 0
    (request resizePriv callocOk)
  putQueue c (M.node fb) q

def mainStep (M : Setup) (c : State) (mallocOk callocOk : Bool) : Option State :=
  match c.main with
  | .idle => none
  | .loop _ [] => some { c with main := .idle }
  | .loop size (fb :: fbs) =>
    if mallocOk then
      let resizePriv : ResizeWqPriv := ⟨fb, size⟩
      some { c with
        privs := c.privs.alloc [resizePriv]
        requests := c.requests ++ [resizePriv]
        main := .filled c.privs.fresh fb size fbs }
    else some { c with main := .idle }
  | .filled resizePriv fb size fbs =>
    -- `workqueue_enqueue` refuses with `-EINVAL` or `-ENOMEM`
    if M.node fb ≥ M.numWorkqueues then some { c with main := .refused resizePriv }
    else if !callocOk then some { c with main := .refused resizePriv }
    else enqueueStep M { c with main := .enqueuing resizePriv fb size fbs } resizePriv fb true
  | .enqueuing resizePriv fb size fbs =>
    (enqueueStep M c resizePriv fb callocOk).map fun c =>
      match (c.queue (M.node fb)).enqueuer 0 with
      | .idle => { c with main := .loop size fbs }
      | _ => c
  | .refused resizePriv =>
    (c.privs.free resizePriv).map fun privs => { c with privs := privs, main := .idle }
  | .stopping i =>
    if i < M.numWorkqueues then
      match (c.queue i).stopper with
      | .done => some { c with main := .stopping (i + 1) }
      | _ => do
        let q ← stopWorkqueue (memOps (M.garbage i)) (c.queue i)
        putQueue c i q
    else some { c with main := .ended }
  | .ended => none

def step (M : Setup) (c : State) : Action → Option State
  | .resize width height =>
    if c.main = .idle then some { c with main := .loop ⟨width, height⟩ M.fbList } else none
  | .deinit => if c.main = .idle then some { c with main := .stopping 0 } else none
  | .main mallocOk callocOk => mainStep M c mallocOk callocOk
  | .worker i result => if i < M.numWorkqueues then workerStep M c i result else none

/-- The queues right behind `workqueue_init`. -/
def initState (M : Setup) : State where
  queue i := Workqueue.initState (memOps (M.garbage i))
  privs := ⟨[]⟩
  doExit := false
  main := .idle
  requests := []
  calls _ := []

def jobs (M : Setup) : System State Action where
  init := initState M
  step := step M

end Pixelflut.Resizing
