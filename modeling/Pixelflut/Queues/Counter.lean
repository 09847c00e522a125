import Mathlib.Algebra.BigOperators.Group.List.Basic
import Mathlib.Data.List.InsertIdx
import Pixelflut.Queues.Basic
import Pixelflut.Workqueue.Fifo

/-!
# The counter of pending items

All queues of the process together, from `workqueue_init` to `workqueue_deinit`
and over again. Each queue is a queue of `Workqueue`, with its list in memory;
its own count of changes is what its threads have to add to
`num_workqueue_items`, which they do in a second step. A thread that has changed
a list and not yet the counter owes the difference, and takes no other step.
An access to a queue that is not there is `none`.

* `Move.length_eq`: what a step of one queue adds to its list and to its count
  is the same, but for a drain;
* `gap_step`: what the counter is too high by never falls, and rises when
  entries are drained or freed with their array;
* `counter_exact_iff`: so the counter is exact in the runs without such a step.
-/

namespace Pixelflut.Queues.Counter

open Lib.Transition Workqueue

variable {σ φ π : Type}

/-! ## The process -/

/-- Where the thread is that calls `workqueue_init` and `workqueue_deinit`. -/
inductive Control where
  /-- There is no array. -/
  | down
  /-- `num_workqueues` is `n`; `workqueue_init` has returned when all are there. -/
  | running (n : Nat)
  /-- `stop_workqueue` for these queues, and then the `free` of the array. -/
  | stopping (queues : List Nat)
  deriving DecidableEq

/-- A change of the counter that is still to be made. -/
structure Debt where
  queue : Nat
  /-- `none` is the thread of `stop_workqueue`. -/
  thread : Option Thread
  amount : Int

structure State (φ π : Type) where
  control : Control
  /-- The queues of the array that have been started. -/
  queues : List (MemState φ π)
  numWorkqueueItems : Int
  owed : List Debt

inductive Action (φ π : Type) where
  | init (T : Topology) (callocOk : Bool)
  /-- The next queue of `workqueue_init`, with the answer of `pthread_create`. -/
  | create (ok : Bool)
  | worker (i : Nat) (result : Int)
  | enqueuer (i t : Nat) (req : Request φ π)
  | deinit
  /-- The next step of a `stop_workqueue`, or the `free` behind the last one. -/
  | stop
  /-- The change of the counter that is the `k`-th in `owed`. -/
  | count (k : Nat)

variable [DecidableEq φ] [DecidableEq π]

/-- A step of a thread in the queue `i`. -/
def queueStep (garbage : EntryMem φ π) (s : State φ π) (i : Nat) (thread : Option Thread)
    (x : Workqueue.Action φ π) : Option (State φ π) :=
  if s.owed.any fun d => d.queue = i ∧ d.thread = thread then none
  else do
    let q ← s.queues[i]?
    let q' ← (queue garbage).step q x
    let amount := q'.numWorkqueueItems - q.numWorkqueueItems
    some { s with
      queues := s.queues.set i q'
      owed := if amount = 0 then s.owed else s.owed ++ [⟨i, thread, amount⟩] }

/-- A step of `stop_workqueue(&workqueues[i])`, with the queues `rest` to go. -/
def stopStep (garbage : EntryMem φ π) (s : State φ π) (i : Nat) (rest : List Nat) :
    Option (State φ π) := do
  let s' ← queueStep garbage s i none .stopper
  let q ← s'.queues[i]?
  some (if q.stopper = .done then { s' with control := .stopping rest } else s')

def step (garbage : EntryMem φ π) (s : State φ π) : Action φ π → Option (State φ π)
  | .init T callocOk =>
    match s.control with
    | .down => some (if callocOk then { s with control := .running T.numWorkqueues } else s)
    | _ => none
  | .create ok =>
    match s.control with
    | .running n =>
      if s.queues.length < n then
        some (if ok then { s with queues := s.queues ++ [(queue garbage).init] }
          -- `fail_threads`, the last queue first
          else { s with control := .stopping (List.range s.queues.length).reverse })
      else none
    | _ => none
  | .worker i result => queueStep garbage s i (some .worker) (.worker result)
  | .enqueuer i t req => queueStep garbage s i (some (.enqueuer t)) (.enqueuer t req)
  | .deinit =>
    match s.control with
    | .running n =>
      if s.queues.length = n then some { s with control := .stopping (List.range n) } else none
    | _ => none
  | .stop =>
    match s.control with
    | .stopping (i :: rest) => stopStep garbage s i rest
    | .stopping [] => some { s with control := .down, queues := [] }
    | _ => none
  | .count k =>
    match s.owed[k]? with
    | some d =>
      some { s with
        numWorkqueueItems := s.numWorkqueueItems + d.amount
        owed := s.owed.eraseIdx k }
    | none => none

/-- The process, from its start on; each list is initialised in `garbage`. -/
def process (garbage : EntryMem φ π) : System (State φ π) (Action φ π) where
  init := ⟨.down, [], 0, []⟩
  step := step garbage

/-- What `llist_length` says about the list of a queue. It has no more entries
than have been allocated. -/
def items (q : MemState φ π) : Nat := (LList.llistLength q.entries q.nextId ()).getD 0

/-- The entries on all lists. -/
def total (s : State φ π) : Nat := (s.queues.map items).sum

/-- The next step of `stop_workqueue` drains an entry. -/
def drains (L : ListOps σ (WorkqueueEntry φ π)) (q : Workqueue.State σ (WorkqueueEntry φ π)) : Bool :=
  q.stopper = .draining && !L.llistIsEmpty q.entries

/-- No entry is drained, or on a list when the array is freed. -/
def okDrain (garbage : EntryMem φ π) (s : State φ π) : Action φ π → Bool
  | .stop =>
    match s.control with
    | .stopping (i :: _) => (s.queues[i]?).all fun q => !drains (memOps garbage) q
    | .stopping [] => s.queues.all fun q => (memOps garbage).llistIsEmpty q.entries
    | _ => true
  | _ => true

/-! ## One queue -/

omit [DecidableEq φ] [DecidableEq π] in
/-- What a step takes off its list without counting it. -/
def uncounted (L : ListOps σ (WorkqueueEntry φ π)) (q : Workqueue.State σ (WorkqueueEntry φ π)) :
    Workqueue.Action φ π → Nat
  | .stopper => if drains L q then 1 else 0
  | _ => 0

theorem move_length {a a' : SpecState φ π} {x : Workqueue.Action φ π} (hm : Move a x a') :
    (a'.entries.length : Int) + uncounted seqOps a x =
      a.entries.length + (a'.numWorkqueueItems - a.numWorkqueueItems) := by
  cases hm
  case take r e rest hw he hx =>
    simp only [uncounted, he, List.length_cons]
    omega
  case append t req e ht =>
    simp only [uncounted, List.length_append, List.length_singleton]
    omega
  case drain e rest hp he =>
    simp [uncounted, drains, hp, he, seqOps]
  case finish hp he => simp [uncounted, drains, he, seqOps]
  all_goals simp [uncounted, drains, *]

/-- No list has more entries than have been allocated. -/
theorem length_le_nextId {a : SpecState φ π} (ha : (specQueue φ π).Reachable a) :
    a.entries.length ≤ a.nextId := by
  have hfresh := fresh_of_reachable ha
  have hconserve := (ledger_of_reachable ha).conserve
  have hids : appendedIds a.trace =
      (removed a.trace ++ drained a.trace).map WorkqueueEntry.id ++
        a.entries.map WorkqueueEntry.id := by
    rw [appendedIds, ← hconserve, List.map_append]
  have hnodup : (a.entries.map WorkqueueEntry.id).Nodup := by
    have hall := hfresh.nodup
    rw [hids] at hall
    exact (List.nodup_append.mp hall).2.1
  have hsub : a.entries.map WorkqueueEntry.id ⊆ List.range a.nextId := by
    intro i hi
    rw [List.mem_range]
    exact hfresh.old i (hids ▸ List.mem_append_right _ hi)
  have hle := (List.subperm_of_subset hnodup hsub).length_le
  rwa [List.length_map, List.length_range] at hle

theorem items_eq {q : MemState φ π} {l : List (WorkqueueEntry φ π)}
    (ha : (specQueue φ π).Reachable (q.over l)) {Es : Set (WorkqueueEntry φ π)}
    (hholds : Holds Es q.entries l) : items q = l.length := by
  have hle : l.length ≤ q.nextId := length_le_nextId ha
  rw [items, LList.Represents.llistLength_eq hholds (Set.mem_univ ()) hle, Option.getD_some]

/-- A list without entries is empty. -/
theorem items_eq_zero (garbage : EntryMem φ π) {q : MemState φ π}
    (hq : (queue garbage).Reachable q) :
    items q = 0 ↔ (memOps garbage).llistIsEmpty q.entries = true := by
  obtain ⟨l, Es, ha, hholds⟩ := exists_over_of_reachable garbage hq
  rw [items_eq ha hholds, hholds.llistIsEmpty_eq garbage, List.length_eq_zero_iff,
    List.isEmpty_iff]

/-- **One step of one queue.** -/
theorem items_step (garbage : EntryMem φ π) {q q' : MemState φ π} {x : Workqueue.Action φ π}
    (hq : (queue garbage).Reachable q) (hx : (queue garbage).step q x = some q') :
    (items q' : Int) + uncounted (memOps garbage) q x =
      items q + (q'.numWorkqueueItems - q.numWorkqueueItems) := by
  obtain ⟨l, l', ha, hstep, ⟨Es, hholds⟩, Es', hholds'⟩ := exists_step_over garbage hq hx
  have ha' : (specQueue φ π).Reachable (q'.over l') := .step ha trivial hstep
  have hdrains : drains (memOps garbage) q = drains seqOps (q.over l) := by
    rw [drains, hholds.llistIsEmpty_eq garbage]
    rfl
  have huncounted : uncounted (memOps garbage) q x = uncounted seqOps (q.over l) x := by
    cases x with
    | stopper => simp only [uncounted, hdrains]
    | _ => rfl
  rw [items_eq ha hholds, items_eq ha' hholds', huncounted]
  exact move_length (move_of_step hstep)

/-! ## All queues -/

/-- What the counter is too high by, when all debts are paid. -/
def gap (s : State φ π) : Int := s.numWorkqueueItems + (s.owed.map Debt.amount).sum - total s

structure Inv (garbage : EntryMem φ π) (s : State φ π) : Prop where
  reachable : ∀ q ∈ s.queues, (queue garbage).Reachable q
  nonneg : 0 ≤ gap s
  down : s.control = .down → s.queues = []

theorem sum_set {l : List Nat} {i a : Nat} (h : l[i]? = some a) (b : Nat) :
    (l.set i b).sum + a = l.sum + b := by
  obtain ⟨hi, rfl⟩ := List.getElem?_eq_some_iff.mp h
  have hnew := List.sum_set l i b
  have hold := List.sum_set l i l[i]
  rw [List.set_getElem_self] at hold
  rw [if_pos hi] at hold hnew
  omega

theorem sum_eraseIdx {owed : List Debt} {k : Nat} {d : Debt} (h : owed[k]? = some d) :
    d.amount + ((owed.eraseIdx k).map Debt.amount).sum = (owed.map Debt.amount).sum := by
  obtain ⟨hk, rfl⟩ := List.getElem?_eq_some_iff.mp h
  have hsum := List.add_sum_eraseIdx (l := owed.map Debt.amount) (i := k) (by simpa using hk)
    fun _ _ => AddCommute.all _ _
  rwa [List.getElem_map, List.eraseIdx_map] at hsum

/-- **A step in a queue.** Nothing but a drain opens the gap. -/
theorem queueStep_gap {garbage : EntryMem φ π} {s s' : State φ π} {i : Nat}
    {thread : Option Thread} {x : Workqueue.Action φ π} (h : Inv garbage s)
    (hstep : queueStep garbage s i thread x = some s') :
    ∃ q, s.queues[i]? = some q ∧ gap s' = gap s + uncounted (memOps garbage) q x ∧
      s'.control = s.control ∧ ∀ q ∈ s'.queues, (queue garbage).Reachable q := by
  rw [queueStep, Option.ite_none_left_eq_some] at hstep
  obtain ⟨-, hstep⟩ := hstep
  obtain ⟨q, hq, hstep⟩ := Option.bind_eq_some_iff.mp hstep
  obtain ⟨q', hq', hstep⟩ := Option.bind_eq_some_iff.mp hstep
  cases hstep
  have hreach := h.reachable q (List.mem_of_getElem? hq)
  have hitems := items_step garbage hreach hq'
  have htotal : ((s.queues.set i q').map items).sum + items q =
      (s.queues.map items).sum + items q' := by
    rw [List.map_set]
    exact sum_set (by rw [List.getElem?_map, hq, Option.map_some]) (items q')
  have howed : ((if q'.numWorkqueueItems - q.numWorkqueueItems = 0 then s.owed
        else s.owed ++ [⟨i, thread, q'.numWorkqueueItems - q.numWorkqueueItems⟩]).map
          Debt.amount).sum =
      (s.owed.map Debt.amount).sum + (q'.numWorkqueueItems - q.numWorkqueueItems) := by
    split
    · omega
    · simp
  refine ⟨q, hq, ?_, rfl, fun r hr => ?_⟩
  · simp only [gap, total, howed]
    omega
  · rcases List.mem_or_eq_of_mem_set hr with hold | rfl
    · exact h.reachable r hold
    · exact .step hreach trivial hq'

/-- What a step of the process takes off the lists without counting it. -/
def lost (garbage : EntryMem φ π) (s : State φ π) : Action φ π → Nat
  | .stop =>
    match s.control with
    | .stopping (i :: _) =>
      ((s.queues[i]?).map fun q => uncounted (memOps garbage) q .stopper).getD 0
    | .stopping [] => total s
    | _ => 0
  | _ => 0

theorem Inv.init (garbage : EntryMem φ π) : Inv garbage (process garbage).init where
  reachable _ hq := absurd hq List.not_mem_nil
  nonneg := Int.le_refl 0
  down _ := rfl

/-- There is an array where there is a queue. -/
theorem Inv.control_ne {garbage : EntryMem φ π} {s : State φ π} (h : Inv garbage s) {i : Nat}
    {q : MemState φ π} (hq : s.queues[i]? = some q) : s.control ≠ .down := by
  intro hdown
  rw [h.down hdown] at hq
  cases hq

/-- **One step of the process.** -/
theorem gap_step {garbage : EntryMem φ π} {s s' : State φ π} {a : Action φ π}
    (h : Inv garbage s) (hstep : step garbage s a = some s') :
    gap s' = gap s + lost garbage s a ∧ (∀ q ∈ s'.queues, (queue garbage).Reachable q) ∧
      (s'.control = .down → s'.queues = []) := by
  cases a with
  | init T callocOk =>
    cases hc : s.control with
    | down =>
      simp only [step, hc, Option.some.injEq] at hstep
      subst hstep
      cases callocOk with
      | false => exact ⟨by simp [lost], h.reachable, h.down⟩
      | true => exact ⟨by simp [lost, gap, total], h.reachable, nofun⟩
    | _ => simp [step, hc] at hstep
  | create ok =>
    cases hc : s.control with
    | running n =>
      simp only [step, hc, Option.ite_none_right_eq_some, Option.some.injEq] at hstep
      obtain ⟨-, rfl⟩ := hstep
      cases ok with
      | false => exact ⟨by simp [lost, gap, total], h.reachable, nofun⟩
      | true =>
        have hnew : items (queue garbage).init = 0 :=
          (items_eq_zero garbage .init).mpr ((holds_init garbage).llistIsEmpty_eq garbage)
        refine ⟨by simp [lost, gap, total, hnew], fun q hq => ?_, fun hdown => ?_⟩
        · rcases List.mem_append.mp hq with hold | hlast
          · exact h.reachable q hold
          · rw [List.mem_singleton.mp hlast]
            exact .init
        · simp only [↓reduceIte] at hdown
          cases hdown
    | _ => simp [step, hc] at hstep
  | worker i result =>
    obtain ⟨q, hq, hgap, hcontrol, hreach⟩ := queueStep_gap h hstep
    exact ⟨hgap, hreach, fun hdown => absurd (hcontrol ▸ hdown) (h.control_ne hq)⟩
  | enqueuer i t req =>
    obtain ⟨q, hq, hgap, hcontrol, hreach⟩ := queueStep_gap h hstep
    exact ⟨hgap, hreach, fun hdown => absurd (hcontrol ▸ hdown) (h.control_ne hq)⟩
  | deinit =>
    cases hc : s.control with
    | running n =>
      simp only [step, hc, Option.ite_none_right_eq_some, Option.some.injEq] at hstep
      obtain ⟨-, rfl⟩ := hstep
      exact ⟨by simp [lost, gap, total], h.reachable, nofun⟩
    | _ => simp [step, hc] at hstep
  | stop =>
    cases hc : s.control with
    | stopping queues =>
      cases queues with
      | nil =>
        simp only [step, hc, Option.some.injEq] at hstep
        subst hstep
        exact ⟨by simp [lost, hc, gap, total], fun q hq => absurd hq List.not_mem_nil, fun _ => rfl⟩
      | cons i rest =>
        simp only [step, hc] at hstep
        obtain ⟨s₁, hstop, hstep⟩ := Option.bind_eq_some_iff.mp hstep
        obtain ⟨q', -, hstep⟩ := Option.bind_eq_some_iff.mp hstep
        obtain ⟨q, hq, hgap, hcontrol, hreach⟩ := queueStep_gap h hstop
        have hlost : lost garbage s .stop = uncounted (memOps garbage) q .stopper := by
          simp only [lost, hc, hq, Option.map_some, Option.getD_some]
        rw [← hlost] at hgap
        rw [hc] at hcontrol
        split at hstep <;> cases hstep
        · exact ⟨hgap, hreach, nofun⟩
        · exact ⟨hgap, hreach, fun hdown => by rw [hcontrol] at hdown; cases hdown⟩
    | _ => simp [step, hc] at hstep
  | count k =>
    cases hk : s.owed[k]? with
    | none => simp [step, hk] at hstep
    | some d =>
      simp only [step, hk, Option.some.injEq] at hstep
      subst hstep
      have hsum := sum_eraseIdx hk
      refine ⟨?_, h.reachable, h.down⟩
      simp only [gap, total, lost]
      omega

theorem Inv.step {garbage : EntryMem φ π} {s s' : State φ π} {a : Action φ π}
    (h : Inv garbage s) (hstep : Counter.step garbage s a = some s') : Inv garbage s' := by
  obtain ⟨hgap, hreach, hdown⟩ := gap_step h hstep
  have hnonneg := h.nonneg
  exact ⟨hreach, by omega, hdown⟩

theorem inv_of_reachable {garbage : EntryMem φ π} {s : State φ π}
    (hs : (process garbage).Reachable s) : Inv garbage s :=
  hs.invariant (Inv.init garbage) fun _ _ _ _ h _ hstep => h.step hstep

/-- Nothing is lost in the steps that pass the test. -/
theorem lost_eq_zero_iff {garbage : EntryMem φ π} {s : State φ π} (h : Inv garbage s)
    (a : Action φ π) : lost garbage s a = 0 ↔ okDrain garbage s a = true := by
  cases a with
  | stop =>
    cases hc : s.control with
    | stopping queues =>
      cases queues with
      | nil =>
        simp only [lost, okDrain, hc, total, List.sum_eq_zero_iff_forall_eq_nat, List.forall_mem_map,
          List.all_eq_true]
        exact forall₂_congr fun _ hq => items_eq_zero garbage (h.reachable _ hq)
      | cons i rest =>
        simp only [lost, okDrain, hc]
        cases s.queues[i]? with
        | none => simp
        | some q => cases hd : drains (memOps garbage) q <;> simp [uncounted, hd]
    | _ => simp [lost, okDrain, hc]
  | _ => simp [lost, okDrain]

/-! ## Runs -/

/-- The counter is exact, and 0 when the queues are gone. -/
structure Exact (s : State φ π) : Prop where
  sum : s.numWorkqueueItems = total s
  down : s.control = .down → s.numWorkqueueItems = 0

/-- **The counter is exact unless entries are drained or freed with the array.**
For every run of the process that ends in a state where nobody is between a
change of a list and the change of the counter: the counter is the number of
entries on all lists, and 0 when the queues are gone, if and only if no step of
the run has drained an entry or freed the array with an entry on a list. -/
theorem counter_exact_iff (garbage : EntryMem φ π) {acts : List (Action φ π)} {s : State φ π}
    (hrun : (process garbage).run (process garbage).init acts = some s) (hsettled : s.owed = []) :
    Exact s ↔
      ((process garbage).restrict (okDrain garbage)).run (process garbage).init acts = some s := by
  have hinv := inv_of_reachable (System.reachable_of_run acts hrun)
  have hgap : Exact s ↔ gap s = 0 := by
    have hbooks : gap s = s.numWorkqueueItems - total s := by
      simp [gap, hsettled]
    rw [hbooks]
    constructor
    · intro hexact
      rw [hexact.sum]
      omega
    · intro hzero
      refine ⟨by omega, fun hdown => ?_⟩
      have htotal : total s = 0 := by
        rw [total, hinv.down hdown]
        rfl
      omega
  rw [hgap]
  refine System.run_restrict_iff (Q := fun s : State φ π => gap s = 0) rfl ?_ hrun
  intro s a s' hs hstep
  have h := inv_of_reachable hs
  obtain ⟨hstepGap, -⟩ := gap_step h hstep
  have hnonneg := h.nonneg
  rw [← lost_eq_zero_iff h]
  omega

/-- One queue, whose worker is parked when a thread appends a job. -/
def appendOne : List (Action Unit Unit) :=
  [.init ⟨0, 0, by decide⟩ true, .create true] ++ List.replicate 3 (.worker 0 0) ++
    List.replicate 3 (.enqueuer 0 0 job) ++ [.count 0, .enqueuer 0 0 job]

/-- The worker is woken, runs the job and parks again; then the queue is stopped. -/
def runOne : List (Action Unit Unit) :=
  appendOne ++ [.enqueuer 0 0 job, .worker 0 0, .worker 0 0, .count 0] ++
    List.replicate 5 (.worker 0 0) ++ [.deinit, .stop, .stop] ++ List.replicate 3 (.worker 0 0) ++
    List.replicate 3 .stop

/-- The queue is stopped before the worker is woken. -/
def drainOne : List (Action Unit Unit) :=
  appendOne ++ [.deinit, .stop, .stop] ++ List.replicate 3 (.worker 0 0) ++ List.replicate 4 .stop

theorem counter_exact_iff_runOne :
    ∃ s, (process zeroMem).run (process zeroMem).init runOne = some s ∧ s.control = .down ∧
      Exact s := by
  have hend : (((process zeroMem).restrict (okDrain zeroMem)).run (process zeroMem).init runOne).map
      (fun s => (s.control, s.owed.length)) = some (.down, 0) := by decide
  obtain ⟨s, hok, heq⟩ := Option.map_eq_some_iff.mp hend
  obtain ⟨hcontrol, howed⟩ := Prod.mk.inj heq
  have hrun := System.run_of_restrict runOne hok
  exact ⟨s, hrun, hcontrol,
    (counter_exact_iff zeroMem hrun (List.length_eq_zero_iff.mp howed)).mpr hok⟩

/-- `stop_workqueue` drains one entry, and the counter is 1 with the queues gone. -/
theorem drained_entry_counted :
    ∃ s, (process zeroMem).run (process zeroMem).init drainOne = some s ∧ s.owed = [] ∧
      s.control = .down ∧ s.numWorkqueueItems = 1 ∧ ¬Exact s := by
  have hend : ((process zeroMem).run (process zeroMem).init drainOne).map
      (fun s => (s.control, s.owed.length, s.numWorkqueueItems)) = some (.down, 0, 1) := by decide
  obtain ⟨s, hrun, heq⟩ := Option.map_eq_some_iff.mp hend
  obtain ⟨hcontrol, heq⟩ := Prod.mk.inj heq
  obtain ⟨howed, hcounter⟩ := Prod.mk.inj heq
  refine ⟨s, hrun, List.length_eq_zero_iff.mp howed, hcontrol, hcounter, fun hexact => ?_⟩
  have hzero := hexact.down hcontrol
  omega

end Pixelflut.Queues.Counter
