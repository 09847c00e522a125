import Pixelflut.Lib.Ranking
import Pixelflut.Workqueue.Unlock
import Pixelflut.Workqueue.Wakeup

/-!
# `stop_workqueue` comes to an end

`do_exit` is never cleared again, and the worker looks at it before every entry
that it takes off the list.

* `worker_stops`: once the flag is set the worker takes five steps of its own
  at most, whatever the other threads do, and starts no callback;
* `stop_terminates`: when nobody calls `workqueue_enqueue`, every run of the
  worker and of `stop_workqueue` is finite, and it stops only where
  `stop_workqueue` has returned and every entry ever appended has been freed,
  once and in order, those still on the list without their callback.

In the second result the broadcast of `stop_workqueue` does not fall between the
test of `do_exit` and the park, where it is lost (`okStop`).
-/

namespace Pixelflut.Workqueue

open Function (update)
open Lib.Transition

variable {σ ε φ π : Type}

/-! ## Ranks -/

/-- The steps that the worker has left to take when `do_exit` is set. -/
def WorkerPc.rank : WorkerPc ε → Nat
  | .running _ => 5
  | .wait | .handler _ _ => 4
  | .parked | .woken | .next _ => 3
  | .start | .loop | .failing _ => 2
  | .test | .unlocked _ => 1
  | .returned => 0

/-- The steps that `stop_workqueue` has left to take, but for the entries that it drains. -/
def StopperPc.rank : StopperPc → Nat
  | .idle => 4
  | .stored => 3
  | .joining => 2
  | .draining => 1
  | .done => 0

def Action.isWorker : Action φ π → Bool
  | .worker _ => true
  | _ => false

theorem WorkerPc.rank_le (pc : WorkerPc ε) : pc.rank ≤ 5 := by
  cases pc <;> simp [rank]

theorem WorkerPc.rank_wake (pc : WorkerPc ε) : pc.wake.rank = pc.rank := by
  cases pc <;> rfl

/-! ## The worker -/

/-- The flag is set, and the callbacks started are `es`. -/
structure Stopping (es : List (WorkqueueEntry φ π)) (s : SpecState φ π) : Prop where
  exit : s.doExit = true
  started : started s.trace = es

/-- With the flag set the worker comes closer to its end, and takes nothing. -/
theorem Stopping.move {es : List (WorkqueueEntry φ π)} {s s' : SpecState φ π} {a : Action φ π}
    (h : Stopping es s) (hm : Move s a s') :
    Stopping es s' ∧ s'.worker.rank + (if a.isWorker then 1 else 0) ≤ s.worker.rank := by
  have hstarted := h.started
  have hx := h.exit
  cases hm
  case stay r hw hx' => cases hx.symm.trans hx'
  case take r e rest hw he hx' => cases hx.symm.trans hx'
  case failAlone r e hw hr hn =>
    refine ⟨⟨hx, ?_⟩, by simp [hw, WorkerPc.rank, Action.isWorker]⟩
    rw [started_append, (accounts_cons_cleanup _ _ _).2.2.1]
    simpa [Workqueue.started] using hstarted
  case giveUp r e err hw hr =>
    refine ⟨⟨hx, ?_⟩, by simp [hw, WorkerPc.rank, Action.isWorker]⟩
    rw [started_append, (accounts_cons_cleanup _ _ _).2.2.1]
    simpa [Workqueue.started] using hstarted
  case drain e rest hp he =>
    refine ⟨⟨hx, ?_⟩, by simp [Action.isWorker]⟩
    rw [started_append, started_append, (accounts_cons_cleanup _ _ _).2.2.1]
    simpa [Workqueue.started] using hstarted
  case signal t req e ht => exact ⟨⟨hx, hstarted⟩, by simp [WorkerPc.rank_wake, Action.isWorker]⟩
  case signalStop hp => exact ⟨⟨hx, hstarted⟩, by simp [WorkerPc.rank_wake, Action.isWorker]⟩
  case stop hp => exact ⟨⟨rfl, hstarted⟩, by simp [Action.isWorker]⟩
  -- the other moves write nothing about a start
  all_goals
    refine ⟨⟨hx, by simpa [Workqueue.started] using hstarted⟩, ?_⟩
    simp [*, WorkerPc.rank, Action.isWorker]

variable [DecidableEq φ] [DecidableEq π]

/-- **The worker obeys the flag.** After `do_exit` has been set the worker takes
five steps at most, in any interleaving with any number of other threads, and
starts no callback. -/
theorem worker_stops (garbage : EntryMem φ π) {c c' : MemState φ π} {xs : List (Action φ π)}
    (hc : (queue garbage).Reachable c) (hexit : c.doExit = true)
    (hrun : (queue garbage).run c xs = some c') :
    xs.countP Action.isWorker ≤ 5 ∧ started c'.trace = started c.trace := by
  obtain ⟨a, ha, hrel⟩ := (queueBisimulation garbage).reachableBy (fun _ _ _ _ h => h) hc
  rw [← System.restrict_true (queue garbage)] at hrun
  obtain ⟨a', hrun', -, hrel'⟩ :=
    (queueBisimulation garbage).run_restrict (fun _ _ _ _ => rfl) xs ha hrel hrun
  rw [System.restrict_true] at hrun'
  have hstopping : Stopping (started c.trace) a := by
    rw [hrel.rest]
    exact ⟨hexit, rfl⟩
  obtain ⟨h', hrank⟩ :=
    System.run_rank Action.isWorker (fun s x s' h he => Stopping.move h (move_of_step he)) xs
      hstopping hrun'
  have hle := a.worker.rank_le
  constructor
  · omega
  · have hstarted := h'.started
    rwa [hrel'.rest] at hstarted

/-- The worker is in a callback when `stop_workqueue` stores and signals; it
lets the callback fail and leaves the second entry on the list. -/
def stopInCallback : List (Action Unit Unit) :=
  List.replicate 3 (.worker 0) ++ enqueueAll 0 ++ enqueueAll 1 ++ List.replicate 2 (.worker 0) ++
    [.stopper]

/-- What is left to do of it. -/
def afterStop : List (Action Unit Unit) :=
  [.stopper] ++ List.replicate 4 (.worker 1) ++ List.replicate 3 .stopper

theorem worker_stops_in_callback :
    ∃ c c', (queue zeroMem).run (queue zeroMem).init stopInCallback = some c ∧
      (queue zeroMem).run c afterStop = some c' ∧
      afterStop.countP Action.isWorker ≤ 5 ∧ started c'.trace = started c.trace := by
  refine ⟨_, _, rfl, rfl, ?_⟩
  exact worker_stops zeroMem (System.reachable_of_run stopInCallback rfl) rfl rfl

/-! ## The shutdown -/

/-- A step of the worker or of `stop_workqueue` that loses no wake-up. -/
def okShutdown (s : State σ ε) (a : Action φ π) : Bool :=
  okStop s a && match a with
    | .enqueuer _ _ => false
    | _ => true

/-- The appended entries that nobody has taken off the list. -/
def waiting (tr : List (Event ε)) : List ε :=
  (appended tr).drop (removed tr ++ drained tr).length

/-- The steps that are left before the end of a shutdown. -/
def State.rank (s : SpecState φ π) : Nat := s.worker.rank + s.stopper.rank + s.entries.length

/-- `stop_workqueue` has set the flag and has not returned. -/
def StopperPc.isUnderWay : StopperPc → Bool
  | .stored | .joining | .draining => true
  | _ => false

/-- Nobody is in `workqueue_enqueue`, the flag is set, the callbacks started are
`es` and the entries appended are `as`. -/
structure Closing (es as : List (WorkqueueEntry φ π)) (s : SpecState φ π) : Prop where
  stopping : Stopping es s
  idle : ∀ t, s.enqueuer t = .idle
  appended : appended s.trace = as
  ended : s.stopper.isUnderWay = false → s.stopper = .done ∧ s.entries = []

omit [DecidableEq φ] [DecidableEq π] in
theorem Ledger.entries_eq {s : SpecState φ π} (h : Ledger s) : s.entries = waiting s.trace := by
  rw [waiting, ← h.conserve, List.drop_left]

omit [DecidableEq φ] [DecidableEq π] in
/-- A step that neither appends nor touches `stop_workqueue` and the list. -/
theorem Closing.of_worker {es as : List (WorkqueueEntry φ π)} {s s' : SpecState φ π}
    (h : Closing es as s) (hstopping : Stopping es s') (hen : s'.enqueuer = s.enqueuer)
    (htr : Workqueue.appended s'.trace = Workqueue.appended s.trace) (hp : s'.stopper = s.stopper)
    (he : s'.entries = s.entries) : Closing es as s' := by
  constructor
  case stopping => exact hstopping
  case idle => rw [hen]; exact h.idle
  case appended => rw [htr]; exact h.appended
  case ended => rw [hp, he]; exact h.ended

omit [DecidableEq φ] [DecidableEq π] in
/-- Every step of a shutdown brings it closer to its end. -/
theorem Closing.move {es as : List (WorkqueueEntry φ π)} {s s' : SpecState φ π} {a : Action φ π}
    (h : Closing es as s) (hok : okShutdown s a = true) (hm : Move s a s') :
    Closing es as s' ∧ s'.rank < s.rank := by
  obtain ⟨hstopping, hrank⟩ := h.stopping.move hm
  have hidle := h.idle
  have happended := h.appended
  cases hm
  case failAlone r e hw hr hn =>
    refine ⟨h.of_worker hstopping rfl ?_ rfl rfl, by simp [State.rank, hw, WorkerPc.rank]⟩
    rw [appended_append, (accounts_cons_cleanup _ _ _).1]
    simp [Workqueue.appended]
  case giveUp r e err hw hr =>
    refine ⟨h.of_worker hstopping rfl ?_ rfl rfl, by simp [State.rank, hw, WorkerPc.rank]⟩
    rw [appended_append, (accounts_cons_cleanup _ _ _).1]
    simp [Workqueue.appended]
  case drain e rest hp he =>
    refine ⟨⟨hstopping, hidle, ?_, ?_⟩, by simp [State.rank, he]⟩
    · rw [appended_append, appended_append, (accounts_cons_cleanup _ _ _).1]
      simpa [Workqueue.appended] using happended
    · simp [hp, StopperPc.isUnderWay]
  case take r e rest hw he hx => cases hx.symm.trans h.stopping.exit
  case stay r hw hx => cases hx.symm.trans h.stopping.exit
  case stop hp =>
    -- the call is under way, or it has returned
    have hended := h.ended (by rw [hp]; rfl)
    cases hp.symm.trans hended.1
  case signalStop hp =>
    exact ⟨⟨hstopping, hidle, happended, by simp [StopperPc.isUnderWay]⟩,
      by simp [State.rank, hp, StopperPc.rank, WorkerPc.rank_wake]⟩
  case join hp hw =>
    exact ⟨⟨hstopping, hidle, happended, by simp [StopperPc.isUnderWay]⟩,
      by simp [State.rank, hp, StopperPc.rank]⟩
  case finish hp he =>
    exact ⟨⟨hstopping, hidle, happended, fun _ => ⟨rfl, he⟩⟩,
      by simp [State.rank, hp, StopperPc.rank]⟩
  -- no enqueuer takes part
  case calloc => simp [okShutdown] at hok
  case refuse => simp [okShutdown] at hok
  case acquire => simp [okShutdown] at hok
  case append => simp [okShutdown] at hok
  case release => simp [okShutdown] at hok
  case signal => simp [okShutdown] at hok
  -- the other moves are the worker's
  all_goals
    refine ⟨h.of_worker hstopping rfl (by simp [Workqueue.appended]) rfl rfl, ?_⟩
    simp only [Action.isWorker, ↓reduceIte] at hrank
    simp only [State.rank]
    omega

omit [DecidableEq φ] [DecidableEq π] in
/-- While `stop_workqueue` has not returned, the worker or itself can go on. -/
theorem Closing.can_go_on {es as : List (WorkqueueEntry φ π)} {s : SpecState φ π}
    (h : Closing es as s) (howners : Owners s) (hshut : Shutdown s)
    (hdone : s.stopper ≠ .done) :
    ∃ x : Action φ π, okShutdown s x = true ∧ s.isBlocked x = false := by
  -- nobody is in a section of `workqueue_enqueue`, so the lock is free for a worker outside
  have hfree : s.worker.isInside = false → s.worker ≠ .returned → s.lock = none := by
    intro hout hw
    cases hl : s.lock with
    | none => rfl
    | some owner =>
      cases owner with
      | worker =>
        rcases howners.worker hl with hin | hret
        · cases hout.symm.trans hin
        · exact absurd hret hw
      | enqueuer t =>
        have hin := howners.enqueuer t hl
        rw [h.idle t] at hin
        cases hin
  cases hp : s.stopper with
  | idle => exact absurd (h.ended (by rw [hp]; rfl)).1 hdone
  | done => exact absurd hp hdone
  | draining => exact ⟨.stopper, by simp [okShutdown, okStop, hp], by simp [State.isBlocked, hp]⟩
  | stored =>
    by_cases hw : s.worker = .wait
    · exact ⟨.worker 0, by simp [okShutdown, okStop], by simp [State.isBlocked, hw]⟩
    · refine ⟨.stopper, ?_, by simp [State.isBlocked, hp]⟩
      revert hw
      cases hw' : s.worker <;> simp [okShutdown, okStop, hp, hw']
  | joining =>
    have hawake := hshut.awake (by rw [hp]; rfl)
    cases hw : s.worker with
    | returned =>
      exact ⟨.stopper, by simp [okShutdown, okStop, hp], by simp [State.isBlocked, hp, hw]⟩
    | parked =>
      rw [hw] at hawake
      cases hawake
    | start =>
      have hl := hfree (by rw [hw]; rfl) (by simp [hw])
      exact ⟨.worker 0, by simp [okShutdown, okStop], by simp [State.isBlocked, hw, hl]⟩
    | woken =>
      have hl := hfree (by rw [hw]; rfl) (by simp [hw])
      exact ⟨.worker 0, by simp [okShutdown, okStop], by simp [State.isBlocked, hw, hl]⟩
    | _ => exact ⟨.worker 0, by simp [okShutdown, okStop], by simp [State.isBlocked, hw]⟩

/-! ## Its end -/

theorem shutdown_of_reachableBy {a : SpecState φ π}
    (ha : (specQueue φ π).ReachableBy (fun s x => okStop s x = true) a) : Shutdown a :=
  invariant_of_moves Shutdown.init (fun _ _ _ _ h hok hm => h.move hok hm) ha

omit [DecidableEq φ] [DecidableEq π] in
theorem okStop_of_okShutdown {s : State σ ε} {x : Action φ π} (h : okShutdown s x = true) :
    okStop s x = true :=
  (Bool.and_eq_true_iff.mp h).1

/-- What a run of the shutdown keeps, and how long it can get. -/
theorem closing_run {es as : List (WorkqueueEntry φ π)} {a a' : SpecState φ π}
    {xs : List (Action φ π)}
    (ha : (specQueue φ π).ReachableBy (fun s x => okStop s x = true) a) (h : Closing es as a)
    (hrun : ((specQueue φ π).restrict okShutdown).run a xs = some a') :
    (Closing es as a' ∧ (specQueue φ π).ReachableBy (fun s x => okStop s x = true) a') ∧
      xs.length ≤ a.rank := by
  refine System.run_length_le (P := fun s =>
    Closing es as s ∧ (specQueue φ π).ReachableBy (fun s x => okStop s x = true) s) ?_ xs
    ⟨h, ha⟩ hrun
  rintro s x s' ⟨hclosing, hr⟩ he
  obtain ⟨hok, hstep⟩ := System.restrict_step.mp he
  obtain ⟨hclosing', hrank⟩ := hclosing.move hok (move_of_step hstep)
  exact ⟨⟨hclosing', .step hr (okStop_of_okShutdown hok) hstep⟩, hrank⟩

omit [DecidableEq φ] [DecidableEq π] in
/-- Where `stop_workqueue` has returned the books are closed. -/
theorem Closing.books {es as : List (WorkqueueEntry φ π)} {s : SpecState φ π}
    (h : Closing es as s) (hledger : Ledger s) (hdone : s.stopper = .done) :
    s.entries = [] ∧ es ++ drained s.trace = as ∧ freed s.trace = as := by
  have hnil := (h.ended (by rw [hdone]; rfl)).2
  have hconserve := hledger.conserve
  rw [hnil, List.append_nil, h.appended, ← hledger.started_eq, h.stopping.started] at hconserve
  have hfreed := hledger.freed_eq
  rw [hledger.joined (by rw [hdone]; rfl), ← hledger.started_eq, h.stopping.started,
    hconserve] at hfreed
  exact ⟨hnil, hconserve, by simpa [WorkerPc.hand] using hfreed⟩

theorem StopperPc.rank_underWay {pc : StopperPc} (h : pc.isUnderWay = true) : pc.rank ≤ 3 := by
  revert h
  cases pc <;> simp [isUnderWay, rank]

omit [DecidableEq φ] [DecidableEq π] in
theorem okStop_over {c : MemState φ π} {a : SpecState φ π} (h : Refines c a) (x : Action φ π) :
    okStop c x = okStop a x := by
  rw [h.rest]
  rfl

omit [DecidableEq φ] [DecidableEq π] in
theorem okShutdown_over {c : MemState φ π} {a : SpecState φ π} (h : Refines c a)
    (x : Action φ π) : okShutdown c x = okShutdown a x := by
  rw [h.rest]
  rfl

/-- **`stop_workqueue` terminates.** Take any state in which it has set the flag
and nobody is in `workqueue_enqueue`, and let the worker and `stop_workqueue` go
on as they like. They take eight steps at most and one for each entry that is
left, and they stop only where `stop_workqueue` has returned: no callback has been
started, the entries left have been drained, and all entries ever appended are
freed, once and in order. -/
theorem stop_terminates (garbage : EntryMem φ π) {c c' : MemState φ π} {xs : List (Action φ π)}
    (hc : (queue garbage).ReachableBy (fun s x => okStop s x = true) c)
    (hstop : c.stopper.isUnderWay = true) (hidle : ∀ t, c.enqueuer t = .idle)
    (hrun : ((queue garbage).restrict okShutdown).run c xs = some c') :
    xs.length ≤ 8 + (waiting c.trace).length ∧
      ((∀ x, ((queue garbage).restrict okShutdown).step c' x = none) →
        c'.stopper = .done ∧ (memOps garbage).llistIsEmpty c'.entries = true ∧
        started c'.trace = started c.trace ∧
        drained c'.trace = drained c.trace ++ waiting c.trace ∧
        freed c'.trace = appended c.trace) := by
  have hcarry : ∀ (c : MemState φ π) (a : SpecState φ π) (x : Action φ π), Refines c a →
      okStop c x = true → okStop a x = true := fun _ _ x h hx => (okStop_over h x).symm.trans hx
  obtain ⟨a, ha, hrel⟩ := (queueBisimulation garbage).reachableBy hcarry hc
  obtain ⟨a', hrun', -, hrel'⟩ := (queueBisimulation garbage).run_restrict
    (fun _ _ x h => okShutdown_over h x) xs ha.reachable hrel hrun
  have hledger : Ledger a := ledger_of_reachable ha.reachable
  have hclosing : Closing (started c.trace) (appended c.trace) a := by
    rw [hrel.rest]
    refine ⟨⟨?_, rfl⟩, hidle, rfl, ?_⟩
    · have hexit := (shutdown_of_reachableBy ha).exit
      rw [hrel.rest] at hexit
      refine hexit fun hn => ?_
      have hidle' : c.stopper = .idle := hn
      rw [hidle'] at hstop
      cases hstop
    · intro hn
      cases hstop.symm.trans hn
  obtain ⟨⟨hclosing', ha'⟩, hlength⟩ := closing_run ha hclosing hrun'
  constructor
  · have hworker := a.worker.rank_le
    have hstopper : a.stopper.rank ≤ 3 := StopperPc.rank_underWay (by rw [hrel.rest]; exact hstop)
    have hwaiting : waiting c.trace = a.entries := by
      rw [hledger.entries_eq, hrel.rest]
      rfl
    rw [hwaiting]
    simp only [State.rank] at hlength
    omega
  · intro hstuck
    have hdone : a'.stopper = .done := by
      by_contra hne
      obtain ⟨x, hok, hfree⟩ :=
        hclosing'.can_go_on (owners_of_reachable ha'.reachable) (shutdown_of_reachableBy ha') hne
      have henabled := (queueBisimulation garbage).isSome_step ha'.reachable hrel' x
      rw [specQueue_step_isSome, hfree, Bool.not_false, Option.isSome_iff_exists] at henabled
      obtain ⟨d, hd⟩ := henabled
      have hstep := System.restrict_step.mpr ⟨(okShutdown_over hrel' x).trans hok, hd⟩
      cases (hstuck x).symm.trans hstep
    obtain ⟨hnil, hdrained, hfreed⟩ :=
      hclosing'.books (ledger_of_reachable ha'.reachable) hdone
    have hstarted := hclosing'.stopping.started
    have hbefore : started c.trace ++ drained c.trace ++ waiting c.trace = appended c.trace := by
      have hconserve := hledger.conserve
      rw [← hledger.started_eq, hledger.entries_eq, hrel.rest] at hconserve
      exact hconserve
    obtain ⟨hrest', Es, hholds', -⟩ := hrel'
    rw [hnil] at hholds'
    rw [hrest'] at hdone hdrained hfreed hstarted
    refine ⟨hdone, ?_, hstarted, ?_, hfreed⟩
    · rw [hholds'.llistIsEmpty_eq garbage]
      rfl
    · rw [← hbefore, List.append_assoc] at hdrained
      exact List.append_cancel_left hdrained

/-- Behind `stopInCallback`, the whole shutdown. -/
theorem stop_terminates_in_callback :
    ∃ c c', ((queue zeroMem).restrict okStop).run (queue zeroMem).init stopInCallback = some c ∧
      ((queue zeroMem).restrict okShutdown).run c afterStop = some c' ∧
      afterStop.length ≤ 8 + (waiting c.trace).length ∧
      ((∀ x, ((queue zeroMem).restrict okShutdown).step c' x = none) →
        c'.stopper = .done ∧ (memOps zeroMem).llistIsEmpty c'.entries = true ∧
        started c'.trace = started c.trace ∧
        drained c'.trace = drained c.trace ++ waiting c.trace ∧
        freed c'.trace = appended c.trace) := by
  refine ⟨_, _, rfl, rfl, ?_⟩
  exact stop_terminates zeroMem (System.reachableBy_of_run stopInCallback rfl) rfl
    (fun t => by cases t with | zero => rfl | succ t => cases t <;> rfl) rfl

end Pixelflut.Workqueue
