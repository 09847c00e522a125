import Pixelflut.Workqueue.Fifo

/-!
# Wake-ups

The worker takes the lock and parks without a look at the list, and
`stop_workqueue` stores and signals without the lock. Each of the two loses a
wake-up in one window only:

* a broadcast for a new job is lost before the worker has parked for the first
  time (`OkSignal` excludes that, `no_lost_wakeup` is the rest);
* the broadcast of `stop_workqueue` is lost between the test of `do_exit` and
  the park (`OkStop`, `shutdown_never_hangs`).
-/

namespace Pixelflut.Workqueue

open Function (update)
open Lib.Transition

variable {σ ε φ π : Type}

/-! ## Jobs -/

/-- The thread has appended an entry and has its broadcast still to make. -/
def EnqueuerPc.isPending : EnqueuerPc ε → Bool
  | .appended _ | .unlocked _ => true
  | _ => false

def Event.isPark : Event ε → Bool
  | .park => true
  | _ => false

/-- The worker has parked at least once. -/
def State.hasParked (s : State σ ε) : Bool := s.trace.any Event.isPark

/-- The worker is on its way to park for the first time. -/
def State.parksAhead (s : State σ ε) : Bool :=
  !s.hasParked && match s.worker with
    | .start | .test => !s.doExit
    | .wait => true
    | _ => false

/-- The step is not the broadcast of an enqueuer while the first park lies ahead. -/
def okSignal (s : State σ ε) : Action φ π → Bool
  | .enqueuer t _ =>
    match s.enqueuer t with
    | .unlocked _ => !s.parksAhead
    | _ => true
  | _ => true

/-- An entry on the list has an enqueuer that still has to signal. -/
def Announced (s : SpecState φ π) : Prop :=
  s.entries ≠ [] → ∃ t, (s.enqueuer t).isPending = true

structure Wakeup (s : SpecState φ π) : Prop where
  started : s.worker = .start → s.hasParked = false
  ahead : s.parksAhead = true → Announced s
  parked : s.worker = .parked → Announced s
  /-- Behind the first park the worker comes to its test with an empty list. -/
  test : s.hasParked = true → s.worker = .test → s.entries = [] ∨ s.doExit = true
  wait : s.hasParked = true → s.worker = .wait → s.entries = []

/-- The worker is neither before its first park nor between two rounds. -/
def WorkerPc.isAway : WorkerPc ε → Bool
  | .start | .test | .wait | .parked => false
  | _ => true

theorem Wakeup.of_away {s : SpecState φ π} (h : s.worker.isAway = true) : Wakeup s := by
  have hne : ∀ pc : WorkerPc (WorkqueueEntry φ π), pc.isAway = false → s.worker ≠ pc :=
    fun pc hpc hw => by rw [hw, hpc] at h; cases h
  constructor
  case started => exact fun hw => absurd hw (hne .start rfl)
  case ahead =>
    intro ha
    unfold State.parksAhead at ha
    revert h ha
    cases s.worker <;> simp [WorkerPc.isAway]
  case parked => exact fun hw => absurd hw (hne .parked rfl)
  case test => exact fun _ hw => absurd hw (hne .test rfl)
  case wait => exact fun _ hw => absurd hw (hne .wait rfl)

/-- A move of another thread that leaves the worker where it is. -/
theorem Wakeup.of_same {s s' : SpecState φ π} (h : Wakeup s) (hw : s'.worker = s.worker)
    (hparked : s'.hasParked = s.hasParked) (hexit : s.doExit = true → s'.doExit = true)
    (hann : Announced s → Announced s')
    (hentries : s.worker.isInside = true → s.entries = [] → s'.entries = []) : Wakeup s' := by
  constructor
  case started => rw [hw, hparked]; exact h.started
  case ahead =>
    intro ha
    refine hann (h.ahead ?_)
    unfold State.parksAhead at ha ⊢
    rw [hw, hparked] at ha
    cases hx : s.doExit with
    | true =>
      rw [hexit hx] at ha
      exact ha
    | false =>
      revert ha
      cases s.worker <;> simp +contextual
  case parked => rw [hw]; exact fun hp => hann (h.parked hp)
  case test =>
    intro hp ht
    rw [hw] at ht
    rw [hparked] at hp
    rcases h.test hp ht with hnil | hx
    · exact .inl (hentries (by rw [ht]; rfl) hnil)
    · exact .inr (hexit hx)
  case wait =>
    intro hp ht
    rw [hw] at ht
    rw [hparked] at hp
    exact hentries (by rw [ht]; rfl) (h.wait hp ht)

/-- Enqueuers that are pending stay so, or the moving one becomes so. -/
theorem announced_update {s s' : SpecState φ π} {t : Nat} {pc : EnqueuerPc (WorkqueueEntry φ π)}
    (hentries : s'.entries = s.entries) (hen : s'.enqueuer = update s.enqueuer t pc)
    (hpc : (s.enqueuer t).isPending = true → pc.isPending = true) (h : Announced s) :
    Announced s' := by
  intro hne
  rw [hentries] at hne
  obtain ⟨t', ht'⟩ := h hne
  refine ⟨t', ?_⟩
  rw [hen]
  by_cases heq : t' = t
  · subst heq
    rw [Function.update_self]
    exact hpc ht'
  · rw [Function.update_of_ne heq]
    exact ht'

/-- A broadcast takes a parked worker away and does nothing to any other. -/
theorem WorkerPc.wake_cases (pc : WorkerPc ε) : pc.wake.isAway = true ∨ pc.wake = pc := by
  cases pc <;> simp [wake, isAway]

/-- A move of the worker inside its section. -/
theorem Wakeup.of_inside {s s' : SpecState φ π} (h : Wakeup s) (hin : s'.worker.isInside = true)
    (hentries : s'.entries = s.entries) (hen : s'.enqueuer = s.enqueuer)
    (hahead : s'.parksAhead = true → s.parksAhead = true ∨ s.entries = [])
    (htest : s'.hasParked = true → s'.worker = .test → s.entries = [] ∨ s'.doExit = true)
    (hwait : s'.hasParked = true → s'.worker = .wait → s.entries = []) : Wakeup s' := by
  constructor
  case started =>
    intro hw
    rw [hw] at hin
    cases hin
  case ahead =>
    intro ha hne
    rw [hentries] at hne
    rw [hen]
    rcases hahead ha with ha | hnil
    · exact h.ahead ha hne
    · exact absurd hnil hne
  case parked =>
    intro hw
    rw [hw] at hin
    cases hin
  case test => rw [hentries]; exact htest
  case wait => rw [hentries]; exact hwait

theorem Wakeup.move {s s' : SpecState φ π} {a : Action φ π} (h : Wakeup s) (hlocks : Locks s)
    (hledger : Ledger s) (hok : okSignal s a = true) (hm : Move s a s') : Wakeup s' := by
  cases hm
  case begin r hw hl =>
    have hnever : s.hasParked = false := h.started hw
    refine h.of_inside rfl rfl rfl (fun ha => .inl ?_) (fun hp => ?_) (fun _ hw' => ?_)
    · unfold State.parksAhead at ha ⊢
      rw [hw]
      exact ha
    · cases hnever.symm.trans hp
    · cases hw'
  case stay r hw hx =>
    refine h.of_inside rfl rfl rfl (fun ha => .inl ?_) (fun _ hw' => ?_) (fun hp _ => ?_)
    · unfold State.parksAhead at ha ⊢
      rw [hw, hx]
      exact ha
    · cases hw'
    · rcases h.test hp hw with hnil | hexit
      · exact hnil
      · cases hx.symm.trans hexit
  case retest r hw hc =>
    refine h.of_inside rfl rfl rfl (fun ha => .inr ?_) (fun _ _ => hc) (fun _ hw' => ?_)
    · unfold State.parksAhead at ha
      rcases hc with hnil | hx
      · exact hnil
      · simp [hx] at ha
    · cases hw'
  case park r hw =>
    have hparked : State.hasParked
        { s with lock := none, worker := .parked, trace := s.trace ++ [.park] } = true := by
      simp [State.hasParked, Event.isPark]
    constructor
    case started => intro hw'; cases hw'
    case ahead =>
      intro ha
      unfold State.parksAhead at ha
      rw [hparked] at ha
      cases ha
    case parked =>
      intro _
      cases hp : s.hasParked with
      | true => exact fun hne => absurd (h.wait hp hw) hne
      | false =>
        refine h.ahead ?_
        unfold State.parksAhead
        rw [hp, hw]
        rfl
    case test => intro _ hw'; cases hw'
    case wait => intro _ hw'; cases hw'
  case calloc t req e ht he =>
    exact h.of_same rfl rfl id (announced_update rfl rfl fun hp => by rw [ht] at hp; cases hp)
      fun _ => id
  case refuse => exact h
  case acquire t req e ht hl =>
    exact h.of_same rfl rfl id (announced_update rfl rfl fun hp => by rw [ht] at hp; cases hp)
      fun _ => id
  case append t req e ht =>
    refine h.of_same rfl ?_ id (fun _ _ => ⟨t, ?_⟩) fun hin => ?_
    · simp [State.hasParked, Event.isPark]
    · show (update s.enqueuer t (.appended e) t).isPending = true
      rw [Function.update_self]
      rfl
    · -- the appending thread is inside, so the worker is not
      have hout := hlocks.exclusive hin (t := t)
      rw [ht] at hout
      cases hout
  case release t req e ht =>
    exact h.of_same rfl rfl id (announced_update rfl rfl fun _ => rfl) fun _ => id
  case signal t req e ht =>
    have hahead : s.parksAhead = false := by simpa [okSignal, ht] using hok
    rcases s.worker.wake_cases with haway | hsame
    · exact .of_away haway
    · constructor
      case started => exact fun hw => h.started (hsame.symm.trans hw)
      case ahead =>
        intro ha
        unfold State.parksAhead at ha hahead
        rw [hsame] at ha
        cases hahead.symm.trans ha
      case parked =>
        intro hw
        have hw' : s.worker = .parked := hsame.symm.trans hw
        rw [hw'] at hsame
        cases hsame
      case test => exact fun hp hw => h.test hp (hsame.symm.trans hw)
      case wait => exact fun hp hw => h.wait hp (hsame.symm.trans hw)
  case stop hp => exact h.of_same rfl rfl (fun _ => rfl) id fun _ => id
  case signalStop hp =>
    rcases s.worker.wake_cases with haway | hsame
    · exact .of_away haway
    · exact h.of_same hsame rfl id id fun _ => id
  case join hp hw => exact .of_away (by rw [hw]; rfl)
  case finish hp he => exact h.of_same rfl rfl id id fun _ => id
  case drain e rest hp he =>
    exact .of_away (by rw [hledger.joined (by rw [hp]; rfl)]; rfl)
  -- the other moves take the worker away
  all_goals exact .of_away rfl

theorem Wakeup.init [DecidableEq φ] [DecidableEq π] : Wakeup (specQueue φ π).init := by
  constructor
  case started => exact fun _ => rfl
  case ahead => exact fun _ hne => absurd rfl hne
  case parked => intro hw; cases hw
  case test => intro hp; cases hp
  case wait => intro hp; cases hp

theorem wakeup_of_reachableBy [DecidableEq φ] [DecidableEq π] {a : SpecState φ π}
    (ha : (specQueue φ π).ReachableBy (fun s x => okSignal s x = true) a) : Wakeup a :=
  invariant_of_moves Wakeup.init
    (fun _ _ _ hr h hok hm =>
      h.move (locks_of_reachable hr.reachable) (ledger_of_reachable hr.reachable) hok hm) ha

/-- **No lost wake-up behind the first park.** In a run in which no enqueuer
signals while the first park of the worker lies ahead: whenever the worker is
parked and no enqueuer is between its append and its broadcast, the list is
empty. -/
theorem no_lost_wakeup [DecidableEq φ] [DecidableEq π] (garbage : EntryMem φ π)
    {c : MemState φ π} (hc : (queue garbage).ReachableBy (fun s x => okSignal s x = true) c)
    (hw : c.worker = .parked) (hpending : ∀ t, (c.enqueuer t).isPending = false) :
    (memOps garbage).llistIsEmpty c.entries = true := by
  obtain ⟨l, Es, ha, hholds⟩ :=
    exists_over garbage (Q := fun s x => okSignal s x = true) (fun _ _ _ hok => hok) hc
  have hwake : Wakeup (c.over l) := wakeup_of_reachableBy ha
  rw [hholds.llistIsEmpty_eq garbage, List.isEmpty_iff]
  by_contra hne
  obtain ⟨t, ht⟩ := hwake.parked hw hne
  cases (hpending t).symm.trans ht

/-- The worker parks, a job is enqueued, run and freed, and the worker parks again. -/
def runOneJob : List (Action Unit Unit) :=
  List.replicate 3 (.worker 0) ++ enqueueAll 0 ++ List.replicate 7 (.worker 0)

theorem no_lost_wakeup_runOneJob :
    ∃ c, ((queue zeroMem).restrict okSignal).run (queue zeroMem).init runOneJob = some c ∧
      (memOps zeroMem).llistIsEmpty c.entries = true := by
  refine ⟨_, rfl, no_lost_wakeup zeroMem (System.reachableBy_of_run runOneJob rfl) rfl fun t => ?_⟩
  cases t <;> rfl

/-- A job is enqueued before the worker takes the lock for the first time; the
worker parks and leaves it on the list. -/
theorem lost_wakeup_before_first_park :
    ¬∀ c, (queue zeroMem).Reachable c → c.worker = .parked →
      (∀ t, (c.enqueuer t).isPending = false) →
      (memOps zeroMem).llistIsEmpty c.entries = true := by
  intro hclaim
  have hempty := hclaim _
    (System.reachable_of_run (enqueueAll 0 ++ List.replicate 3 (.worker 0)) rfl) rfl
    fun t => by cases t <;> rfl
  exact absurd hempty (by decide)

/-! ## Shutdown -/

/-- The thread has its broadcast still to make. -/
def EnqueuerPc.isCalling : EnqueuerPc ε → Bool
  | .idle => false
  | _ => true

/-- The step is not the broadcast of `stop_workqueue` while the worker is
between its test of `do_exit` and its park. -/
def okStop (s : State σ ε) : Action φ π → Bool
  | .stopper =>
    match s.stopper, s.worker with
    | .stored, .wait => false
    | _, _ => true
  | _ => true

/-- `stop_workqueue` has made its broadcast. -/
def StopperPc.hasSignalled : StopperPc → Bool
  | .idle | .stored => false
  | _ => true

/-- The worker will park without another test, or is parked. -/
def WorkerPc.isParking : WorkerPc ε → Bool
  | .wait | .parked => true
  | _ => false

structure Shutdown (s : SpecState φ π) : Prop where
  exit : s.stopper ≠ .idle → s.doExit = true
  awake : s.stopper.hasSignalled = true → s.worker.isParking = false

theorem Shutdown.init [DecidableEq φ] [DecidableEq π] : Shutdown (specQueue φ π).init := by
  constructor
  case exit => exact fun h => absurd rfl h
  case awake => intro h; cases h

theorem WorkerPc.isParking_wake {pc : WorkerPc ε} (h : pc ≠ .wait) : pc.wake.isParking = false := by
  cases pc <;> first | rfl | exact absurd rfl h

theorem Shutdown.move {s s' : SpecState φ π} {a : Action φ π} (h : Shutdown s)
    (hok : okStop s a = true) (hm : Move s a s') : Shutdown s' := by
  cases hm
  case stay r hw hx =>
    -- the flag is not set, so the broadcast of `stop_workqueue` is still to come
    have hidle : s.stopper = .idle := by
      by_contra hne
      cases hx.symm.trans (h.exit hne)
    refine ⟨h.exit, fun hs => ?_⟩
    have hs' : s.stopper.hasSignalled = true := hs
    rw [hidle] at hs'
    cases hs'
  case park r hw =>
    refine ⟨h.exit, fun hs => ?_⟩
    have hawake := h.awake hs
    rw [hw] at hawake
    cases hawake
  case signal t req e ht =>
    refine ⟨h.exit, fun hs => ?_⟩
    have hawake := h.awake hs
    refine WorkerPc.isParking_wake fun hw => ?_
    rw [hw] at hawake
    cases hawake
  case stop hp => exact ⟨fun _ => rfl, fun hs => by cases hs⟩
  case signalStop hp =>
    refine ⟨fun _ => h.exit (by rw [hp]; intro hn; cases hn), fun _ => ?_⟩
    refine WorkerPc.isParking_wake fun hw => ?_
    simp [okStop, hp, hw] at hok
  case join hp hw => exact ⟨fun _ => h.exit (by rw [hp]; intro hn; cases hn), fun _ => by rw [hw]; rfl⟩
  case finish hp he =>
    exact ⟨fun _ => h.exit (by rw [hp]; intro hn; cases hn), fun _ => h.awake (by rw [hp]; rfl)⟩
  case calloc => exact ⟨h.exit, h.awake⟩
  case refuse => exact h
  case acquire => exact ⟨h.exit, h.awake⟩
  case append => exact ⟨h.exit, h.awake⟩
  case release => exact ⟨h.exit, h.awake⟩
  case drain => exact ⟨h.exit, h.awake⟩
  -- the other moves of the worker do not lead to a park
  all_goals exact ⟨h.exit, fun _ => rfl⟩

/-- **Shutdown does not hang on a lost wake-up** in a run in which the broadcast
of `stop_workqueue` does not fall between the test of `do_exit` and the park. -/
theorem shutdown_never_hangs [DecidableEq φ] [DecidableEq π] (garbage : EntryMem φ π)
    {c : MemState φ π} (hc : (queue garbage).ReachableBy (fun s x => okStop s x = true) c) :
    ¬(c.stopper = .joining ∧ c.worker = .parked ∧ ∀ t, (c.enqueuer t).isCalling = false) := by
  obtain ⟨l, Es, ha, -⟩ :=
    exists_over garbage (Q := fun s x => okStop s x = true) (fun _ _ _ hok => hok) hc
  have hshut : Shutdown (c.over l) :=
    invariant_of_moves Shutdown.init (fun _ _ _ _ h hok hm => h.move hok hm) ha
  rintro ⟨hp, hw, -⟩
  have hawake : c.worker.isParking = false :=
    hshut.awake (congrArg StopperPc.hasSignalled hp)
  rw [hw] at hawake
  cases hawake

/-- The worker parks, and `stop_workqueue` stores, signals and waits. -/
def parkThenStop : List (Action Unit Unit) :=
  List.replicate 3 (.worker 0) ++ [.stopper, .stopper]

theorem shutdown_never_hangs_parkThenStop :
    ∃ c, ((queue zeroMem).restrict okStop).run (queue zeroMem).init parkThenStop = some c ∧
      ¬(c.stopper = .joining ∧ c.worker = .parked ∧ ∀ t, (c.enqueuer t).isCalling = false) :=
  ⟨_, rfl, shutdown_never_hangs zeroMem (System.reachableBy_of_run parkThenStop rfl)⟩

/-- `stop_workqueue` stores and signals while the worker is about to park. -/
theorem shutdown_hangs_in_the_window :
    ¬∀ c, (queue zeroMem).Reachable c →
      ¬(c.stopper = .joining ∧ c.worker = .parked ∧ ∀ t, (c.enqueuer t).isCalling = false) := by
  intro hclaim
  exact hclaim _ (System.reachable_of_run
    [.worker 0, .worker 0, .stopper, .stopper, .worker 0] rfl) ⟨rfl, rfl, fun _ => rfl⟩

end Pixelflut.Workqueue
