import Pixelflut.Workqueue.Fifo

/-!
# The lock of a worker that has returned

`work_thread` has two ways out. Behind a failure it gives its lock back; when
it finds `do_exit` set in the outer loop it does not, and nobody else can.

* `Owners`: whoever owns the lock is inside its section, or is the worker and
  has returned;
* `unlocked_iff`: nobody who has returned owns the lock, in exactly the runs in
  which the worker never takes the second way out.
-/

namespace Pixelflut.Workqueue

open Function (update)
open Lib.Transition

variable {σ ε φ π : Type}

/-- The thread is outside its function. -/
def State.hasReturned (s : State σ ε) : Thread → Prop
  | .worker => s.worker = .returned
  | .enqueuer t => s.enqueuer t = .idle

/-- The worker has not died with the lock, and nobody waits in
`workqueue_enqueue` for a lock whose owner has returned. -/
structure Unlocked (s : State σ ε) : Prop where
  worker : s.worker = .returned → s.lock ≠ some .worker
  enqueuer : ∀ t e, s.enqueuer t = .ready e → ∀ owner, s.lock = some owner → ¬s.hasReturned owner

/-- The worker does not find `do_exit` set in the test of the outer loop. -/
def okLeave (s : State σ ε) : Action φ π → Bool
  | .worker _ =>
    match s.worker with
    | .test => !s.doExit
    | _ => true
  | _ => true

/-! ## Owners -/

structure Owners (s : State σ ε) : Prop where
  worker : s.lock = some .worker → s.worker.isInside = true ∨ s.worker = .returned
  enqueuer : ∀ t, s.lock = some (.enqueuer t) → (s.enqueuer t).isInside = true

theorem Owners.init (L : ListOps σ (WorkqueueEntry φ π)) : Owners (initState L) := by
  constructor
  case worker => intro h; cases h
  case enqueuer => intro t h; cases h

/-- A worker that keeps the lock as it is. -/
theorem Owners.of_worker {s s' : SpecState φ π} (h : Owners s) (hl : s'.lock = s.lock)
    (hen : s'.enqueuer = s.enqueuer)
    (hw : s.worker.isInside = true ∨ s.worker = .returned →
      s'.worker.isInside = true ∨ s'.worker = .returned) : Owners s' := by
  constructor
  case worker => exact fun hlock => hw (h.worker (hl ▸ hlock))
  case enqueuer =>
    intro t hlock
    rw [hen]
    exact h.enqueuer t (hl ▸ hlock)

/-- A thread that keeps the lock as it is, and moves on in its section. -/
theorem Owners.of_enqueuer {s s' : SpecState φ π} (h : Owners s) {t : Nat}
    {pc : EnqueuerPc (WorkqueueEntry φ π)} (hl : s'.lock = s.lock)
    (hen : s'.enqueuer = update s.enqueuer t pc)
    (hpc : (s.enqueuer t).isInside = true → pc.isInside = true)
    (hw : s'.worker = s.worker ∨ s'.worker = s.worker.wake) : Owners s' := by
  constructor
  case worker =>
    intro hlock
    have hold := h.worker (hl ▸ hlock)
    rcases hw with hw | hw
    · rw [hw]
      exact hold
    · rw [hw, s.worker.isInside_wake]
      exact hold.imp_right fun hr => by rw [hr]; rfl
  case enqueuer =>
    intro t' hlock
    have hold := h.enqueuer t' (hl ▸ hlock)
    rw [hen]
    by_cases ht : t' = t
    · subst ht
      rw [Function.update_self]
      exact hpc hold
    · rw [Function.update_of_ne ht]
      exact hold

/-- The lock has been given back. -/
theorem Owners.of_free {s : State σ ε} (hl : s.lock = none) : Owners s := by
  constructor
  case worker => intro h; rw [hl] at h; cases h
  case enqueuer => intro t h; rw [hl] at h; cases h

theorem Owners.move {s s' : SpecState φ π} {a : Action φ π} (h : Owners s) (hm : Move s a s') :
    Owners s' := by
  cases hm
  case begin r hw hl =>
    constructor
    case worker => exact fun _ => .inl rfl
    case enqueuer => intro t hlock; cases hlock
  case wake r hw hl =>
    constructor
    case worker => exact fun _ => .inl rfl
    case enqueuer => intro t hlock; cases hlock
  case park => exact .of_free rfl
  case unlock => exact .of_free rfl
  case release => exact .of_free rfl
  case acquire t req e ht hl =>
    constructor
    case worker => intro hlock; cases hlock
    case enqueuer =>
      intro t' hlock
      cases hlock
      show (update s.enqueuer t _ t).isInside = true
      rw [Function.update_self]
      rfl
  case calloc t req e ht he =>
    exact h.of_enqueuer rfl rfl (by rw [ht]; intro hin; cases hin) (.inl rfl)
  case refuse => exact h
  case append t req e ht => exact h.of_enqueuer rfl rfl (fun _ => rfl) (.inl rfl)
  case signal t req e ht =>
    exact h.of_enqueuer rfl rfl (by rw [ht]; intro hin; cases hin) (.inr rfl)
  case stop => exact h.of_worker rfl rfl id
  case signalStop =>
    refine h.of_worker rfl rfl fun hold => ?_
    show s.worker.wake.isInside = true ∨ s.worker.wake = .returned
    rw [s.worker.isInside_wake]
    exact hold.imp_right fun hr => by rw [hr]; rfl
  case join => exact h.of_worker rfl rfl id
  case finish => exact h.of_worker rfl rfl id
  case drain => exact h.of_worker rfl rfl id
  case leave => exact h.of_worker rfl rfl fun _ => .inr rfl
  case freeLast => exact h.of_worker rfl rfl fun _ => .inr rfl
  -- the other moves of the worker stay inside
  all_goals exact h.of_worker rfl rfl fun _ => .inl rfl

theorem owners_of_reachable [DecidableEq φ] [DecidableEq π] {a : SpecState φ π}
    (ha : (specQueue φ π).Reachable a) : Owners a :=
  invariant_of_moves (Owners.init _) (fun _ _ _ _ h _ hm => h.move hm) ha

/-! ## The ways out -/

/-- The worker has returned with the lock. -/
def DiedInside (s : State σ ε) : Prop := s.worker = .returned ∧ s.lock = some .worker

/-- A dead worker is the only one that keeps the lock for ever. -/
theorem unlocked_iff_of_owners {s : State σ ε} (h : Owners s) : Unlocked s ↔ ¬DiedInside s := by
  constructor
  · exact fun hun hdied => hun.worker hdied.1 hdied.2
  · intro hnot
    refine ⟨fun hw hl => hnot ⟨hw, hl⟩, fun t e _ owner hl hret => ?_⟩
    cases owner with
    | worker => exact hnot ⟨hret, hl⟩
    | enqueuer t' =>
      have hin := h.enqueuer t' hl
      rw [show s.enqueuer t' = .idle from hret] at hin
      cases hin

/-- **One step.** The worker has died with the lock before, or it now finds
`do_exit` set in the outer loop. -/
theorem diedInside_iff_of_move {s s' : SpecState φ π} {a : Action φ π} (hlocks : Locks s)
    (howners : Owners s) (hm : Move s a s') :
    ¬DiedInside s' ↔ ¬DiedInside s ∧ okLeave s a = true := by
  cases hm
  case leave r hw hx =>
    have hl : s.lock = some .worker := hlocks.worker (by rw [hw]; rfl)
    simp [DiedInside, okLeave, hw, hx, hl]
  case freeLast r e hw =>
    have hl : s.lock ≠ some .worker := by
      intro hl
      rcases howners.worker hl with hin | hr
      · rw [hw] at hin
        cases hin
      · rw [hw] at hr
        cases hr
    simp [DiedInside, okLeave, hw, hl]
  case release t req e ht =>
    have hl : s.lock = some (.enqueuer t) := hlocks.enqueuer t (by rw [ht]; rfl)
    simp [DiedInside, okLeave, hl]
  case signal =>
    cases hw : s.worker <;> simp [DiedInside, okLeave, WorkerPc.wake, hw]
  case signalStop =>
    cases hw : s.worker <;> simp [DiedInside, okLeave, WorkerPc.wake, hw]
  -- the other moves do not leave the worker's function
  all_goals simp [DiedInside, okLeave, *]

variable [DecidableEq φ] [DecidableEq π]

/-- **A worker dies with its lock exactly if it leaves by the outer loop.** For
every run: in its last state nobody who has returned owns the lock, or keeps
others waiting for it, if and only if no step of the run has been a test of the
outer loop that found `do_exit` set. -/
theorem unlocked_iff (garbage : EntryMem φ π) {acts : List (Action φ π)} {c : MemState φ π}
    (hrun : (queue garbage).run (queue garbage).init acts = some c) :
    Unlocked c ↔ ((queue garbage).restrict okLeave).run (queue garbage).init acts = some c := by
  have howners : ∀ c : MemState φ π, (queue garbage).Reachable c → Owners c := by
    intro c hc
    obtain ⟨l, Es, ha, -⟩ := exists_over_of_reachable garbage hc
    obtain ⟨hworker, henqueuer⟩ := owners_of_reachable ha
    exact ⟨hworker, henqueuer⟩
  rw [unlocked_iff_of_owners (howners c (System.reachable_of_run acts hrun))]
  refine System.run_restrict_iff (Q := fun c : MemState φ π => ¬DiedInside c) ?_ ?_ hrun
  · rintro ⟨hw, -⟩
    cases hw
  · intro c x c' hc hx
    obtain ⟨l, l', ha, hstep, -⟩ := exists_step_over garbage hc hx
    exact diedInside_iff_of_move (locks_of_reachable ha) (owners_of_reachable ha)
      (move_of_step hstep)

/-- The only job fails, and its error handler asks to stop. -/
def failAndStop : List (Action Unit Unit) :=
  List.replicate 3 (.worker 0) ++ List.replicate 5 (.enqueuer 0 ⟨(), (), some (), none, true⟩) ++
    [.worker 0, .worker 0, .worker (-1), .worker 1, .worker 0, .worker 0]

theorem unlocked_iff_failAndStop :
    ∃ c, (queue zeroMem).run (queue zeroMem).init failAndStop = some c ∧ c.worker = .returned ∧
      Unlocked c := by
  have hrun : (queue zeroMem).run (queue zeroMem).init failAndStop = some _ := rfl
  exact ⟨_, hrun, rfl, (unlocked_iff zeroMem hrun).mpr rfl⟩

/-- `do_exit` is set before the worker has parked; a thread then waits for the
lock of the dead worker. -/
theorem enqueuer_waits_for_the_dead :
    ¬∀ c, (queue zeroMem).Reachable c → Unlocked c := by
  intro hclaim
  have hun := hclaim _ (System.reachable_of_run
    [.stopper, .worker 0, .worker 0, .enqueuer 0 job] rfl)
  exact hun.enqueuer 0 _ rfl .worker rfl rfl

end Pixelflut.Workqueue
