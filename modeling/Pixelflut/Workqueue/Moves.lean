import Pixelflut.Workqueue.Basic

/-!
# What a step of the queue can do

`Move` lists the steps of the queue over sequences, each with its guard and
the state it leads to; `move_of_step` says that there are no others. The
invariants of the queue are proved by cases on a `Move`.
-/

namespace Pixelflut.Workqueue

open Function (update)
open Lib.Transition

variable {φ π : Type}

/-- The states of the queue over sequences. -/
abbrev SpecState (φ π : Type) := State (List (WorkqueueEntry φ π)) (WorkqueueEntry φ π)

inductive Move (s : SpecState φ π) : Action φ π → SpecState φ π → Prop where
  | begin (r : Int) (hw : s.worker = .start) (hl : s.lock = none) :
      Move s (.worker r) { s with lock := some .worker, worker := .test }
  | leave (r : Int) (hw : s.worker = .test) (hx : s.doExit = true) :
      Move s (.worker r) { s with worker := .returned }
  | stay (r : Int) (hw : s.worker = .test) (hx : s.doExit = false) :
      Move s (.worker r) { s with worker := .wait }
  | park (r : Int) (hw : s.worker = .wait) :
      Move s (.worker r) { s with lock := none, worker := .parked, trace := s.trace ++ [.park] }
  | wake (r : Int) (hw : s.worker = .woken) (hl : s.lock = none) :
      Move s (.worker r) { s with lock := some .worker, worker := .loop }
  | retest (r : Int) (hw : s.worker = .loop) (hc : s.entries = [] ∨ s.doExit = true) :
      Move s (.worker r) { s with worker := .test }
  | take (r : Int) (e : WorkqueueEntry φ π) (rest : List (WorkqueueEntry φ π))
      (hw : s.worker = .loop) (he : s.entries = e :: rest) (hx : s.doExit = false) :
      Move s (.worker r) { s with
        entries := rest
        worker := .running e
        numWorkqueueItems := s.numWorkqueueItems - 1
        trace := s.trace ++ [.remove e, .cbStart e] }
  | succeed (e : WorkqueueEntry φ π) (hw : s.worker = .running e) :
      Move s (.worker 0) { s with worker := .next e, trace := s.trace ++ [.cbEnd e 0] }
  | failAlone (r : Int) (e : WorkqueueEntry φ π) (hw : s.worker = .running e) (hr : r ≠ 0)
      (hn : e.err = none) :
      Move s (.worker r) { s with
        worker := .next e, trace := s.trace ++ .cbEnd e r :: cleanupEvents e r }
  | fail (r : Int) (e : WorkqueueEntry φ π) (hw : s.worker = .running e) (hr : r ≠ 0)
      (hn : e.err.isSome) :
      Move s (.worker r) { s with worker := .handler e r, trace := s.trace ++ [.cbEnd e r] }
  | forgive (e : WorkqueueEntry φ π) (err : Int) (hw : s.worker = .handler e err) :
      Move s (.worker 0) { s with worker := .next e, trace := s.trace ++ [.errEnd e 0] }
  | giveUp (r : Int) (e : WorkqueueEntry φ π) (err : Int) (hw : s.worker = .handler e err)
      (hr : r ≠ 0) :
      Move s (.worker r) { s with
        worker := .failing e, trace := s.trace ++ .errEnd e r :: cleanupEvents e err }
  | free (r : Int) (e : WorkqueueEntry φ π) (hw : s.worker = .next e) :
      Move s (.worker r) { s with worker := .loop, trace := s.trace ++ [.free e] }
  | unlock (r : Int) (e : WorkqueueEntry φ π) (hw : s.worker = .failing e) :
      Move s (.worker r) { s with lock := none, worker := .unlocked e }
  | freeLast (r : Int) (e : WorkqueueEntry φ π) (hw : s.worker = .unlocked e) :
      Move s (.worker r) { s with worker := .returned, trace := s.trace ++ [.free e] }
  | calloc (t : Nat) (req : Request φ π) (e : WorkqueueEntry φ π) (ht : s.enqueuer t = .idle)
      (he : e = ⟨s.nextId, req.cb, req.err, req.cleanup, req.priv⟩) :
      Move s (.enqueuer t req) { s with
        enqueuer := update s.enqueuer t (.ready e), nextId := s.nextId + 1 }
  | refuse (t : Nat) (req : Request φ π) (ht : s.enqueuer t = .idle) :
      Move s (.enqueuer t req) s
  | acquire (t : Nat) (req : Request φ π) (e : WorkqueueEntry φ π) (ht : s.enqueuer t = .ready e)
      (hl : s.lock = none) :
      Move s (.enqueuer t req) { s with
        lock := some (.enqueuer t), enqueuer := update s.enqueuer t (.locked e) }
  | append (t : Nat) (req : Request φ π) (e : WorkqueueEntry φ π) (ht : s.enqueuer t = .locked e) :
      Move s (.enqueuer t req) { s with
        entries := s.entries ++ [e]
        enqueuer := update s.enqueuer t (.appended e)
        numWorkqueueItems := s.numWorkqueueItems + 1
        trace := s.trace ++ [.append e] }
  | release (t : Nat) (req : Request φ π) (e : WorkqueueEntry φ π)
      (ht : s.enqueuer t = .appended e) :
      Move s (.enqueuer t req) { s with
        lock := none, enqueuer := update s.enqueuer t (.unlocked e) }
  | signal (t : Nat) (req : Request φ π) (e : WorkqueueEntry φ π)
      (ht : s.enqueuer t = .unlocked e) :
      Move s (.enqueuer t req) { s with
        worker := s.worker.wake, enqueuer := update s.enqueuer t .idle }
  | stop (hp : s.stopper = .idle) :
      Move s .stopper { s with doExit := true, stopper := .stored }
  | signalStop (hp : s.stopper = .stored) :
      Move s .stopper { s with worker := s.worker.wake, stopper := .joining }
  | join (hp : s.stopper = .joining) (hw : s.worker = .returned) :
      Move s .stopper { s with stopper := .draining }
  | finish (hp : s.stopper = .draining) (he : s.entries = []) :
      Move s .stopper { s with stopper := .done }
  | drain (e : WorkqueueEntry φ π) (rest : List (WorkqueueEntry φ π))
      (hp : s.stopper = .draining) (he : s.entries = e :: rest) :
      Move s .stopper { s with
        entries := rest, trace := s.trace ++ .drain e :: cleanupEvents e 0 ++ [.free e] }

variable [DecidableEq φ] [DecidableEq π]

theorem move_of_workThread {s s' : SpecState φ π} {r : Int}
    (h : workThread seqOps s r = some s') : Move s (.worker r) s' := by
  unfold workThread at h
  split at h
  case h_1 hw =>
    split at h
    · cases h; exact .begin r hw ‹_›
    · cases h
  case h_2 hw =>
    split at h
    · cases h; exact .leave r hw ‹_›
    · cases h; exact .stay r hw (Bool.eq_false_iff.mpr ‹_›)
  case h_3 hw => cases h; exact .park r hw
  case h_4 => cases h
  case h_5 hw =>
    split at h
    · cases h; exact .wake r hw ‹_›
    · cases h
  case h_6 hw =>
    split at h
    case isTrue hc =>
      cases h
      refine .retest r hw ?_
      simpa [seqOps] using hc
    case isFalse hc =>
      cases he : s.entries with
      | nil => simp [seqOps, he] at hc
      | cons e rest =>
        have hx : s.doExit = false := by simpa [seqOps, he] using hc
        simp only [seqOps, he, List.head?_cons, Option.bind_eq_bind, Option.bind_some,
          List.erase_cons_head] at h
        cases h
        exact .take r e rest hw he hx
  case h_7 e hw =>
    split at h
    case isTrue hr => cases h; subst hr; exact .succeed e hw
    case isFalse hr =>
      split at h
      case isTrue hn => cases h; exact .failAlone r e hw hr (Option.isNone_iff_eq_none.mp hn)
      case isFalse hn =>
        cases h
        refine .fail r e hw hr ?_
        simpa [Option.isSome_iff_ne_none] using hn
  case h_8 e err hw =>
    split at h
    case isTrue hr => cases h; subst hr; exact .forgive e err hw
    case isFalse hr => cases h; exact .giveUp r e err hw hr
  case h_9 e hw => cases h; exact .free r e hw
  case h_10 e hw => cases h; exact .unlock r e hw
  case h_11 e hw => cases h; exact .freeLast r e hw
  case h_12 => cases h

theorem move_of_workqueueEnqueue {s s' : SpecState φ π} {t : Nat} {req : Request φ π}
    (h : workqueueEnqueue seqOps s t req = some s') : Move s (.enqueuer t req) s' := by
  unfold workqueueEnqueue at h
  split at h
  case h_1 ht =>
    split at h
    · cases h; exact .calloc t req _ ht rfl
    · cases h; exact .refuse t req ht
  case h_2 e ht =>
    split at h
    · cases h; exact .acquire t req e ht ‹_›
    · cases h
  case h_3 e ht => cases h; exact .append t req e ht
  case h_4 e ht => cases h; exact .release t req e ht
  case h_5 e ht => cases h; exact .signal t req e ht

theorem move_of_stopWorkqueue {s s' : SpecState φ π} (h : stopWorkqueue seqOps s = some s') :
    Move s .stopper s' := by
  unfold stopWorkqueue at h
  split at h
  case h_1 hp => cases h; exact .stop hp
  case h_2 hp => cases h; exact .signalStop hp
  case h_3 hp =>
    split at h
    case h_1 hw => cases h; exact .join hp hw
    case h_2 => cases h
  case h_4 hp =>
    cases he : s.entries with
    | nil =>
      have hempty : seqOps.llistIsEmpty s.entries = true := by rw [he]; rfl
      rw [if_pos hempty] at h
      cases h
      exact .finish hp he
    | cons e rest =>
      simp only [seqOps, he, List.isEmpty_cons, Bool.false_eq_true, ↓reduceIte, List.head?_cons,
        Option.bind_eq_bind, Option.bind_some, List.erase_cons_head] at h
      cases h
      exact .drain e rest hp he
  case h_5 => cases h

/-- **Every step is a move.** -/
theorem move_of_step {s s' : SpecState φ π} {a : Action φ π}
    (h : (specQueue φ π).step s a = some s') : Move s a s' := by
  cases a with
  | worker r => exact move_of_workThread h
  | enqueuer t req => exact move_of_workqueueEnqueue h
  | stopper => exact move_of_stopWorkqueue h

/-- The invariant rule of the queue: what moves keep holds in every run. -/
theorem invariant_of_moves {ok : SpecState φ π → Action φ π → Prop} {P : SpecState φ π → Prop}
    (hinit : P (specQueue φ π).init)
    (hmove : ∀ s a s', (specQueue φ π).ReachableBy ok s → P s → ok s a → Move s a s' → P s')
    {s : SpecState φ π} (hs : (specQueue φ π).ReachableBy ok s) : P s :=
  hs.invariant hinit fun s a s' hr hP hok he => hmove s a s' hr hP hok (move_of_step he)

end Pixelflut.Workqueue
