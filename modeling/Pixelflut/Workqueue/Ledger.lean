import Mathlib.Data.List.Nodup
import Pixelflut.Workqueue.Moves

/-!
# The ledger of the queue

Invariants of the queue over sequences, in every run.

* `Locks`: who is inside a locked section owns the lock;
* `Fresh`: every append is of a new entry;
* `Ledger`: what has been removed and drained, together with what is still on
  the list, is what has been appended, in order; the callbacks started are
  those of the removed entries; and everything removed or drained has been
  freed, but for the entry that the worker has in hand.
-/

namespace Pixelflut.Workqueue

open Function (update)

variable {ε φ π : Type}

/-! ## Reading the trace -/

/-- The appended entries, in order. -/
def appended (tr : List (Event ε)) : List ε := tr.filterMap fun
  | .append e => some e
  | _ => none

/-- The entries removed by the worker. -/
def removed (tr : List (Event ε)) : List ε := tr.filterMap fun
  | .remove e => some e
  | _ => none

/-- The entries whose callback has been started. -/
def started (tr : List (Event ε)) : List ε := tr.filterMap fun
  | .cbStart e => some e
  | _ => none

/-- The entries drained by `stop_workqueue`. -/
def drained (tr : List (Event ε)) : List ε := tr.filterMap fun
  | .drain e => some e
  | _ => none

def freed (tr : List (Event ε)) : List ε := tr.filterMap fun
  | .free e => some e
  | _ => none

@[simp] theorem appended_append (tr tr' : List (Event ε)) :
    appended (tr ++ tr') = appended tr ++ appended tr' := List.filterMap_append

@[simp] theorem removed_append (tr tr' : List (Event ε)) :
    removed (tr ++ tr') = removed tr ++ removed tr' := List.filterMap_append

@[simp] theorem started_append (tr tr' : List (Event ε)) :
    started (tr ++ tr') = started tr ++ started tr' := List.filterMap_append

@[simp] theorem drained_append (tr tr' : List (Event ε)) :
    drained (tr ++ tr') = drained tr ++ drained tr' := List.filterMap_append

@[simp] theorem freed_append (tr tr' : List (Event ε)) :
    freed (tr ++ tr') = freed tr ++ freed tr' := List.filterMap_append

/-- An event that is not on any of the five accounts. -/
def Event.isQuiet : Event ε → Bool
  | .cbEnd _ _ | .errEnd _ _ | .cleanup _ _ | .park => true
  | _ => false

theorem accounts_quiet {evs : List (Event ε)} (h : ∀ ev ∈ evs, ev.isQuiet = true) :
    appended evs = [] ∧ removed evs = [] ∧ started evs = [] ∧ drained evs = [] ∧ freed evs = [] := by
  refine ⟨?_, ?_, ?_, ?_, ?_⟩
  all_goals
    apply List.filterMap_eq_nil_iff.mpr
    intro ev hev
    have hq := h ev hev
    cases ev <;> first | rfl | cases hq

theorem cleanupEvents_quiet (e : WorkqueueEntry φ π) (err : Int) :
    ∀ ev ∈ cleanupEvents e err, ev.isQuiet = true := by
  unfold cleanupEvents
  split <;> simp [Event.isQuiet]

theorem accounts_append_event (e : ε) :
    appended [Event.append e] = [e] ∧ removed [Event.append e] = [] ∧
      started [Event.append e] = [] ∧ drained [Event.append e] = [] ∧
      freed [Event.append e] = [] :=
  ⟨rfl, rfl, rfl, rfl, rfl⟩

theorem accounts_take_events (e : ε) :
    appended [Event.remove e, .cbStart e] = [] ∧ removed [Event.remove e, .cbStart e] = [e] ∧
      started [Event.remove e, .cbStart e] = [e] ∧ drained [Event.remove e, .cbStart e] = [] ∧
      freed [Event.remove e, .cbStart e] = [] :=
  ⟨rfl, rfl, rfl, rfl, rfl⟩

theorem accounts_free_event (e : ε) :
    appended [Event.free e] = [] ∧ removed [Event.free e] = [] ∧ started [Event.free e] = [] ∧
      drained [Event.free e] = [] ∧ freed [Event.free e] = [e] :=
  ⟨rfl, rfl, rfl, rfl, rfl⟩

theorem accounts_drain_event (e : ε) :
    appended [Event.drain e] = [] ∧ removed [Event.drain e] = [] ∧ started [Event.drain e] = [] ∧
      drained [Event.drain e] = [e] ∧ freed [Event.drain e] = [] :=
  ⟨rfl, rfl, rfl, rfl, rfl⟩

/-- The call of `cleanup` is on no account. -/
theorem accounts_cons_cleanup (ev : Event (WorkqueueEntry φ π)) (e : WorkqueueEntry φ π)
    (err : Int) :
    appended (ev :: cleanupEvents e err) = appended [ev] ∧
      removed (ev :: cleanupEvents e err) = removed [ev] ∧
      started (ev :: cleanupEvents e err) = started [ev] ∧
      drained (ev :: cleanupEvents e err) = drained [ev] ∧
      freed (ev :: cleanupEvents e err) = freed [ev] := by
  obtain ⟨ha, hr, hs, hd, hf⟩ := accounts_quiet (cleanupEvents_quiet e err)
  rw [← List.singleton_append, appended_append, removed_append, started_append, drained_append,
    freed_append, ha, hr, hs, hd, hf]
  simp only [List.append_nil, and_self]

/-! ## Where an entry may be -/

/-- The entry that the worker has removed and not yet freed. -/
def WorkerPc.hand : WorkerPc ε → List ε
  | .running e | .handler e _ | .next e | .failing e | .unlocked e => [e]
  | _ => []

/-- The worker is inside the section that it locks. -/
def WorkerPc.isInside : WorkerPc ε → Bool
  | .start | .parked | .woken | .unlocked _ | .returned => false
  | _ => true

/-- The thread is inside the section that it locks. -/
def EnqueuerPc.isInside : EnqueuerPc ε → Bool
  | .locked _ | .appended _ => true
  | _ => false

/-- The entry that the thread has filled in and not yet appended. -/
def EnqueuerPc.unappended : EnqueuerPc ε → Option ε
  | .ready e | .locked e => some e
  | _ => none

theorem WorkerPc.hand_wake (pc : WorkerPc ε) : pc.wake.hand = pc.hand := by
  cases pc <;> rfl

theorem WorkerPc.isInside_wake (pc : WorkerPc ε) : pc.wake.isInside = pc.isInside := by
  cases pc <;> rfl

/-! ## The lock -/

/-- Who is inside a locked section owns the lock. -/
structure Locks {σ : Type} (s : State σ ε) : Prop where
  worker : s.worker.isInside = true → s.lock = some .worker
  enqueuer : ∀ t, (s.enqueuer t).isInside = true → s.lock = some (.enqueuer t)

/-- Threads inside exclude each other. -/
theorem Locks.exclusive {σ : Type} {s : State σ ε} (h : Locks s) {t : Nat}
    (hw : s.worker.isInside = true) : (s.enqueuer t).isInside = false := by
  cases ht : (s.enqueuer t).isInside with
  | false => rfl
  | true => cases (h.worker hw).symm.trans (h.enqueuer t ht)

theorem Locks.init {σ : Type} (L : ListOps σ (WorkqueueEntry φ π)) : Locks (initState L) := by
  constructor
  case worker => intro h; cases h
  case enqueuer => intro t h; cases h

/-- After thread `t` has moved, what holds of a thread holds of the new place of
`t`, or it held before of another thread. -/
theorem update_cases {α : Type} {f : Nat → α} {t t' : Nat} {v : α} (P : α → Prop)
    (h : P (update f t v t')) : t' = t ∧ P v ∨ t' ≠ t ∧ P (f t') := by
  by_cases ht : t' = t
  · rw [ht, Function.update_self] at h
    exact .inl ⟨ht, h⟩
  · rw [Function.update_of_ne ht] at h
    exact .inr ⟨ht, h⟩

theorem Locks.move {s s' : SpecState φ π} {a : Action φ π} (h : Locks s) (hm : Move s a s') :
    Locks s' := by
  -- a thread inside owns the lock, so it excludes the worker and the other threads
  have hfree : s.lock = none → ∀ t, (s.enqueuer t).isInside ≠ true := fun hl t ht => by
    cases hl.symm.trans (h.enqueuer t ht)
  have hout : s.worker.isInside = true → ∀ t, (s.enqueuer t).isInside ≠ true := fun hw t ht => by
    rw [h.exclusive hw] at ht
    cases ht
  cases hm
  case begin hw hl => exact ⟨fun _ => rfl, fun t ht => absurd ht (hfree hl t)⟩
  case wake hw hl => exact ⟨fun _ => rfl, fun t ht => absurd ht (hfree hl t)⟩
  case park hw => exact ⟨(fun hin => by cases hin), fun t ht => absurd ht (hout (by rw [hw]; rfl) t)⟩
  case unlock hw => exact ⟨(fun hin => by cases hin), fun t ht => absurd ht (hout (by rw [hw]; rfl) t)⟩
  case freeLast hw => exact ⟨(fun hin => by cases hin), h.enqueuer⟩
  case calloc t req e ht he =>
    refine ⟨h.worker, fun t' ht' => ?_⟩
    obtain ⟨-, hin⟩ | ⟨-, hin⟩ := update_cases (EnqueuerPc.isInside · = true) ht'
    · cases hin
    · exact h.enqueuer t' hin
  case acquire t req e ht hl =>
    constructor
    case worker => intro hin; cases hl.symm.trans (h.worker hin)
    case enqueuer =>
      intro t' ht'
      obtain ⟨rfl, -⟩ | ⟨-, hin⟩ := update_cases (EnqueuerPc.isInside · = true) ht'
      · rfl
      · exact absurd hin (hfree hl t')
  case append t req e ht =>
    refine ⟨h.worker, fun t' ht' => ?_⟩
    obtain ⟨rfl, -⟩ | ⟨-, hin⟩ := update_cases (EnqueuerPc.isInside · = true) ht'
    · exact h.enqueuer t' (by rw [ht]; rfl)
    · exact h.enqueuer t' hin
  case release t req e ht =>
    have hin : (s.enqueuer t).isInside = true := by rw [ht]; rfl
    constructor
    case worker => exact fun hw => absurd hin (hout hw t)
    case enqueuer =>
      intro t' ht'
      obtain ⟨-, hin'⟩ | ⟨hne, hin'⟩ := update_cases (EnqueuerPc.isInside · = true) ht'
      · cases hin'
      · cases (h.enqueuer t hin).symm.trans (h.enqueuer t' hin')
        exact absurd rfl hne
  case signal t req e ht =>
    refine ⟨fun hin => h.worker (s.worker.isInside_wake ▸ hin), fun t' ht' => ?_⟩
    obtain ⟨-, hin⟩ | ⟨-, hin⟩ := update_cases (EnqueuerPc.isInside · = true) ht'
    · cases hin
    · exact h.enqueuer t' hin
  case signalStop => exact ⟨fun hin => h.worker (s.worker.isInside_wake ▸ hin), h.enqueuer⟩
  case refuse => exact h
  case stop => exact ⟨h.worker, h.enqueuer⟩
  case join => exact ⟨h.worker, h.enqueuer⟩
  case finish => exact ⟨h.worker, h.enqueuer⟩
  case drain => exact ⟨h.worker, h.enqueuer⟩
  -- the other moves of the worker start inside and leave the lock alone
  all_goals exact ⟨fun _ => h.worker (by simp [*, WorkerPc.isInside]), h.enqueuer⟩

/-! ## New entries -/

theorem unappended_update {f : Nat → EnqueuerPc ε} {t : Nat} {pc : EnqueuerPc ε}
    (h : pc.unappended = (f t).unappended) (t' : Nat) :
    (update f t pc t').unappended = (f t').unappended := by
  by_cases ht : t' = t
  · rw [ht, Function.update_self, h]
  · rw [Function.update_of_ne ht]

/-- The addresses of the appended entries. -/
def appendedIds (tr : List (Event (WorkqueueEntry φ π))) : List Nat :=
  (appended tr).map WorkqueueEntry.id

/-- No address is appended twice. -/
structure Fresh {σ : Type} (s : State σ (WorkqueueEntry φ π)) : Prop where
  old : ∀ i ∈ appendedIds s.trace, i < s.nextId
  nodup : (appendedIds s.trace).Nodup
  unappended : ∀ t e, (s.enqueuer t).unappended = some e →
    e.id < s.nextId ∧ e.id ∉ appendedIds s.trace
  distinct : ∀ t t' e e', (s.enqueuer t).unappended = some e →
    (s.enqueuer t').unappended = some e' → e.id = e'.id → t = t'

theorem Fresh.init {σ : Type} (L : ListOps σ (WorkqueueEntry φ π)) : Fresh (initState L) := by
  constructor
  case old => exact fun i hi => absurd hi List.not_mem_nil
  case nodup => exact List.nodup_nil
  case unappended => intro t e h; cases h
  case distinct => intro t t' e e' h; cases h

/-- Only the appended entries and those not yet appended matter. -/
theorem Fresh.of_eq {σ : Type} {s s' : State σ (WorkqueueEntry φ π)} (h : Fresh s)
    (htr : appended s'.trace = appended s.trace) (hid : s'.nextId = s.nextId)
    (hen : ∀ t, (s'.enqueuer t).unappended = (s.enqueuer t).unappended) : Fresh s' := by
  have hids : appendedIds s'.trace = appendedIds s.trace := congrArg (List.map _) htr
  constructor
  case old => rw [hids, hid]; exact h.old
  case nodup => rw [hids]; exact h.nodup
  case unappended =>
    intro t e he
    rw [hids, hid]
    exact h.unappended t e (hen t ▸ he)
  case distinct =>
    intro t t' e e' he he'
    exact h.distinct t t' e e' (hen t ▸ he) (hen t' ▸ he')

/-- A new block has an address above all others. -/
theorem Fresh.calloc {s : SpecState φ π} (h : Fresh s) {t : Nat} {e : WorkqueueEntry φ π}
    (hid : e.id = s.nextId) :
    Fresh { s with enqueuer := update s.enqueuer t (.ready e), nextId := s.nextId + 1 } := by
  have hcases : ∀ t' e', (update s.enqueuer t (.ready e) t').unappended = some e' →
      t' = t ∧ e = e' ∨ t' ≠ t ∧ (s.enqueuer t').unappended = some e' := by
    intro t' e' he'
    simpa [EnqueuerPc.unappended] using update_cases (EnqueuerPc.unappended · = some e') he'
  constructor
  case old => exact fun i hi => Nat.lt_succ_of_lt (h.old i hi)
  case nodup => exact h.nodup
  case unappended =>
    intro t' e' he'
    rcases hcases t' e' he' with ⟨-, rfl⟩ | ⟨-, hold⟩
    · refine ⟨?_, fun hmem => ?_⟩
      · rw [hid]
        exact Nat.lt_succ_self _
      · have := h.old _ hmem
        omega
    · obtain ⟨hlt, hnew⟩ := h.unappended t' e' hold
      exact ⟨Nat.lt_succ_of_lt hlt, hnew⟩
  case distinct =>
    intro t₁ t₂ e₁ e₂ he₁ he₂ hids
    rcases hcases t₁ e₁ he₁ with ⟨rfl, rfl⟩ | ⟨-, hold₁⟩
    · rcases hcases t₂ e₂ he₂ with ⟨rfl, -⟩ | ⟨-, hold₂⟩
      · rfl
      · have := (h.unappended t₂ e₂ hold₂).1
        omega
    · rcases hcases t₂ e₂ he₂ with ⟨rfl, rfl⟩ | ⟨-, hold₂⟩
      · have := (h.unappended t₁ e₁ hold₁).1
        omega
      · exact h.distinct t₁ t₂ e₁ e₂ hold₁ hold₂ hids

/-- The appended entry leaves the entries that are not yet appended. -/
theorem Fresh.append {s s' : SpecState φ π} (h : Fresh s) {t : Nat} {e : WorkqueueEntry φ π}
    (ht : s.enqueuer t = .locked e) (htr : s'.trace = s.trace ++ [.append e])
    (hid : s'.nextId = s.nextId) (hen : s'.enqueuer = update s.enqueuer t (.appended e)) :
    Fresh s' := by
  have hun : (s.enqueuer t).unappended = some e := by rw [ht]; rfl
  obtain ⟨hlt, hnew⟩ := h.unappended t e hun
  have hids : appendedIds s'.trace = appendedIds s.trace ++ [e.id] := by
    simp [htr, appendedIds, appended]
  have hother : ∀ t' e', (s'.enqueuer t').unappended = some e' →
      t' ≠ t ∧ (s.enqueuer t').unappended = some e' := by
    intro t' e' he'
    rw [hen] at he'
    simpa [EnqueuerPc.unappended] using update_cases (EnqueuerPc.unappended · = some e') he'
  constructor
  case old =>
    intro i hi
    rw [hids, List.mem_append, List.mem_singleton] at hi
    rw [hid]
    rcases hi with hi | rfl
    · exact h.old i hi
    · exact hlt
  case nodup =>
    rw [hids, ← List.concat_eq_append]
    exact h.nodup.concat hnew
  case unappended =>
    intro t' e' he'
    obtain ⟨hne, hold⟩ := hother t' e' he'
    rw [hids, hid, List.mem_append, List.mem_singleton]
    refine ⟨(h.unappended t' e' hold).1, fun hmem => ?_⟩
    rcases hmem with hmem | hid'
    · exact (h.unappended t' e' hold).2 hmem
    · exact hne (h.distinct t' t e' e hold hun hid')
  case distinct =>
    intro t₁ t₂ e₁ e₂ he₁ he₂ hid'
    exact h.distinct t₁ t₂ e₁ e₂ (hother t₁ e₁ he₁).2 (hother t₂ e₂ he₂).2 hid'

theorem Fresh.move {s s' : SpecState φ π} {a : Action φ π} (h : Fresh s) (hm : Move s a s') :
    Fresh s' := by
  cases hm
  case calloc t req e ht he => exact h.calloc (by rw [he])
  case append t req e ht => exact h.append ht rfl rfl rfl
  case acquire t req e ht hl =>
    exact h.of_eq rfl rfl (unappended_update (by rw [ht]; rfl))
  case release t req e ht =>
    exact h.of_eq rfl rfl (unappended_update (by rw [ht]; rfl))
  case signal t req e ht =>
    exact h.of_eq rfl rfl (unappended_update (by rw [ht]; rfl))
  case failAlone e hw hr hn =>
    refine h.of_eq ?_ rfl fun _ => rfl
    rw [appended_append, (accounts_cons_cleanup _ _ _).1]
    exact List.append_nil _
  case giveUp e err hw hr =>
    refine h.of_eq ?_ rfl fun _ => rfl
    rw [appended_append, (accounts_cons_cleanup _ _ _).1]
    exact List.append_nil _
  case drain e rest hp he =>
    refine h.of_eq ?_ rfl fun _ => rfl
    rw [appended_append, appended_append, (accounts_cons_cleanup _ _ _).1, List.append_assoc]
    exact List.append_nil _
  all_goals exact h.of_eq (by simp [appended]) rfl fun _ => rfl

/-! ## The ledger -/

/-- `stop_workqueue` is past its `pthread_join`. -/
def StopperPc.isJoined : StopperPc → Bool
  | .draining | .done => true
  | _ => false

structure Ledger (s : SpecState φ π) : Prop where
  /-- Nothing is lost, and the order is kept. -/
  conserve : removed s.trace ++ drained s.trace ++ s.entries = appended s.trace
  started_eq : started s.trace = removed s.trace
  /-- One entry at most is not freed. -/
  freed_eq : freed s.trace ++ s.worker.hand = removed s.trace ++ drained s.trace
  undrained : s.stopper.isJoined = false → drained s.trace = []
  joined : s.stopper.isJoined = true → s.worker = .returned

theorem Ledger.init [DecidableEq φ] [DecidableEq π] : Ledger (specQueue φ π).init := by
  constructor
  case conserve => rfl
  case started_eq => rfl
  case freed_eq => rfl
  case undrained => exact fun _ => rfl
  case joined => intro h; cases h

/-- Events that are on no account change nothing. -/
theorem Ledger.of_quiet {s s' : SpecState φ π} (h : Ledger s) {evs : List (Event _)}
    (hq : ∀ ev ∈ evs, ev.isQuiet = true) (htr : s'.trace = s.trace ++ evs)
    (hentries : s'.entries = s.entries) (hhand : s'.worker.hand = s.worker.hand)
    (hundrained : s'.stopper.isJoined = false → s.stopper.isJoined = false)
    (hjoined : s'.stopper.isJoined = true → s'.worker = .returned) : Ledger s' := by
  obtain ⟨ha, hr, hs, hd, hf⟩ := accounts_quiet hq
  constructor
  case conserve => simpa [htr, ha, hr, hd, hentries] using h.conserve
  case started_eq => simpa [htr, hr, hs] using h.started_eq
  case freed_eq => simpa [htr, hr, hd, hf, hhand] using h.freed_eq
  case undrained => intro hn; simpa [htr, hd] using h.undrained (hundrained hn)
  case joined => exact hjoined

/-- While the worker is running nothing has been drained. -/
theorem Ledger.unjoined {s : SpecState φ π} (h : Ledger s) (hw : s.worker ≠ .returned) :
    s.stopper.isJoined = false := by
  cases hj : s.stopper.isJoined with
  | false => rfl
  | true => exact absurd (h.joined hj) hw

/-- A quiet move of the worker that keeps what it has in hand. -/
theorem Ledger.of_worker {s s' : SpecState φ π} (h : Ledger s) {evs : List (Event _)}
    (hq : ∀ ev ∈ evs, ev.isQuiet = true) (htr : s'.trace = s.trace ++ evs)
    (hentries : s'.entries = s.entries) (hhand : s'.worker.hand = s.worker.hand)
    (hstop : s'.stopper = s.stopper) (hw : s.worker ≠ .returned) : Ledger s' := by
  have hun := h.unjoined hw
  refine h.of_quiet hq htr hentries hhand (fun _ => hun) fun hj => ?_
  rw [hstop, hun] at hj
  cases hj

/-- The worker frees what it has in hand. -/
theorem Ledger.of_free {s s' : SpecState φ π} (h : Ledger s) {e : WorkqueueEntry φ π}
    (hhand : s.worker.hand = [e]) (htr : s'.trace = s.trace ++ [.free e])
    (hentries : s'.entries = s.entries) (hhand' : s'.worker.hand = [])
    (hstop : s'.stopper = s.stopper) (hw : s.worker ≠ .returned) : Ledger s' := by
  have hun := h.unjoined hw
  have hfreed := h.freed_eq
  rw [hhand] at hfreed
  obtain ⟨ha, hr, hs, hd, hf⟩ := accounts_free_event e
  constructor
  case conserve => simpa [htr, hentries, ha, hr, hd] using h.conserve
  case started_eq => simpa [htr, hs, hr] using h.started_eq
  case freed_eq => simpa [htr, hhand', hf, hr, hd] using hfreed
  case undrained => intro hn; simpa [htr, hd] using h.undrained hun
  case joined => intro hj; rw [hstop, hun] at hj; cases hj

/-- The worker takes the first entry off the list. -/
theorem Ledger.of_take {s s' : SpecState φ π} (h : Ledger s) {e : WorkqueueEntry φ π}
    (he : s.entries = e :: s'.entries) (hhand : s.worker.hand = []) (hw : s.worker ≠ .returned)
    (htr : s'.trace = s.trace ++ [.remove e, .cbStart e]) (hhand' : s'.worker.hand = [e])
    (hstop : s'.stopper = s.stopper) : Ledger s' := by
  have hun := h.unjoined hw
  have hd := h.undrained hun
  have hconserve := h.conserve
  have hfreed := h.freed_eq
  rw [hd, he] at hconserve
  rw [hd, hhand] at hfreed
  obtain ⟨ha', hr', hs', hd', hf'⟩ := accounts_take_events e
  constructor
  case conserve => simpa [htr, ha', hr', hd', hd] using hconserve
  case started_eq => simpa [htr, hs', hr'] using h.started_eq
  case freed_eq => simpa [htr, hhand', hf', hr', hd', hd] using hfreed
  case undrained => intro _; simpa [htr, hd'] using hd
  case joined => intro hj; rw [hstop, hun] at hj; cases hj

/-- `stop_workqueue` drains the first entry; the worker has returned, with
nothing in hand. -/
theorem Ledger.of_drain {s s' : SpecState φ π} (h : Ledger s) {e : WorkqueueEntry φ π}
    (he : s.entries = e :: s'.entries) (hj : s.stopper.isJoined = true)
    (htr : s'.trace = s.trace ++ .drain e :: cleanupEvents e 0 ++ [.free e])
    (hworker : s'.worker = s.worker) (hstop : s'.stopper = s.stopper) : Ledger s' := by
  have hhand : s.worker.hand = [] := by rw [h.joined hj]; rfl
  have hconserve := h.conserve
  have hfreed := h.freed_eq
  rw [he] at hconserve
  rw [hhand] at hfreed
  obtain ⟨ha, hr, hs, hd, hf⟩ := accounts_cons_cleanup (.drain e) e 0
  obtain ⟨ha₁, hr₁, hs₁, hd₁, hf₁⟩ := accounts_drain_event e
  obtain ⟨ha₂, hr₂, hs₂, hd₂, hf₂⟩ := accounts_free_event e
  constructor
  case conserve =>
    simp only [htr, appended_append, removed_append, drained_append, ha, ha₁, ha₂, hr, hr₁, hr₂,
      hd, hd₁, hd₂]
    simpa using hconserve
  case started_eq =>
    simp only [htr, started_append, removed_append, hs, hs₁, hs₂, hr, hr₁, hr₂]
    simpa using h.started_eq
  case freed_eq =>
    simp only [htr, hworker, freed_append, removed_append, drained_append, hf, hf₁, hf₂, hr, hr₁,
      hr₂, hd, hd₁, hd₂, hhand, List.append_nil]
    rw [← List.append_assoc, ← hfreed, List.append_nil]
  case undrained => intro hn; rw [hstop, hj] at hn; cases hn
  case joined => exact fun _ => hworker ▸ h.joined hj

theorem Ledger.move {s s' : SpecState φ π} {a : Action φ π} (h : Ledger s) (hm : Move s a s') :
    Ledger s' := by
  have nil_quiet : ∀ ev ∈ ([] : List (Event (WorkqueueEntry φ π))), ev.isQuiet = true :=
    fun _ hev => absurd hev List.not_mem_nil
  have single_quiet : ∀ ev : Event (WorkqueueEntry φ π), ev.isQuiet = true →
      ∀ ev' ∈ [ev], ev'.isQuiet = true := fun ev hq ev' hev => List.eq_of_mem_singleton hev ▸ hq
  have cleanup_quiet : ∀ (ev : Event (WorkqueueEntry φ π)) e err, ev.isQuiet = true →
      ∀ ev' ∈ ev :: cleanupEvents e err, ev'.isQuiet = true :=
    fun ev e err hq => List.forall_mem_cons.mpr ⟨hq, cleanupEvents_quiet e err⟩
  have hnil := (List.append_nil s.trace).symm
  cases hm
  case take r e rest hw he hx =>
    exact h.of_take he (by rw [hw]; rfl) (by simp [hw]) rfl rfl rfl
  case drain e rest hp he => exact h.of_drain he (by rw [hp]; rfl) rfl rfl rfl
  case append t req e ht =>
    obtain ⟨ha', hr', hs', hd', hf'⟩ := accounts_append_event e
    constructor
    case conserve => simp [ha', hr', hd', ← h.conserve]
    case started_eq => simpa [hs', hr'] using h.started_eq
    case freed_eq => simpa [hf', hr', hd'] using h.freed_eq
    case undrained => intro hn; simpa [hd'] using h.undrained hn
    case joined => exact h.joined
  case free r e hw => exact h.of_free (by rw [hw]; rfl) rfl rfl rfl rfl (by simp [hw])
  case freeLast r e hw => exact h.of_free (by rw [hw]; rfl) rfl rfl rfl rfl (by simp [hw])
  case begin r hw hl => exact h.of_worker nil_quiet hnil rfl (by rw [hw]; rfl) rfl (by simp [hw])
  case leave r hw hx =>
    have hun := h.unjoined (by simp [hw])
    exact h.of_quiet nil_quiet hnil rfl (by rw [hw]; rfl) id fun _ => rfl
  case stay r hw hx => exact h.of_worker nil_quiet hnil rfl (by rw [hw]; rfl) rfl (by simp [hw])
  case park r hw =>
    exact h.of_worker (single_quiet .park rfl) rfl rfl (by rw [hw]; rfl) rfl (by simp [hw])
  case wake r hw hl => exact h.of_worker nil_quiet hnil rfl (by rw [hw]; rfl) rfl (by simp [hw])
  case retest r hw hc => exact h.of_worker nil_quiet hnil rfl (by rw [hw]; rfl) rfl (by simp [hw])
  case succeed e hw =>
    exact h.of_worker (single_quiet (.cbEnd e 0) rfl) rfl rfl (by rw [hw]; rfl) rfl (by simp [hw])
  case failAlone r e hw hr hn =>
    exact h.of_worker (cleanup_quiet (.cbEnd e r) e r rfl) rfl rfl (by rw [hw]; rfl) rfl
      (by simp [hw])
  case fail r e hw hr hn =>
    exact h.of_worker (single_quiet (.cbEnd e r) rfl) rfl rfl (by rw [hw]; rfl) rfl (by simp [hw])
  case forgive e err hw =>
    exact h.of_worker (single_quiet (.errEnd e 0) rfl) rfl rfl (by rw [hw]; rfl) rfl (by simp [hw])
  case giveUp r e err hw hr =>
    exact h.of_worker (cleanup_quiet (.errEnd e r) e err rfl) rfl rfl (by rw [hw]; rfl) rfl
      (by simp [hw])
  case unlock r e hw => exact h.of_worker nil_quiet hnil rfl (by rw [hw]; rfl) rfl (by simp [hw])
  case calloc => exact h.of_quiet nil_quiet hnil rfl rfl id h.joined
  case refuse => exact h
  case acquire => exact h.of_quiet nil_quiet hnil rfl rfl id h.joined
  case release => exact h.of_quiet nil_quiet hnil rfl rfl id h.joined
  case signal =>
    exact h.of_quiet nil_quiet hnil rfl s.worker.hand_wake id fun hj => by
      rw [h.joined hj]
      rfl
  case stop hp =>
    exact h.of_quiet nil_quiet hnil rfl rfl (fun _ => by rw [hp]; rfl) fun hj => by cases hj
  case signalStop hp =>
    exact h.of_quiet nil_quiet hnil rfl s.worker.hand_wake (fun _ => by rw [hp]; rfl) fun hj => by
      cases hj
  case join hp hw =>
    exact h.of_quiet nil_quiet hnil rfl rfl (fun _ => by rw [hp]; rfl) fun _ => hw
  case finish hp he =>
    exact h.of_quiet nil_quiet hnil rfl rfl (fun hn => by cases hn) fun _ =>
      h.joined (by rw [hp]; rfl)

end Pixelflut.Workqueue
