import Pixelflut.LList.Refinement
import Pixelflut.Workqueue.Ledger

/-!
# The queue over memory refines the queue over sequences

`Refines` relates a state of the queue to one over sequences: the memory holds
the sequence, and everything else is equal. `queueBisimulation` shows that
related states enable the same steps and stay related, so that the list
functions never fault and every run of the queue is one over sequences.
-/

namespace Pixelflut.Workqueue

open Function (update)
open Lib.Transition LList

variable {φ π : Type} [DecidableEq φ] [DecidableEq π]

abbrev MemState (φ π : Type) := State (EntryMem φ π) (WorkqueueEntry φ π)

/-- The memory `m` holds the sequence `l`; the entries `Es` are initialised. -/
def Holds (Es : Set (WorkqueueEntry φ π)) (m : EntryMem φ π) (l : List (WorkqueueEntry φ π)) : Prop :=
  Represents Set.univ Es m fun _ => l

section Holds

variable {Es : Set (WorkqueueEntry φ π)} {m : EntryMem φ π} {l : List (WorkqueueEntry φ π)}

theorem holds_init (garbage : EntryMem φ π) : Holds ∅ ((memOps garbage).llistInit) [] := by
  constructor
  case forward =>
    intro L _
    exact Function.update_self () none garbage.head
  case backward =>
    intro L _
    exact Function.update_self () none garbage.tail
  case nodup => exact fun _ _ => List.nodup_nil
  case known => exact fun _ _ e he => absurd he List.not_mem_nil
  case owner => exact fun e he => absurd he id
  case loose => exact fun e he => absurd he id

theorem Holds.llistIsEmpty_eq (h : Holds Es m l) (garbage : EntryMem φ π) :
    (memOps garbage).llistIsEmpty m = l.isEmpty :=
  Represents.llistIsEmpty_eq h (Set.mem_univ ())

theorem Holds.llistGetEntry_eq (h : Holds Es m l) (garbage : EntryMem φ π) :
    (memOps garbage).llistGetEntry m = l.head? :=
  congrArg Option.join (Represents.llistGetEntry_zero h (Set.mem_univ ()) 0)

theorem Holds.llistRemove (h : Holds Es m l) (garbage : EntryMem φ π)
    {e : WorkqueueEntry φ π} (he : e ∈ l) :
    ∃ m', (memOps garbage).llistRemove m e = some m' ∧ Holds Es m' (l.erase e) :=
  Represents.remove_represents h (Set.mem_univ ()) he

theorem Holds.llistAppend (h : Holds Es m l) (garbage : EntryMem φ π)
    {e : WorkqueueEntry φ π} (he : e ∈ Es) (hl : e ∉ l) :
    ∃ m', (memOps garbage).llistAppend m e = some m' ∧ Holds Es m' (l ++ [e]) := by
  obtain ⟨m', hm', h'⟩ := Represents.append_represents h (Set.mem_univ ()) he fun _ _ => hl
  exact ⟨m', hm', h'.congr fun _ _ => (Family.append_self (fun _ => l) () e).symm⟩

theorem Holds.llistEntryInit (h : Holds Es m l) (garbage : EntryMem φ π)
    {e : WorkqueueEntry φ π} (he : e ∉ Es) :
    Holds (insert e Es) ((memOps garbage).llistEntryInit m e) l :=
  Represents.entryInit_represents h he

end Holds

/-- The state `c` with the sequence `l` for its list. -/
def State.over {σ τ ε : Type} (c : State σ ε) (l : τ) : State τ ε := { c with entries := l }

/-- The memory of `c` holds the entries of `a`, and the states agree otherwise. -/
structure Refines (c : MemState φ π) (a : SpecState φ π) : Prop where
  rest : a = c.over a.entries
  holds : ∃ Es, Holds Es c.entries a.entries ∧ (∀ e ∈ Es, e.id < c.nextId) ∧
    ∀ t e, (c.enqueuer t).unappended = some e → e ∈ Es

omit [DecidableEq φ] [DecidableEq π] in
/-- A step that leaves the list and the entries of the enqueuers alone. -/
theorem Refines.of_same {c c' : MemState φ π} {a a' : SpecState φ π} (h : Refines c a)
    (hrest : a' = c'.over a.entries) (hentries : c'.entries = c.entries)
    (hid : c'.nextId = c.nextId)
    (hun : ∀ t e, (c'.enqueuer t).unappended = some e → (c.enqueuer t).unappended = some e) :
    Refines c' a' := by
  obtain ⟨Es, hholds, hlt, hin⟩ := h.holds
  have ha : a'.entries = a.entries := by rw [hrest]; rfl
  refine ⟨ha ▸ hrest, Es, ?_, ?_, fun t e he => hin t e (hun t e he)⟩
  · rw [ha, hentries]
    exact hholds
  · rw [hid]
    exact hlt

omit [DecidableEq φ] [DecidableEq π] in
theorem Refines.some_of_same {c : MemState φ π} {a : SpecState φ π} (h : Refines c a)
    (c' : MemState φ π) (hentries : c'.entries = c.entries) (hid : c'.nextId = c.nextId)
    (hen : c'.enqueuer = c.enqueuer) :
    Option.Rel Refines (some c') (some (c'.over a.entries)) :=
  .some (h.of_same rfl hentries hid fun _ _ he => hen ▸ he)

/-- Taking the first entry off the list. -/
theorem Holds.takeFirst {Es : Set (WorkqueueEntry φ π)} {m : EntryMem φ π}
    {e : WorkqueueEntry φ π} {l : List (WorkqueueEntry φ π)} (h : Holds Es m (e :: l))
    (garbage : EntryMem φ π) :
    (memOps garbage).llistGetEntry m = some e ∧
      ∃ m', (memOps garbage).llistRemove m e = some m' ∧ Holds Es m' l := by
  obtain ⟨m', hm', h'⟩ := h.llistRemove garbage List.mem_cons_self
  rw [List.erase_cons_head] at h'
  exact ⟨h.llistGetEntry_eq garbage, m', hm', h'⟩

theorem rel_ite {α β : Type} {R : α → β → Prop} {p : Prop} [Decidable p] {x y : Option α}
    {x' y' : Option β} (hx : p → Option.Rel R x x') (hy : ¬p → Option.Rel R y y') :
    Option.Rel R (if p then x else y) (if p then x' else y') := by
  by_cases hp : p
  · rw [if_pos hp, if_pos hp]
    exact hx hp
  · rw [if_neg hp, if_neg hp]
    exact hy hp

theorem workThread_refines (garbage : EntryMem φ π) {c : MemState φ π} {a : SpecState φ π}
    (h : Refines c a) (r : Int) :
    Option.Rel Refines (workThread (memOps garbage) c r) (workThread seqOps a r) := by
  obtain ⟨Es, hholds, hlt, hin⟩ := h.holds
  have same := h.some_of_same
  have hrest := h.rest
  generalize a.entries = l at *
  subst hrest
  unfold workThread
  simp only [State.over]
  cases hw : c.worker
  case start => exact rel_ite (fun _ => same _ rfl rfl rfl) fun _ => .none
  case test => exact rel_ite (fun _ => same _ rfl rfl rfl) fun _ => same _ rfl rfl rfl
  case wait => exact same _ rfl rfl rfl
  case parked => exact .none
  case woken => exact rel_ite (fun _ => same _ rfl rfl rfl) fun _ => .none
  case loop =>
    simp only
    rw [hholds.llistIsEmpty_eq garbage]
    refine rel_ite (fun _ => same _ rfl rfl rfl) fun hc => ?_
    cases l with
    | nil => simp at hc
    | cons e rest =>
      obtain ⟨hget, m', hremove, hholds'⟩ := hholds.takeFirst garbage
      simp only [hget, hremove, seqOps, List.head?_cons, List.erase_cons_head, Option.bind_eq_bind,
        Option.bind_some]
      exact .some ⟨rfl, Es, hholds', hlt, hin⟩
  case running e =>
    refine rel_ite (fun _ => same _ rfl rfl rfl) fun _ => ?_
    exact rel_ite (fun _ => same _ rfl rfl rfl) fun _ => same _ rfl rfl rfl
  case handler e err => exact rel_ite (fun _ => same _ rfl rfl rfl) fun _ => same _ rfl rfl rfl
  case next e => exact same _ rfl rfl rfl
  case failing e => exact same _ rfl rfl rfl
  case unlocked e => exact same _ rfl rfl rfl
  case returned => exact .none

omit [DecidableEq φ] [DecidableEq π] in
/-- An entry that a thread still has to append is not on the list. -/
theorem unappended_not_mem {a : SpecState φ π} (hfresh : Fresh a) (hledger : Ledger a) {t : Nat}
    {e : WorkqueueEntry φ π} (he : (a.enqueuer t).unappended = some e) : e ∉ a.entries := by
  intro hmem
  have happended : e ∈ appended a.trace := by
    rw [← hledger.conserve]
    exact List.mem_append_right _ hmem
  exact (hfresh.unappended t e he).2 (List.mem_map_of_mem happended)

theorem workqueueEnqueue_refines (garbage : EntryMem φ π) {c : MemState φ π} {a : SpecState φ π}
    (h : Refines c a) (hfresh : Fresh a) (hledger : Ledger a) (t : Nat) (req : Request φ π) :
    Option.Rel Refines (workqueueEnqueue (memOps garbage) c t req)
      (workqueueEnqueue seqOps a t req) := by
  obtain ⟨Es, hholds, hlt, hin⟩ := h.holds
  have hnew := fun e => @unappended_not_mem φ π a hfresh hledger t e
  have hrest := h.rest
  have moved : ∀ c' : MemState φ π, ∀ pc, c'.entries = c.entries → c'.nextId = c.nextId →
      c'.enqueuer = update c.enqueuer t pc →
      (∀ e, pc.unappended = some e → (c.enqueuer t).unappended = some e) →
      Option.Rel Refines (some c') (some (c'.over a.entries)) := by
    intro c' pc hentries hid hen hpc
    refine .some (h.of_same rfl hentries hid fun t' e he => ?_)
    rw [hen] at he
    rcases update_cases (EnqueuerPc.unappended · = some e) he with ⟨rfl, hmoved⟩ | ⟨-, hold⟩
    · exact hpc e hmoved
    · exact hold
  generalize a.entries = l at *
  subst hrest
  unfold workqueueEnqueue
  simp only [State.over] at hnew ⊢
  cases ht : c.enqueuer t
  case idle =>
    refine rel_ite (fun _ => ?_) fun _ => .some h
    -- the new address is above those of all initialised entries
    have hout : ∀ e : WorkqueueEntry φ π, e.id = c.nextId → e ∉ Es := fun e hid he =>
      absurd (hlt e he) (by omega)
    refine .some ⟨rfl, _, hholds.llistEntryInit garbage (hout _ rfl), ?_, ?_⟩
    · rintro e (rfl | he)
      · exact Nat.lt_succ_self _
      · exact Nat.lt_succ_of_lt (hlt e he)
    · intro t' e he
      rcases update_cases (EnqueuerPc.unappended · = some e) he with ⟨-, hmoved⟩ | ⟨-, hold⟩
      · exact .inl (Option.some.inj hmoved).symm
      · exact .inr (hin t' e hold)
  case ready e =>
    refine rel_ite (fun _ => ?_) fun _ => .none
    exact moved _ (.locked e) rfl rfl rfl fun e' he' => by rw [ht]; exact he'
  case locked e =>
    have hun : (c.enqueuer t).unappended = some e := by rw [ht]; rfl
    obtain ⟨m', happend, hholds'⟩ := hholds.llistAppend garbage (hin t e hun) (hnew e hun)
    simp only [happend, seqOps, Option.bind_eq_bind, Option.bind_some]
    refine .some ⟨rfl, Es, hholds', hlt, fun t' e' he' => ?_⟩
    rcases update_cases (EnqueuerPc.unappended · = some e') he' with ⟨-, hmoved⟩ | ⟨-, hold⟩
    · cases hmoved
    · exact hin t' e' hold
  case appended e => exact moved _ (.unlocked e) rfl rfl rfl fun e' he' => by cases he'
  case unlocked e => exact moved _ .idle rfl rfl rfl fun e' he' => by cases he'

theorem stopWorkqueue_refines (garbage : EntryMem φ π) {c : MemState φ π} {a : SpecState φ π}
    (h : Refines c a) :
    Option.Rel Refines (stopWorkqueue (memOps garbage) c) (stopWorkqueue seqOps a) := by
  obtain ⟨Es, hholds, hlt, hin⟩ := h.holds
  have same := h.some_of_same
  have hrest := h.rest
  generalize a.entries = l at *
  subst hrest
  unfold stopWorkqueue
  simp only [State.over]
  cases hp : c.stopper
  case idle => exact same _ rfl rfl rfl
  case stored => exact same _ rfl rfl rfl
  case joining =>
    cases hw : c.worker
    case returned => exact same _ rfl rfl rfl
    all_goals exact .none
  case draining =>
    simp only
    rw [hholds.llistIsEmpty_eq garbage]
    refine rel_ite (fun _ => same _ rfl rfl rfl) fun hc => ?_
    cases l with
    | nil => simp at hc
    | cons e rest =>
      obtain ⟨hget, m', hremove, hholds'⟩ := hholds.takeFirst garbage
      simp only [hget, hremove, seqOps, List.head?_cons, List.erase_cons_head, Option.bind_eq_bind,
        Option.bind_some]
      exact .some ⟨rfl, Es, hholds', hlt, hin⟩
  case done => exact .none

/-! ## Runs -/

theorem locks_of_reachable {a : SpecState φ π} (ha : (specQueue φ π).Reachable a) : Locks a :=
  invariant_of_moves (Locks.init _) (fun _ _ _ _ h _ hm => h.move hm) ha

theorem fresh_of_reachable {a : SpecState φ π} (ha : (specQueue φ π).Reachable a) : Fresh a :=
  invariant_of_moves (Fresh.init _) (fun _ _ _ _ h _ hm => h.move hm) ha

theorem ledger_of_reachable {a : SpecState φ π} (ha : (specQueue φ π).Reachable a) : Ledger a :=
  invariant_of_moves Ledger.init (fun _ _ _ _ h _ hm => h.move hm) ha

/-- **The queue refines the queue over sequences**, and faults nowhere. -/
def queueBisimulation (garbage : EntryMem φ π) :
    Bisimulation (queue garbage) (specQueue φ π) where
  rel := Refines
  init := ⟨rfl, ∅, holds_init garbage, fun e he => absurd he id, fun _ _ he => by cases he⟩
  step {c a} ha h x := by
    cases x with
    | worker r => exact workThread_refines garbage h r
    | enqueuer t req =>
      exact workqueueEnqueue_refines garbage h (fresh_of_reachable ha) (ledger_of_reachable ha) t req
    | stopper => exact stopWorkqueue_refines garbage h

/-- In every state of a run the memory holds a sequence, and the queue over
sequences reaches the same state with it. Conditions on the steps carry over
when they do not read the list. -/
theorem exists_over (garbage : EntryMem φ π) {P : MemState φ π → Action φ π → Prop}
    {Q : SpecState φ π → Action φ π → Prop} (hPQ : ∀ c l x, P c x → Q (c.over l) x)
    {c : MemState φ π} (hc : (queue garbage).ReachableBy P c) :
    ∃ l Es, (specQueue φ π).ReachableBy Q (c.over l) ∧ Holds Es c.entries l := by
  obtain ⟨a, ha, hrel⟩ := (queueBisimulation garbage).reachableBy
    (fun c a x hrel hx => by rw [Refines.rest hrel]; exact hPQ c a.entries x hx) hc
  obtain ⟨hrest, Es, hholds, -⟩ := hrel
  exact ⟨a.entries, Es, hrest ▸ ha, hholds⟩

theorem exists_over_of_reachable (garbage : EntryMem φ π) {c : MemState φ π}
    (hc : (queue garbage).Reachable c) :
    ∃ l Es, (specQueue φ π).Reachable (c.over l) ∧ Holds Es c.entries l :=
  exists_over garbage (fun _ _ _ h => h) hc

/-- A step of the queue is a step of the queue over sequences. -/
theorem exists_step_over (garbage : EntryMem φ π) {c c' : MemState φ π} {x : Action φ π}
    (hc : (queue garbage).Reachable c) (hx : (queue garbage).step c x = some c') :
    ∃ l l', (specQueue φ π).Reachable (c.over l) ∧
      (specQueue φ π).step (c.over l) x = some (c'.over l') ∧
      (∃ Es, Holds Es c.entries l) ∧ ∃ Es, Holds Es c'.entries l' := by
  obtain ⟨a, ha, hrel⟩ := (queueBisimulation garbage).reachableBy (fun _ _ _ _ h => h) hc
  obtain ⟨a', hx', hrel'⟩ := (queueBisimulation garbage).step_some ha hrel hx
  obtain ⟨Es, hholds, -⟩ := hrel.holds
  obtain ⟨Es', hholds', -⟩ := hrel'.holds
  refine ⟨a.entries, a'.entries, ?_, ?_, ⟨Es, hholds⟩, Es', hholds'⟩
  · rw [← hrel.rest]
    exact ha
  · rw [← hrel.rest, ← hrel'.rest]
    exact hx'

/-- The thread waits for the lock, a broadcast or a join, or it has finished. -/
def State.isBlocked {σ ε : Type} (s : State σ ε) : Action φ π → Bool
  | .worker _ =>
    match s.worker with
    | .start | .woken => s.lock.isSome
    | .parked | .returned => true
    | _ => false
  | .enqueuer t _ =>
    match s.enqueuer t with
    | .ready _ => s.lock.isSome
    | _ => false
  | .stopper =>
    match s.stopper with
    | .joining =>
      match s.worker with
      | .returned => false
      | _ => true
    | .done => true
    | _ => false

theorem specQueue_step_isSome (a : SpecState φ π) (x : Action φ π) :
    ((specQueue φ π).step a x).isSome = !a.isBlocked x := by
  show (step seqOps a x).isSome = _
  cases x with
  | worker r =>
    simp only [step, workThread, State.isBlocked]
    cases hw : a.worker <;> simp only
    case start => cases a.lock <;> rfl
    case woken => cases a.lock <;> rfl
    case loop => cases hl : a.entries <;> cases a.doExit <;> rfl
    case running e =>
      split
      · rfl
      · split <;> rfl
    case parked => rfl
    case returned => rfl
    all_goals first | rfl | (split <;> rfl)
  | enqueuer t req =>
    simp only [step, workqueueEnqueue, State.isBlocked]
    cases ht : a.enqueuer t <;> simp only
    case idle => split <;> rfl
    case ready e => cases a.lock <;> rfl
    all_goals rfl
  | stopper =>
    simp only [step, stopWorkqueue, State.isBlocked]
    cases hp : a.stopper <;> simp only
    case joining => cases a.worker <;> rfl
    case draining => cases hl : a.entries <;> rfl
    all_goals rfl

/-- **The list functions never fault.** In a reachable state every thread that
is not blocked can take its next step. -/
theorem queue_step_isSome (garbage : EntryMem φ π) {c : MemState φ π}
    (hc : (queue garbage).Reachable c) (x : Action φ π) :
    ((queue garbage).step c x).isSome = !c.isBlocked x := by
  obtain ⟨a, ha, hrel⟩ := (queueBisimulation garbage).reachableBy (fun _ _ _ _ h => h) hc
  have hblocked : a.isBlocked x = c.isBlocked x := by
    rw [Refines.rest hrel]
    rfl
  rw [(queueBisimulation garbage).isSome_step ha hrel x, specQueue_step_isSome, hblocked]

end Pixelflut.Workqueue
