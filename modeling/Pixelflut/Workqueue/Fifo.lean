import Pixelflut.Workqueue.Refinement

/-!
# Nothing is lost, nothing is done twice

What the ledger of the queue over sequences says about the queue itself, in
every state of every run.
-/

namespace Pixelflut.Workqueue

open Lib.Transition Lib.PointerChain

variable {φ π : Type}

theorem WorkerPc.hand_length {ε : Type} (pc : WorkerPc ε) : pc.hand.length ≤ 1 := by
  cases pc <;> simp [WorkerPc.hand]

theorem nodup_of_fresh {σ : Type} {s : State σ (WorkqueueEntry φ π)} (h : Fresh s) :
    (appended s.trace).Nodup :=
  List.Nodup.of_map WorkqueueEntry.id h.nodup

variable [DecidableEq φ] [DecidableEq π]

/-- **No loss, no duplication, first in first out.** In every reachable state
the removed, the drained and the listed entries together are the appended ones,
in order and without repetition; the callbacks started are those of the removed
entries; and what has been removed or drained is freed once, before the worker
removes the next entry or returns. -/
theorem queue_fifo (garbage : EntryMem φ π) {c : MemState φ π}
    (hc : (queue garbage).Reachable c) :
    (∃ S, Chain c.entries.next (c.entries.head ()) S ∧
      removed c.trace ++ drained c.trace ++ S = appended c.trace) ∧
    started c.trace = removed c.trace ∧
    (freed c.trace ++ c.worker.hand = removed c.trace ++ drained c.trace ∧
      c.worker.hand.length ≤ 1 ∧
      (c.worker = .loop ∨ c.worker = .returned →
        freed c.trace = removed c.trace ++ drained c.trace)) ∧
    (appended c.trace).Nodup ∧ (freed c.trace).Nodup ∧
    (started c.trace ++ drained c.trace).Nodup := by
  obtain ⟨l, Es, ha, hholds⟩ := exists_over_of_reachable garbage hc
  have hledger : Ledger (c.over l) := ledger_of_reachable ha
  have hnodup : (appended c.trace).Nodup := nodup_of_fresh (s := c.over l) (fresh_of_reachable ha)
  have hconserve : removed c.trace ++ drained c.trace ++ l = appended c.trace := hledger.conserve
  have hstarted : started c.trace = removed c.trace := hledger.started_eq
  have hfreed : freed c.trace ++ c.worker.hand = removed c.trace ++ drained c.trace :=
    hledger.freed_eq
  have hout : (removed c.trace ++ drained c.trace).Nodup := by
    rw [← hconserve] at hnodup
    exact (List.nodup_append.mp hnodup).1
  refine ⟨⟨l, hholds.forward () (Set.mem_univ ()), hconserve⟩, hstarted, ⟨hfreed, ?_, ?_⟩, hnodup,
    ?_, ?_⟩
  · exact c.worker.hand_length
  · rintro (hw | hw)
    · rw [← hfreed, hw]
      exact (List.append_nil _).symm
    · rw [← hfreed, hw]
      exact (List.append_nil _).symm
  · rw [← hfreed] at hout
    exact (List.nodup_append.mp hout).1
  · rw [hstarted]
    exact hout

/-! ## A run -/

/-- Memory of any content before `llist_init`. -/
def zeroMem : EntryMem Unit Unit :=
  ⟨fun _ => none, fun _ => none, fun _ => none, fun _ => none, fun _ => none⟩

/-- A job with a cleanup and without an error handler. -/
def job : Request Unit Unit := ⟨(), (), none, some (), true⟩

/-- Thread `t` calls `workqueue_enqueue` from beginning to end. -/
def enqueueAll (t : Nat) : List (Action Unit Unit) := List.replicate 5 (.enqueuer t job)

/-- One job is run; a second one is appended while the worker is parked, and is
drained by `stop_workqueue` because its broadcast comes too late. -/
def runThenDrain : List (Action Unit Unit) :=
  List.replicate 3 (.worker 0) ++ enqueueAll 0 ++ List.replicate 7 (.worker 0) ++
    List.replicate 4 (.enqueuer 1 job) ++ [.stopper, .stopper] ++ List.replicate 3 (.worker 0) ++
    [.stopper, .stopper, .stopper]

theorem queue_fifo_runThenDrain :
    ∃ c, (queue zeroMem).run (queue zeroMem).init runThenDrain = some c ∧
      (∃ S, Chain c.entries.next (c.entries.head ()) S ∧
        removed c.trace ++ drained c.trace ++ S = appended c.trace) ∧
      started c.trace = removed c.trace ∧
      (freed c.trace ++ c.worker.hand = removed c.trace ++ drained c.trace ∧
        c.worker.hand.length ≤ 1 ∧
        (c.worker = .loop ∨ c.worker = .returned →
          freed c.trace = removed c.trace ++ drained c.trace)) ∧
      (appended c.trace).Nodup ∧ (freed c.trace).Nodup ∧
      (started c.trace ++ drained c.trace).Nodup := by
  obtain ⟨c, hrun⟩ := Option.isSome_iff_exists.mp
    (show ((queue zeroMem).run (queue zeroMem).init runThenDrain).isSome by decide)
  exact ⟨c, hrun, queue_fifo zeroMem (System.reachable_of_run runThenDrain hrun)⟩

end Pixelflut.Workqueue
