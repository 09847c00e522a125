import Pixelflut.Queues.Basic

/-!
# From `workqueue_init` to `workqueue_deinit`

`main` calls `workqueue_deinit` on every way out, also when `workqueue_init`
has failed.

* `workqueueInit_succeeds`: a successful start gives one running queue for each
  number below the count;
* `deinit_after_init`: then `workqueue_deinit` joins every thread and frees the
  array;
* `workqueueInit_fails`: a failed start has cleaned up behind itself, but the
  count stays;
* `deinit_after_failed_init_iff`: so `workqueue_deinit` may follow exactly when
  the count is zero.
-/

namespace Pixelflut.Queues

open Lib.BlockHeap

variable {φ π : Type}

/-! ## Starting the queues -/

/-- The queue `j` when it has been started. -/
def startedQueue (j : Nat) : Wqueue φ π := ⟨[], .ofNat j, false, some j⟩

/-- The array at `p` has `n` elements, the workers of the first `i` run, and
none has been joined. -/
structure Running (g : Globals φ π) (p n i : Nat) : Prop where
  workqueues : g.workqueues = some p
  numWorkqueues : g.numWorkqueues = n
  created : g.created = List.range i
  joined : g.joined = []
  threadAt : ∀ j < i, threadAt g p j = some j
  size : (g.heap.block p).map List.length = some n
  others : ∀ q, q ≠ p → g.heap.block q = none

/-- At the head of the loop of `workqueue_init`. -/
structure Started (g : Globals φ π) (p n i : Nat) : Prop where
  running : Running g p n i
  started : ∀ j < i, g.heap.load p j = some (startedQueue j)
  zeroed : ∀ j, i ≤ j → j < n → g.heap.load p j = some zeroed

/-- The head of the loop is first reached right behind the `calloc`. -/
theorem started_init (n : Nat) : Started (allocWorkqueues (Globals.start : Globals φ π) n) 0 n 0 := by
  obtain ⟨hself, -, hother⟩ :=
    Heap.alloc_spec (Globals.start : Globals φ π).heap (List.replicate n zeroed)
  refine ⟨⟨rfl, rfl, rfl, rfl, fun j hj => absurd hj (Nat.not_lt_zero j), ?_, fun q hq => ?_⟩,
    fun j hj => absurd hj (Nat.not_lt_zero j), fun j _ hj => ?_⟩
  · exact (congrArg (Option.map List.length) hself).trans (by simp)
  · exact (hother q hq).trans (by simp [Globals.start, Heap.block])
  · exact (Heap.load_of_block hself j).trans (List.getElem?_replicate_of_lt hj)

/-- What is stored in the element `i` does not matter to the queues in front. -/
theorem Running.store {g : Globals φ π} {p n i : Nat} (h : Running g p n i)
    {heap : Heap (Wqueue φ π)} (hload : ∀ q j, q ≠ p ∨ j ≠ i → heap.load q j = g.heap.load q j)
    (hlen : ∀ q, (heap.block q).map List.length = (g.heap.block q).map List.length) :
    Running { g with heap := heap } p n i := by
  refine ⟨h.workqueues, h.numWorkqueues, h.created, h.joined, fun j hj => ?_, ?_, fun q hq => ?_⟩
  · rw [← h.threadAt j hj, Queues.threadAt, Queues.threadAt, hload p j (Or.inr (Nat.ne_of_lt hj))]
  · exact (hlen p).trans h.size
  · have hnone := hlen q
    rw [h.others q hq, Option.map_none, Option.map_eq_none_iff] at hnone
    exact hnone

theorem startAt_succeeds {g : Globals φ π} {p n i : Nat} (h : Started g p n i) (hi : i < n) :
    ∃ g', startAt g p i 0 = some (g', 0) ∧ Started g' p n (i + 1) := by
  have hload : g.heap.load p i = some ⟨[], 0, false, none⟩ := h.zeroed i (Nat.le_refl i) hi
  have hcount : g.created.length = i := by rw [h.running.created, List.length_range]
  obtain ⟨heap, hstore, -, hself, hother, hlen⟩ :=
    Heap.store_of_load (⟨[], .ofNat i, false, some i⟩ : Wqueue φ π) hload
  have hrun := h.running.store hother hlen
  have hstart : startAt g p i 0 =
      some ({ g with heap := heap, created := g.created ++ [i] }, 0) := by
    simp only [startAt, hload, hcount, hstore, Option.bind_eq_bind, Option.bind_some, ↓reduceIte]
  refine ⟨_, hstart, ⟨⟨hrun.workqueues, hrun.numWorkqueues, ?_, hrun.joined, fun j hj => ?_,
    hrun.size, hrun.others⟩, fun j hj => ?_, fun j hij hj => ?_⟩⟩
  · rw [h.running.created, List.range_succ]
  · rcases Nat.lt_succ_iff_lt_or_eq.mp hj with hlt | rfl
    · exact hrun.threadAt j hlt
    · rw [threadAt, hself]
      rfl
  · rcases Nat.lt_succ_iff_lt_or_eq.mp hj with hlt | rfl
    · rw [hother p j (Or.inr (Nat.ne_of_lt hlt)), h.started j hlt]
    · exact hself
  · rw [hother p j (Or.inr (Nat.ne_of_gt hij)), h.zeroed j (Nat.le_of_succ_le hij) hj]

theorem startAt_fails {g : Globals φ π} {p n i : Nat} (h : Started g p n i) (hi : i < n)
    {threadErr : Int} (he : threadErr ≠ 0) :
    ∃ g', startAt g p i threadErr = some (g', -threadErr) ∧ Running g' p n i := by
  have hload : g.heap.load p i = some ⟨[], 0, false, none⟩ := h.zeroed i (Nat.le_refl i) hi
  obtain ⟨heap, hstore, -, -, hother, hlen⟩ :=
    Heap.store_of_load (⟨[], .ofNat i, false, none⟩ : Wqueue φ π) hload
  refine ⟨{ g with heap := heap }, ?_, h.running.store hother hlen⟩
  simp only [startAt, hload, he, hstore, Option.bind_eq_bind, Option.bind_some, ↓reduceIte]

theorem startLoop_succeeds {threadErr : Nat → Int} {g : Globals φ π} {p n i left : Nat}
    (h : Started g p n i) (hn : i + left = n) (hok : ∀ j < n, threadErr j = 0) :
    ∃ g', startLoop threadErr g p i left = some (g', n, 0) ∧ Started g' p n n := by
  induction left generalizing g i with
  | zero =>
    obtain rfl : i = n := hn
    exact ⟨g, rfl, h⟩
  | succ left ih =>
    have hi : i < n := by omega
    obtain ⟨g₁, hstart, h₁⟩ := startAt_succeeds h hi
    obtain ⟨g₂, hrest, h₂⟩ := ih h₁ (by omega)
    refine ⟨g₂, ?_, h₂⟩
    rw [startLoop, hok i hi, hstart]
    exact hrest

/-- The loop stops at the first thread that cannot be created. -/
theorem startLoop_fails {threadErr : Nat → Int} {g : Globals φ π} {p n i left k : Nat}
    (h : Started g p n i) (hn : i + left = n) (hik : i ≤ k) (hk : k < n)
    (hok : ∀ j < k, threadErr j = 0) (he : threadErr k ≠ 0) :
    ∃ g', startLoop threadErr g p i left = some (g', k, -threadErr k) ∧ Running g' p n k := by
  induction left generalizing g i with
  | zero => omega
  | succ left ih =>
    have hi : i < n := by omega
    rcases Nat.lt_or_eq_of_le hik with hlt | rfl
    · obtain ⟨g₁, hstart, h₁⟩ := startAt_succeeds h hi
      obtain ⟨g₂, hrest, h₂⟩ := ih h₁ (by omega) hlt
      refine ⟨g₂, ?_, h₂⟩
      rw [startLoop, hok i hlt, hstart]
      exact hrest
    · obtain ⟨g₁, hstart, h₁⟩ := startAt_fails h hi he
      refine ⟨g₁, ?_, h₁⟩
      rw [startLoop, hstart]
      simp [he]

/-! ## What is left behind -/

/-- Every thread that was created has been joined, once, and every array has
been freed. -/
structure CleanedUp (g : Globals φ π) : Prop where
  joined : g.joined.Perm g.created
  nodup : g.joined.Nodup
  freed : ∀ p, g.heap.block p = none

theorem workqueueInit_succeeds (T : Topology) {threadErr : Nat → Int}
    (hok : ∀ k < T.numWorkqueues, threadErr k = 0) :
    ∃ g, workqueueInit T true threadErr (Globals.start : Globals φ π) = some (g, 0) ∧
      Started g 0 T.numWorkqueues T.numWorkqueues := by
  obtain ⟨g, hloop, h⟩ := startLoop_succeeds (started_init (φ := φ) (π := π) T.numWorkqueues)
    (Nat.zero_add _) hok
  refine ⟨g, ?_, h⟩
  show (startLoop threadErr (allocWorkqueues .start T.numWorkqueues) 0 0 T.numWorkqueues).bind _ = _
  rw [hloop]
  rfl

/-- When the workers have been joined in some order, `free(workqueues)` is all
that is left to do. -/
theorem Running.free {g g₁ : Globals φ π} {p n i : Nat} (h : Running g p n i) {ts : List Nat}
    (hs : Stopped g g₁ ts) (hts : ts.Perm (List.range i)) (m : Nat) :
    ∃ g₂, freeWorkqueues { g₁ with numWorkqueues := m } = some g₂ ∧ CleanedUp g₂ ∧
      g₂.numWorkqueues = m := by
  have hdead : ∀ q, q ≠ p → g₁.heap.block q = none := by
    intro q hq
    have hlive := hs.live q
    rw [h.others q hq, Option.isSome_none, Option.isSome_eq_false_iff, Option.isNone_iff_eq_none]
      at hlive
    exact hlive
  have hjoined : g₁.joined = ts := by rw [hs.joined, h.joined, List.nil_append]
  have hlive : (g.heap.block p).isSome := by
    rw [← Option.isSome_map (f := List.length), h.size]
    rfl
  obtain ⟨heap, hfree, hfreed⟩ := freeWorkqueues_spec (g := { g₁ with numWorkqueues := m })
    (hs.workqueues.trans h.workqueues) ((hs.live p).trans hlive) hdead
  refine ⟨_, hfree, ⟨?_, ?_, hfreed⟩, rfl⟩
  · show g₁.joined.Perm g₁.created
    rw [hjoined, hs.created, h.created]
    exact hts
  · show g₁.joined.Nodup
    rw [hjoined, hts.nodup_iff]
    exact List.nodup_range

/-- **A successful start can be undone.** -/
theorem deinit_after_init (T : Topology) {threadErr : Nat → Int}
    (hok : ∀ k < T.numWorkqueues, threadErr k = 0) :
    ∃ g g' : Globals φ π, workqueueInit T true threadErr .start = some (g, 0) ∧
      workqueueDeinit g = some g' ∧ CleanedUp g' := by
  obtain ⟨g, hinit, ⟨hrun, -, -⟩⟩ := workqueueInit_succeeds (φ := φ) (π := π) T hok
  obtain ⟨g₁, hstop, h₁⟩ := stopLoop_spec hrun.workqueues 0 T.numWorkqueues
    fun j _ hj => hrun.threadAt j (by omega)
  obtain ⟨g₂, hfree, hclean, -⟩ := hrun.free h₁ (by rw [List.range_eq_range']) 0
  refine ⟨g, g₂, hinit, ?_, hclean⟩
  rw [workqueueDeinit, hrun.numWorkqueues, hstop, Option.bind_some, hfree]

/-- **A failed start cleans up behind itself**, but for the count and the
pointer. -/
theorem workqueueInit_fails (T : Topology) {callocOk : Bool} {threadErr : Nat → Int}
    (hfail : callocOk = false ∨ ∃ k < T.numWorkqueues, threadErr k ≠ 0) :
    ∃ g err, workqueueInit T callocOk threadErr (Globals.start : Globals φ π) = some (g, err) ∧
      err ≠ 0 ∧ CleanedUp g ∧ g.numWorkqueues = T.numWorkqueues ∧
      (T.numWorkqueues = 0 → g.workqueues = none) := by
  cases callocOk with
  | false =>
    exact ⟨_, _, rfl, by decide, ⟨.refl _, List.nodup_nil, fun p => rfl⟩, rfl, fun _ => rfl⟩
  | true =>
    have hbad : ∃ k, k < T.numWorkqueues ∧ threadErr k ≠ 0 :=
      hfail.resolve_left Bool.noConfusion
    -- the first thread that cannot be created
    obtain ⟨hk, he⟩ := Nat.find_spec hbad
    have hok : ∀ j < Nat.find hbad, threadErr j = 0 := by
      intro j hj
      by_contra hne
      exact Nat.find_min hbad hj ⟨by omega, hne⟩
    obtain ⟨g, hloop, hrun⟩ := startLoop_fails (started_init (φ := φ) (π := π) T.numWorkqueues)
      (Nat.zero_add _) (Nat.zero_le _) hk hok he
    obtain ⟨g₁, hback, h₁⟩ := rollback_spec hrun.workqueues _ hrun.threadAt
    obtain ⟨g₂, hfree, hclean, hnum⟩ := hrun.free h₁ (List.reverse_perm _) g₁.numWorkqueues
    refine ⟨g₂, _, ?_, neg_ne_zero.mpr he, hclean, ?_, fun h0 => absurd hk (by omega)⟩
    · have hfree₁ : freeWorkqueues g₁ = some g₂ := hfree
      show (startLoop threadErr (allocWorkqueues .start T.numWorkqueues) 0 0
        T.numWorkqueues).bind _ = _
      simp [hloop, he, hback, hfree₁]
    · rw [hnum, h₁.numWorkqueues, hrun.numWorkqueues]

theorem started_of_init {T : Topology} {callocOk : Bool} {threadErr : Nat → Int}
    {g : Globals φ π} (hinit : workqueueInit T callocOk threadErr .start = some (g, 0)) :
    Started g 0 T.numWorkqueues T.numWorkqueues := by
  by_cases hfail : callocOk = false ∨ ∃ k < T.numWorkqueues, threadErr k ≠ 0
  · obtain ⟨g', err, hinit', herr, -⟩ := workqueueInit_fails (φ := φ) (π := π) T hfail
    rw [hinit] at hinit'
    cases hinit'
    exact absurd rfl herr
  · rw [not_or, Bool.not_eq_false] at hfail
    obtain ⟨rfl, hok⟩ := hfail
    obtain ⟨g', hinit', h⟩ := workqueueInit_succeeds (φ := φ) (π := π) T fun k hk => by
      by_contra hne
      exact hok ⟨k, hk, hne⟩
    rw [hinit] at hinit'
    cases hinit'
    exact h

/-! ## Stopping what has not been started -/

/-- `workqueue_init` and then `workqueue_deinit`, as `main` runs them when the
former fails. -/
def initThenDeinit (T : Topology) (callocOk : Bool) (threadErr : Nat → Int) :
    Option (Globals φ π) :=
  (workqueueInit T callocOk threadErr .start).bind fun r => workqueueDeinit r.1

theorem Topology.numWorkqueues_eq_zero (T : Topology) :
    T.numWorkqueues = 0 ↔ T.numaAvailable ≠ 0 ∧ T.numaMaxNode = 0 := by
  rw [numWorkqueues]
  split <;> simp_all

/-- **`workqueue_deinit` may follow a failed `workqueue_init` exactly when
there is no queue to stop.** -/
theorem deinit_after_failed_init_iff (T : Topology) {callocOk : Bool} {threadErr : Nat → Int}
    (hfail : callocOk = false ∨ ∃ k < T.numWorkqueues, threadErr k ≠ 0) :
    (∃ g : Globals φ π, initThenDeinit T callocOk threadErr = some g ∧ CleanedUp g) ↔
      T.numaAvailable ≠ 0 ∧ T.numaMaxNode = 0 := by
  rw [← T.numWorkqueues_eq_zero]
  obtain ⟨g, err, hinit, -, hclean, hnum, hnull⟩ :=
    workqueueInit_fails (φ := φ) (π := π) T hfail
  rw [initThenDeinit, hinit, Option.bind_some, workqueueDeinit, hnum]
  constructor
  · rintro ⟨g', hdeinit, -⟩
    cases hn : T.numWorkqueues with
    | zero => rfl
    | succ n =>
      rw [hn, stopLoop_of_dead hclean.freed, Option.bind_none] at hdeinit
      cases hdeinit
  · intro hn
    refine ⟨{ g with numWorkqueues := 0 }, ?_, hclean.joined, hclean.nodup, hclean.freed⟩
    rw [hn, stopLoop, Option.bind_some, freeWorkqueues]
    simp only [hnull hn]

/-- A machine with two nodes, where the array cannot be allocated: with the
highest node number for a count there is one queue, and it is not there. -/
theorem deinit_after_failed_init_two_nodes :
    ¬∃ g : Globals Unit Unit,
      initThenDeinit ⟨1, 1, by decide⟩ false (fun _ => 0) = some g ∧ CleanedUp g := by
  rw [deinit_after_failed_init_iff ⟨1, 1, by decide⟩ (.inl rfl)]
  decide

/-- One queue whose thread cannot be created: the array is freed when
`workqueue_deinit` looks for the queue in it. -/
theorem deinit_after_failed_thread :
    ¬∃ g : Globals Unit Unit,
      initThenDeinit ⟨0, 0, by decide⟩ true (fun _ => 11) = some g ∧ CleanedUp g := by
  rintro ⟨g, hrun, -⟩
  have hnone : initThenDeinit (φ := Unit) (π := Unit) ⟨0, 0, by decide⟩ true (fun _ => 11) = none := by
    decide
  rw [hnone] at hrun
  cases hrun

end Pixelflut.Queues
