import Pixelflut.Resizing.Basic

/-!
# The private data of the resize jobs

Every block that `resize_cb` allocates is in one hand: the main thread has it,
or it is the private data of one job, on the queue of its framebuffer.

* `Blocks`: who has which block, what is in it, and when it is gone: a job's
  block is freed exactly when its `cleanup` has been called;
* `Blocks.put`, `Blocks.fill`: what a step of a queue, and the `calloc` of
  `workqueue_enqueue`, do to that.
-/

namespace Pixelflut.Resizing

open Function (update)
open Lib.BlockHeap Lib.Transition Framebuffer
open Queues (Fn ResizeWqPriv)
open Workqueue hiding State Action step

variable {M : Setup}

/-! ## Cleanups -/

/-- The block of a known entry that is cleaned up goes, and no other one. -/
theorem runCleanups_spec (privs : Heap ResizeWqPriv) (evs : List (Event Entry))
    (h : cleaned evs = [] ∨ ∃ e b, cleaned evs = [e] ∧ privs.block e.priv = some b) :
    ∃ privs', runCleanups privs evs = some privs' ∧ privs'.fresh = privs.fresh ∧
      ∀ p, privs'.block p =
        if p ∈ (cleaned evs).map WorkqueueEntry.priv then none else privs.block p := by
  rcases h with hnil | ⟨e, b, hone, hb⟩
  · exact ⟨privs, by rw [runCleanups, hnil]; rfl, rfl, fun p => by simp [hnil]⟩
  · obtain ⟨privs', hfree, hfresh, hdead, hother⟩ := Heap.free_spec hb
    refine ⟨privs', ?_, hfresh, fun p => ?_⟩
    · rw [runCleanups, hone]
      simp [resizeWqCleanup, hfree]
    · rw [hone]
      by_cases hp : p = e.priv
      · simpa [hp] using hdead
      · simpa [hp] using hother p hp

/-! ## The invariant -/

/-- The functions of a resize job. -/
structure IsJob (e : Entry) : Prop where
  cb : e.cb = .resizeWqCb
  err : e.err = some .resizeWqErr
  cleanup : e.cleanup = some .resizeWqCleanup

/-- `hand` is the block that the main thread has. -/
structure Blocks (M : Setup) (c : State) (hand : Option Nat) : Prop where
  size : c.requests.length = c.privs.fresh
  known : ∀ i e, Known (c.queue i) e → IsJob e ∧
    ∃ r, c.requests[e.priv]? = some r ∧ M.node r.fb = i ∧ i < M.numWorkqueues ∧
      c.privs.block e.priv = if cleanups e (c.queue i).trace = 0 then some [r] else none
  distinct : ∀ i j e e', Known (c.queue i) e → Known (c.queue j) e' → e.priv = e'.priv →
    i = j ∧ e = e'
  held : ∀ p, hand = some p → ∃ r, c.requests[p]? = some r ∧ c.privs.block p = some [r] ∧
    ∀ i e, Known (c.queue i) e → e.priv < p
  owned : ∀ p, c.privs.block p ≠ none → hand = some p ∨ ∃ i e, Known (c.queue i) e ∧ e.priv = p

/-- What happens in a step of a queue, read at the memory of its list. -/
theorem queue_step {garbage : EntryMem Fn Nat} {q q' : QueueState}
    (hq : (queue garbage).Reachable q) {x : Workqueue.Action Fn Nat}
    (hx : Workqueue.step (memOps garbage) q x = some q') :
    ∃ l l', (specQueue Fn Nat).Reachable (q.over l) ∧ Move (q.over l) x (q'.over l') := by
  obtain ⟨l, l', ha, hstep, -⟩ := exists_step_over garbage hq hx
  exact ⟨l, l', ha, move_of_step hstep⟩

/-- Nobody has cleaned up an entry that has not been appended. -/
theorem cleanups_of_not_appended {garbage : EntryMem Fn Nat} {q : QueueState}
    (hq : (queue garbage).Reachable q) {e : Entry} (he : e ∉ appended q.trace) :
    cleanups e q.trace = 0 := by
  obtain ⟨l, -, ha, -⟩ := exists_over_of_reachable garbage hq
  have hledger : Ledger (q.over l) := ledger_of_reachable ha
  have hsettle : Settlement (q.over l) := settlement_of_reachable ha
  refine (hsettle.listed e fun hgone => he ?_).1
  have hconserve : gone q.trace ++ l = appended q.trace := hledger.conserve
  rw [← hconserve]
  exact List.mem_append_left _ hgone

/-- What a step of queue `i` cleans up, and that its blocks are there. -/
structure CleansUp (c : State) (i : Nat) (q : QueueState) (evs : List (Event Entry))
    (privs : Heap ResizeWqPriv) : Prop where
  trace : q.trace = (c.queue i).trace ++ evs
  put : putQueue c i q = some { c with queue := update c.queue i q, privs := privs }
  fresh : privs.fresh = c.privs.fresh
  block : ∀ p, privs.block p =
    if p ∈ (cleaned evs).map WorkqueueEntry.priv then none else c.privs.block p
  known : ∀ e ∈ cleaned evs, Known (c.queue i) e

theorem Blocks.cleansUp {c : State} {hand : Option Nat} (h : Blocks M c hand) {i : Nat}
    (hq : (queue (M.garbage i)).Reachable (c.queue i)) {x : Workqueue.Action Fn Nat}
    {q : QueueState} (hx : Workqueue.step (memOps (M.garbage i)) (c.queue i) x = some q) :
    ∃ evs privs, CleansUp c i q evs privs := by
  obtain ⟨l, l', ha, hm⟩ := queue_step hq hx
  obtain ⟨evs, htr, hcleaned⟩ := hm.cleaned_cases (ledger_of_reachable ha) (fresh_of_reachable ha)
    (settlement_of_reachable ha)
  replace htr : q.trace = (c.queue i).trace ++ evs := htr
  replace hcleaned : cleaned evs = [] ∨ ∃ e, cleaned evs = [e] ∧ e ∈ appended (c.queue i).trace ∧
    cleanups e (c.queue i).trace = 0 := hcleaned
  obtain ⟨privs, hrun, hfresh, hblock⟩ := runCleanups_spec c.privs evs <| by
    refine hcleaned.imp_right fun ⟨e, hone, he, hzero⟩ => ?_
    obtain ⟨-, r, -, -, -, hb⟩ := h.known i e (.inl he)
    rw [if_pos hzero] at hb
    exact ⟨e, _, hone, hb⟩
  refine ⟨evs, privs, htr, ?_, hfresh, hblock, fun e he => ?_⟩
  · rw [putQueue, htr, List.drop_left, hrun, Option.map_some]
  · rcases hcleaned with hnil | ⟨e', hone, he', -⟩
    · rw [hnil] at he
      cases he
    · rw [hone, List.mem_singleton] at he
      exact .inl (he ▸ he')

/-- **A step of a queue that brings in no entry**: the cleanups that it calls
find their blocks. -/
theorem Blocks.put {c : State} {hand : Option Nat} (h : Blocks M c hand) {i : Nat}
    (hq : (queue (M.garbage i)).Reachable (c.queue i)) {x : Workqueue.Action Fn Nat}
    {q : QueueState} (hx : Workqueue.step (memOps (M.garbage i)) (c.queue i) x = some q)
    (hknown : ∀ e, Known q e → Known (c.queue i) e) :
    ∃ privs, putQueue c i q = some { c with queue := update c.queue i q, privs := privs } ∧
      Blocks M { c with queue := update c.queue i q, privs := privs } hand := by
  obtain ⟨l, l', -, hm⟩ := queue_step hq hx
  obtain ⟨evs, privs, htr, hput, hfresh, hblock, hcleanedKnown⟩ := h.cleansUp hq hx
  have hiff : ∀ j e, Known (update c.queue i q j) e ↔ Known (c.queue j) e := by
    intro j e
    by_cases hj : j = i
    · subst hj
      rw [Function.update_self]
      exact ⟨hknown e, hm.known_mono⟩
    · rw [Function.update_of_ne hj]
  refine ⟨privs, hput, ?_⟩
  constructor
  case size => exact h.size.trans hfresh.symm
  case known =>
    intro j e he
    replace he := (hiff j e).mp he
    obtain ⟨hjob, r, hr, hnode, hlt, hb⟩ := h.known j e he
    refine ⟨hjob, r, hr, hnode, hlt, ?_⟩
    show privs.block e.priv = if cleanups e (update c.queue i q j).trace = 0 then some [r] else none
    rw [hblock]
    by_cases hmem : e.priv ∈ (cleaned evs).map WorkqueueEntry.priv
    · obtain ⟨e', he', hpriv⟩ := List.mem_map.mp hmem
      obtain ⟨rfl, rfl⟩ := h.distinct i j e' e (hcleanedKnown e' he') he hpriv
      have hpos : cleanups e' (update c.queue i q i).trace ≠ 0 := by
        rw [Function.update_self, htr, cleanups_append, cleanups_eq_count e' evs]
        have := List.count_pos_iff.mpr he'
        omega
      rw [if_pos hmem, if_neg hpos]
    · have hsame : cleanups e (update c.queue i q j).trace = cleanups e (c.queue j).trace := by
        by_cases hj : j = i
        · subst hj
          have hnot : e ∉ cleaned evs := fun hin => hmem (List.mem_map_of_mem hin)
          rw [Function.update_self, htr, cleanups_append, cleanups_eq_count e evs,
            List.count_eq_zero.mpr hnot, Nat.add_zero]
        · rw [Function.update_of_ne hj]
      rw [if_neg hmem, hsame, hb]
  case distinct =>
    intro j k e e' he he' hpriv
    exact h.distinct j k e e' ((hiff j e).mp he) ((hiff k e').mp he') hpriv
  case held =>
    intro p hp
    obtain ⟨r, hr, hb, hfree⟩ := h.held p hp
    refine ⟨r, hr, ?_, fun j e he => hfree j e ((hiff j e).mp he)⟩
    show privs.block p = some [r]
    rw [hblock, if_neg, hb]
    intro hmem
    obtain ⟨e, he, hpriv⟩ := List.mem_map.mp hmem
    exact Nat.ne_of_lt (hfree i e (hcleanedKnown e he)) hpriv
  case owned =>
    intro p hp
    have hold : c.privs.block p ≠ none := by
      intro hnone
      refine hp ?_
      show privs.block p = none
      rw [hblock, hnone, ite_self]
    refine (h.owned p hold).imp_right fun ⟨j, e, he, hpriv⟩ => ?_
    exact ⟨j, e, (hiff j e).mpr he, hpriv⟩

/-- The steps of the main thread touch no queue. -/
theorem Blocks.congr {c c' : State} {hand : Option Nat} (h : Blocks M c hand)
    (hqueue : c'.queue = c.queue) (hprivs : c'.privs = c.privs)
    (hrequests : c'.requests = c.requests) : Blocks M c' hand := by
  constructor
  case size => rw [hrequests, hprivs]; exact h.size
  case known => rw [hqueue, hrequests, hprivs]; exact h.known
  case distinct => rw [hqueue]; exact h.distinct
  case held => rw [hqueue, hrequests, hprivs]; exact h.held
  case owned => rw [hqueue, hprivs]; exact h.owned

/-- `malloc` for a `resize_priv`. -/
theorem Blocks.alloc {c : State} (h : Blocks M c none) (r : ResizeWqPriv) :
    Blocks M { c with privs := c.privs.alloc [r], requests := c.requests ++ [r] }
      (some c.privs.fresh) := by
  obtain ⟨hnew, hfresh, hother⟩ := Heap.alloc_spec c.privs [r]
  -- a request that is there has an address below the new one
  have hlt : ∀ {p r'}, c.requests[p]? = some r' → p < c.privs.fresh := fun hr =>
    h.size ▸ (List.getElem?_eq_some_iff.mp hr).1
  have hold : ∀ {p r'}, c.requests[p]? = some r' → (c.requests ++ [r])[p]? = some r' := fun hr => by
    rw [List.getElem?_append_left (List.getElem?_eq_some_iff.mp hr).1, hr]
  constructor
  case size => simp [h.size, hfresh]
  case known =>
    intro i e he
    obtain ⟨hjob, r', hr', hnode, hi, hb⟩ := h.known i e he
    refine ⟨hjob, r', hold hr', hnode, hi, ?_⟩
    show (c.privs.alloc [r]).block e.priv = _
    rw [hother _ (Nat.ne_of_lt (hlt hr')), hb]
  case distinct => exact h.distinct
  case held =>
    rintro p hp
    cases hp
    refine ⟨r, ?_, hnew, fun i e he => ?_⟩
    · rw [← h.size]
      exact List.getElem?_concat_length
    · obtain ⟨-, r', hr', -⟩ := h.known i e he
      exact hlt hr'
  case owned =>
    intro p hp
    by_cases hpf : p = c.privs.fresh
    · exact .inl (hpf ▸ rfl)
    · refine .inr ?_
      rcases h.owned p (by rw [← hother p hpf]; exact hp) with hnone | hentry
      · cases hnone
      · exact hentry

/-- `free(resize_priv)` behind an error of `workqueue_enqueue`. -/
theorem Blocks.free {c : State} {p : Nat} (h : Blocks M c (some p)) :
    ∃ privs, c.privs.free p = some privs ∧ Blocks M { c with privs := privs } none := by
  obtain ⟨r, hr, hb, hnobody⟩ := h.held p rfl
  obtain ⟨privs, hfree, hfresh, hdead, hother⟩ := Heap.free_spec hb
  refine ⟨privs, hfree, ?_⟩
  constructor
  case size => exact h.size.trans hfresh.symm
  case known =>
    intro i e he
    obtain ⟨hjob, r', hr', hnode, hi, hb'⟩ := h.known i e he
    refine ⟨hjob, r', hr', hnode, hi, ?_⟩
    show privs.block e.priv = _
    rw [hother _ (Nat.ne_of_lt (hnobody i e he)), hb']
  case distinct => exact h.distinct
  case held => intro p' hp'; cases hp'
  case owned =>
    intro p' hp'
    have hne : p' ≠ p := fun heq => hp' (heq ▸ hdead)
    refine (h.owned p' (by rw [← hother p' hne]; exact hp')).elim (fun hhand => ?_) .inr
    exact absurd (Option.some.inj hhand).symm hne

/-- **`calloc` and the filling in of an entry**: the block that the main thread
had is the private data of the new entry. -/
theorem Blocks.fill {c : State} {p i : Nat} {r : ResizeWqPriv} (h : Blocks M c (some p))
    (hr : c.requests[p]? = some r) (hnode : M.node r.fb = i) (hi : i < M.numWorkqueues)
    (hq : (queue (M.garbage i)).Reachable (c.queue i)) (hidle : (c.queue i).enqueuer 0 = .idle)
    {q : QueueState}
    (hx : workqueueEnqueue (memOps (M.garbage i)) (c.queue i) 0 (request p true) = some q) :
    putQueue c i q = some { c with queue := update c.queue i q } ∧
      Blocks M { c with queue := update c.queue i q } none := by
  have htrace : q.trace = (c.queue i).trace := by
    simp only [workqueueEnqueue, hidle, request, ↓reduceIte, Option.some.injEq] at hx
    rw [← hx]
  have hput : putQueue c i q = some { c with queue := update c.queue i q } := by
    rw [putQueue, htrace, List.drop_length]
    rfl
  obtain ⟨l, l', ha, hm⟩ := queue_step (x := .enqueuer 0 (request p true)) hq hx
  have hfresh : Fresh ((c.queue i).over l) := fresh_of_reachable ha
  obtain ⟨r₀, hr₀, hb, hnobody⟩ := h.held p rfl
  cases hr₀.symm.trans hr
  let new : Entry := (request p true).entry (c.queue i).nextId
  have hnew : new ∉ appended (c.queue i).trace := by
    intro hmem
    have hlt : (c.queue i).nextId < (c.queue i).nextId :=
      hfresh.old _ (List.mem_map_of_mem (f := WorkqueueEntry.id) hmem)
    omega
  have hiff : ∀ j e, Known (update c.queue i q j) e ↔ Known (c.queue j) e ∨ j = i ∧ e = new := by
    intro j e
    by_cases hj : j = i
    · subst hj
      rw [Function.update_self]
      constructor
      · intro he
        rcases hm.known_cases with hsame | ⟨t, req, hreq, -, hcases⟩
        · exact .inl (hsame e he)
        · cases hreq
          exact (hcases e he).imp_right fun heq => ⟨rfl, heq⟩
      · rintro (he | ⟨-, rfl⟩)
        · exact hm.known_mono he
        · refine .inr ⟨0, ?_⟩
          simp only [workqueueEnqueue, hidle, request, ↓reduceIte, Option.some.injEq] at hx
          rw [← hx]
          simp [EnqueuerPc.unappended, new, Request.entry, request]
    · rw [Function.update_of_ne hj]
      exact ⟨.inl, fun he => he.resolve_right fun hnew => hj hnew.1⟩
  have hcleanups : ∀ j e, cleanups e (update c.queue i q j).trace = cleanups e (c.queue j).trace := by
    intro j e
    by_cases hj : j = i
    · subst hj
      rw [Function.update_self, htrace]
    · rw [Function.update_of_ne hj]
  refine ⟨hput, ?_⟩
  constructor
  case size => exact h.size
  case known =>
    intro j e he
    rcases (hiff j e).mp he with hold | ⟨rfl, rfl⟩
    · obtain ⟨hjob, r', hr', hnode', hj, hb'⟩ := h.known j e hold
      exact ⟨hjob, r', hr', hnode', hj, by rw [hcleanups]; exact hb'⟩
    · refine ⟨⟨rfl, rfl, rfl⟩, r, hr, hnode, hi, ?_⟩
      rw [hcleanups, if_pos (cleanups_of_not_appended hq hnew)]
      exact hb
  case distinct =>
    intro j k e e' he he' hpriv
    rcases (hiff j e).mp he with hold | ⟨rfl, rfl⟩
    · rcases (hiff k e').mp he' with hold' | ⟨rfl, rfl⟩
      · exact h.distinct j k e e' hold hold' hpriv
      · exact absurd hpriv (Nat.ne_of_lt (hnobody j e hold))
    · rcases (hiff k e').mp he' with hold' | ⟨rfl, rfl⟩
      · exact absurd hpriv.symm (Nat.ne_of_lt (hnobody k e' hold'))
      · exact ⟨rfl, rfl⟩
  case held => intro p' hp'; cases hp'
  case owned =>
    intro p' hp'
    refine .inr ?_
    rcases h.owned p' hp' with hhand | ⟨j, e, he, hpriv⟩
    · exact ⟨i, new, (hiff i new).mpr (.inr ⟨rfl, rfl⟩), Option.some.inj hhand⟩
    · exact ⟨j, e, (hiff j e).mpr (.inl he), hpriv⟩

end Pixelflut.Resizing
