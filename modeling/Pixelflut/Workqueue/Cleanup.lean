import Pixelflut.Workqueue.Fifo

/-!
# Who releases the private data of a job

The worker calls `cleanup` on its two failure paths only: nobody releases the
private data of a job whose callback or error handler returns 0. `Settlement`
follows an entry through the five ways out of the queue: it is cleaned up once
or it is spared. `cleanup_exactly_once_iff` says for which runs that is exactly
once for every entry.
-/

namespace Pixelflut.Workqueue

open Lib.Transition

variable {ε φ π : Type}

/-- How often `cleanup` has been called for `e`. -/
def cleanups [DecidableEq ε] (e : ε) (tr : List (Event ε)) : Nat := tr.countP fun
  | .cleanup e' _ => e' = e
  | _ => false

/-- A callback or an error handler of `e` has returned 0. -/
def Spared (e : ε) (tr : List (Event ε)) : Prop := .cbEnd e 0 ∈ tr ∨ .errEnd e 0 ∈ tr

/-- The event is a result for `e` or a call of its `cleanup`. -/
def Event.settles [DecidableEq ε] (e : ε) : Event ε → Bool
  | .cbEnd e' _ | .errEnd e' _ | .cleanup e' _ => e' = e
  | _ => false

/-- Such an event is on no account. -/
theorem Event.isQuiet_of_settles [DecidableEq ε] {e : ε} {ev : Event ε}
    (h : ev.settles e = true) : ev.isQuiet = true := by
  cases ev <;> first | rfl | cases h

theorem Event.not_settles [DecidableEq ε] {e e' : ε} {ev : Event ε} (h : ev.settles e = true)
    (hne : e' ≠ e) : ev.settles e' = false := by
  cases ev <;> simp [settles] at h ⊢ <;> exact fun he => hne (he.symm.trans h)

/-- Nothing has been decided about `e`. -/
def Untouched [DecidableEq ε] (e : ε) (tr : List (Event ε)) : Prop :=
  cleanups e tr = 0 ∧ ¬Spared e tr

/-- `e` has been cleaned up once, unless it has been spared. -/
def Settled [DecidableEq ε] (e : ε) (tr : List (Event ε)) : Prop :=
  cleanups e tr = 1 ∧ ¬Spared e tr ∨ cleanups e tr = 0 ∧ Spared e tr

section Traces

variable [DecidableEq ε]

theorem cleanups_append (e : ε) (tr evs : List (Event ε)) :
    cleanups e (tr ++ evs) = cleanups e tr + cleanups e evs :=
  List.countP_append

omit [DecidableEq ε] in
theorem spared_append (e : ε) (tr evs : List (Event ε)) :
    Spared e (tr ++ evs) ↔ Spared e tr ∨ Spared e evs := by
  simp only [Spared, List.mem_append]
  tauto

/-- Events of other entries do not matter. -/
theorem untouched_of_foreign {e : ε} {evs : List (Event ε)}
    (h : ∀ ev ∈ evs, ev.settles e = false) : Untouched e evs := by
  constructor
  · refine List.countP_eq_zero.mpr fun ev hev hc => ?_
    have hs := h ev hev
    cases ev
    case cleanup e' err => exact absurd (hs.symm.trans hc) Bool.false_ne_true
    all_goals exact absurd hc Bool.false_ne_true
  · rintro (hmem | hmem)
    · have hs := h _ hmem
      simp [Event.settles] at hs
    · have hs := h _ hmem
      simp [Event.settles] at hs

theorem Untouched.append {e : ε} {tr evs : List (Event ε)} (h : Untouched e tr)
    (hevs : Untouched e evs) : Untouched e (tr ++ evs) := by
  refine ⟨?_, fun hs => ?_⟩
  · rw [cleanups_append, h.1, hevs.1]
  · rcases (spared_append e tr evs).mp hs with hs | hs
    · exact h.2 hs
    · exact hevs.2 hs

theorem Settled.append {e : ε} {tr evs : List (Event ε)} (h : Settled e tr)
    (hevs : Untouched e evs) : Settled e (tr ++ evs) := by
  unfold Settled at h ⊢
  rw [cleanups_append, hevs.1, spared_append]
  have := hevs.2
  tauto

/-- The last events decide about an untouched entry. -/
theorem Untouched.settle {e : ε} {tr evs : List (Event ε)} (h : Untouched e tr)
    (hevs : Settled e evs) : Settled e (tr ++ evs) := by
  unfold Settled at hevs ⊢
  rw [cleanups_append, h.1, Nat.zero_add, spared_append]
  have := h.2
  tauto

end Traces

/-! ## The invariant -/

/-- The entry whose callback or error handler is running. -/
def WorkerPc.inCall : WorkerPc ε → Option ε
  | .running e | .handler e _ => some e
  | _ => none

theorem WorkerPc.inCall_wake (pc : WorkerPc ε) : pc.wake.inCall = pc.inCall := by
  cases pc <;> rfl

/-- The entries that have left the list. -/
def gone (tr : List (Event ε)) : List ε := removed tr ++ drained tr

theorem mem_gone_append {e : ε} {tr evs : List (Event ε)} :
    e ∈ gone (tr ++ evs) ↔ e ∈ gone tr ∨ e ∈ gone evs := by
  simp only [gone, removed_append, drained_append, List.mem_append]
  tauto

section Invariant

variable [DecidableEq φ] [DecidableEq π]

structure Settlement (s : SpecState φ π) : Prop where
  listed : ∀ e, e ∉ gone s.trace → Untouched e s.trace
  inCall : ∀ e, s.worker.inCall = some e → Untouched e s.trace
  gone : ∀ e ∈ gone s.trace, s.worker.inCall ≠ some e → e.cleanup.isSome → Settled e s.trace

theorem Settlement.init : Settlement (specQueue φ π).init := by
  have hnil : ∀ e : WorkqueueEntry φ π, Untouched e [] := fun e =>
    untouched_of_foreign fun ev hev => absurd hev List.not_mem_nil
  constructor
  case listed => exact fun e _ => hnil e
  case inCall => intro e h; cases h
  case gone => exact fun e he => absurd he List.not_mem_nil

/-- A move in which nothing is decided and nothing leaves the list. -/
theorem Settlement.of_idle {s s' : SpecState φ π} (h : Settlement s) {evs : List (Event _)}
    (hev : ∀ e, ∀ ev ∈ evs, ev.settles e = false) (hr : removed evs = []) (hd : drained evs = [])
    (htr : s'.trace = s.trace ++ evs) (hcall : s'.worker.inCall = s.worker.inCall) :
    Settlement s' := by
  have hgone : Workqueue.gone s'.trace = Workqueue.gone s.trace := by
    simp [Workqueue.gone, htr, hr, hd]
  have hforeign := fun e => untouched_of_foreign (hev e)
  constructor
  case listed =>
    intro e he
    rw [hgone] at he
    rw [htr]
    exact (h.listed e he).append (hforeign e)
  case inCall =>
    intro e he
    rw [hcall] at he
    rw [htr]
    exact (h.inCall e he).append (hforeign e)
  case gone =>
    intro e he hne hsome
    rw [hgone] at he
    rw [hcall] at hne
    rw [htr]
    exact (h.gone e he hne hsome).append (hforeign e)

/-- A move that is about the untouched entry `e`: it is called or its call goes
on with nothing decided, or no call is left and it is settled. -/
theorem Settlement.of_decision {s s' : SpecState φ π} (h : Settlement s)
    {e : WorkqueueEntry φ π} {evs : List (Event _)} (he : Untouched e s.trace)
    (hcall : ∀ e', s.worker.inCall = some e' → e' = e)
    (hgone : ∀ e', e' ∈ Workqueue.gone s'.trace ↔ e' ∈ Workqueue.gone s.trace ∨ e' = e)
    (hev : ∀ e', e' ≠ e → ∀ ev ∈ evs, ev.settles e' = false) (htr : s'.trace = s.trace ++ evs)
    (hnext : s'.worker.inCall = some e ∧ Untouched e evs ∨
      s'.worker.inCall = none ∧ (e.cleanup.isSome → Settled e evs)) : Settlement s' := by
  have hforeign := fun e' hne => untouched_of_foreign (hev e' hne)
  constructor
  case listed =>
    intro e' he'
    rw [hgone, not_or] at he'
    rw [htr]
    exact (h.listed e' he'.1).append (hforeign e' he'.2)
  case inCall =>
    intro e' he'
    rcases hnext with ⟨hsame, huntouched⟩ | ⟨hnone, -⟩
    · cases hsame.symm.trans he'
      rw [htr]
      exact he.append huntouched
    · cases hnone.symm.trans he'
  case gone =>
    intro e' he' hne hsome
    rw [htr]
    by_cases heq : e' = e
    · subst heq
      rcases hnext with ⟨hsame, -⟩ | ⟨-, hsettled⟩
      · exact absurd hsame hne
      · exact he.settle (hsettled hsome)
    · have hold : e' ∈ Workqueue.gone s.trace := ((hgone e').mp he').resolve_right heq
      exact (h.gone e' hold (fun hc => heq (hcall e' hc)) hsome).append (hforeign e' heq)

/-- A result for the entry in call. -/
theorem Settlement.of_result {s s' : SpecState φ π} (h : Settlement s) (hledger : Ledger s)
    {e : WorkqueueEntry φ π} {evs : List (Event _)} (hhand : s.worker.hand = [e])
    (hcall : s.worker.inCall = some e) (hev : ∀ ev ∈ evs, ev.settles e = true)
    (htr : s'.trace = s.trace ++ evs)
    (hnext : s'.worker.inCall = some e ∧ Untouched e evs ∨
      s'.worker.inCall = none ∧ (e.cleanup.isSome → Settled e evs)) : Settlement s' := by
  obtain ⟨-, hr, -, hd, -⟩ := accounts_quiet fun ev h => Event.isQuiet_of_settles (hev ev h)
  have hmem : e ∈ Workqueue.gone s.trace := by
    rw [Workqueue.gone, ← hledger.freed_eq, hhand]
    exact List.mem_append_right _ List.mem_cons_self
  refine h.of_decision (h.inCall e hcall) ?_ (fun e' => ?_)
    (fun e' hne ev h => Event.not_settles (hev ev h) hne) htr hnext
  · exact fun e' hc => Option.some.inj (hc.symm.trans hcall)
  · have hgone : Workqueue.gone s'.trace = Workqueue.gone s.trace := by
      simp [Workqueue.gone, htr, hr, hd]
    rw [hgone]
    exact ⟨.inl, fun h' => h'.elim id fun heq => heq ▸ hmem⟩

omit [DecidableEq φ] [DecidableEq π] in
/-- What is still listed has not left. -/
theorem not_mem_gone {s : SpecState φ π} (hfresh : Fresh s) (hledger : Ledger s)
    {e : WorkqueueEntry φ π} (he : e ∈ s.entries) : e ∉ gone s.trace := by
  intro hmem
  have hnodup := nodup_of_fresh hfresh
  rw [← hledger.conserve] at hnodup
  exact (List.nodup_append.mp hnodup).2.2 e hmem e he rfl

/-! ### What the events of a step decide -/

theorem cleanupEvents_settles (e : WorkqueueEntry φ π) (err : Int) :
    ∀ ev ∈ cleanupEvents e err, ev.settles e = true := by
  unfold cleanupEvents
  split <;> simp [Event.settles]

omit [DecidableEq φ] [DecidableEq π] in
theorem cleanupEvents_eq {e : WorkqueueEntry φ π} (h : e.cleanup.isSome) (err : Int) :
    cleanupEvents e err = [.cleanup e err] :=
  if_pos h

theorem settled_of_success (e : WorkqueueEntry φ π) : Settled e [.cbEnd e 0] :=
  .inr ⟨rfl, .inl List.mem_cons_self⟩

theorem settled_of_forgiven (e : WorkqueueEntry φ π) : Settled e [.errEnd e 0] :=
  .inr ⟨rfl, .inr List.mem_cons_self⟩

theorem untouched_of_failure (e : WorkqueueEntry φ π) {r : Int} (hr : r ≠ 0) :
    Untouched e [.cbEnd e r] :=
  ⟨rfl, by simp [Spared, hr.symm]⟩

theorem settled_of_failAlone {e : WorkqueueEntry φ π} (h : e.cleanup.isSome) {r : Int}
    (hr : r ≠ 0) : Settled e (.cbEnd e r :: cleanupEvents e r) := by
  rw [cleanupEvents_eq h]
  exact .inl ⟨by simp [cleanups], by simp [Spared, hr.symm]⟩

theorem settled_of_giveUp {e : WorkqueueEntry φ π} (h : e.cleanup.isSome) {r : Int} (err : Int)
    (hr : r ≠ 0) : Settled e (.errEnd e r :: cleanupEvents e err) := by
  rw [cleanupEvents_eq h]
  exact .inl ⟨by simp [cleanups], by simp [Spared, hr.symm]⟩

theorem settled_of_drain {e : WorkqueueEntry φ π} (h : e.cleanup.isSome) :
    Settled e (.drain e :: cleanupEvents e 0 ++ [.free e]) := by
  rw [cleanupEvents_eq h]
  exact .inl ⟨by simp [cleanups], by simp [Spared]⟩

theorem Settlement.move {s s' : SpecState φ π} {a : Action φ π} (h : Settlement s)
    (hfresh : Fresh s) (hledger : Ledger s) (hm : Move s a s') : Settlement s' := by
  have hnil := (List.append_nil s.trace).symm
  have none_idle : ∀ e : WorkqueueEntry φ π, ∀ ev ∈ ([] : List (Event _)), ev.settles e = false :=
    fun _ _ hev => absurd hev List.not_mem_nil
  have single_idle : ∀ (ev : Event (WorkqueueEntry φ π)) e', ev.settles e' = false →
      ∀ ev' ∈ [ev], ev'.settles e' = false := fun ev e' hs ev' hev =>
    List.eq_of_mem_singleton hev ▸ hs
  cases hm
  case take r e rest hw he hx =>
    have hun : Untouched e s.trace :=
      h.listed e (not_mem_gone hfresh hledger (he ▸ List.mem_cons_self))
    refine h.of_decision hun (fun e' hc => ?_) (fun e' => ?_) (fun e' _ => ?_) rfl
      (.inl ⟨rfl, rfl, by simp [Spared]⟩)
    · rw [hw] at hc
      cases hc
    · exact mem_gone_append.trans (or_congr_right List.mem_singleton)
    · simp [Event.settles]
  case drain e rest hp he =>
    have hun : Untouched e s.trace :=
      h.listed e (not_mem_gone hfresh hledger (he ▸ List.mem_cons_self))
    have hcall : s.worker.inCall = none := by
      rw [hledger.joined (by rw [hp]; rfl)]
      rfl
    obtain ⟨-, hr, -, hd, -⟩ := accounts_cons_cleanup (.drain e) e 0
    refine h.of_decision hun (fun e' hc => ?_) (fun e' => ?_) (fun e' hne => ?_)
      (List.append_assoc _ _ _) (.inr ⟨hcall, settled_of_drain⟩)
    · cases hcall.symm.trans hc
    · have hgone : Workqueue.gone (.drain e :: cleanupEvents e 0 ++ [.free e]) = [e] := by
        rw [Workqueue.gone, removed_append, drained_append, hr, hd]
        rfl
      show e' ∈ Workqueue.gone (s.trace ++ .drain e :: cleanupEvents e 0 ++ [.free e]) ↔ _
      rw [List.append_assoc, mem_gone_append, hgone, List.mem_singleton]
    · have hforeign : ∀ ev ∈ cleanupEvents e 0, ev.settles e' = false :=
        fun ev h => Event.not_settles (cleanupEvents_settles e 0 ev h) hne
      exact List.forall_mem_append.mpr
        ⟨List.forall_mem_cons.mpr ⟨rfl, hforeign⟩, single_idle _ _ rfl⟩
  case succeed e hw =>
    exact h.of_result hledger (by rw [hw]; rfl) (by rw [hw]; rfl) (by simp [Event.settles]) rfl
      (.inr ⟨rfl, fun _ => settled_of_success e⟩)
  case failAlone r e hw hr hn =>
    refine h.of_result hledger (by rw [hw]; rfl) (by rw [hw]; rfl) ?_ rfl
      (.inr ⟨rfl, fun hsome => settled_of_failAlone hsome hr⟩)
    exact List.forall_mem_cons.mpr ⟨by simp [Event.settles], cleanupEvents_settles e r⟩
  case fail r e hw hr hn =>
    exact h.of_result hledger (by rw [hw]; rfl) (by rw [hw]; rfl) (by simp [Event.settles]) rfl
      (.inl ⟨rfl, untouched_of_failure e hr⟩)
  case forgive e err hw =>
    exact h.of_result hledger (by rw [hw]; rfl) (by rw [hw]; rfl) (by simp [Event.settles]) rfl
      (.inr ⟨rfl, fun _ => settled_of_forgiven e⟩)
  case giveUp r e err hw hr =>
    refine h.of_result hledger (by rw [hw]; rfl) (by rw [hw]; rfl) ?_ rfl
      (.inr ⟨rfl, fun hsome => settled_of_giveUp hsome err hr⟩)
    exact List.forall_mem_cons.mpr ⟨by simp [Event.settles], cleanupEvents_settles e err⟩
  case park r hw =>
    exact h.of_idle (fun e => single_idle .park e rfl) rfl rfl rfl (by rw [hw]; rfl)
  case append t req e ht =>
    exact h.of_idle (fun e' => single_idle (.append e) e' rfl) rfl rfl rfl rfl
  case free r e hw =>
    exact h.of_idle (fun e' => single_idle (.free e) e' rfl) rfl rfl rfl (by rw [hw]; rfl)
  case freeLast r e hw =>
    exact h.of_idle (fun e' => single_idle (.free e) e' rfl) rfl rfl rfl (by rw [hw]; rfl)
  case signal => exact h.of_idle none_idle rfl rfl hnil s.worker.inCall_wake
  case signalStop => exact h.of_idle none_idle rfl rfl hnil s.worker.inCall_wake
  case refuse => exact h
  -- the other moves make no event and leave the worker where it is in no call
  all_goals exact h.of_idle none_idle rfl rfl hnil (by simp [*, WorkerPc.inCall])

theorem settlement_of_reachable {a : SpecState φ π} (ha : (specQueue φ π).Reachable a) :
    Settlement a :=
  invariant_of_moves Settlement.init
    (fun _ _ _ hr h _ hm => h.move (fresh_of_reachable hr) (ledger_of_reachable hr) hm) ha

end Invariant

/-! ## Results -/

/-- The step does not return 0 from the callback or the error handler of an
entry with a cleanup. -/
def okResult {σ : Type} (s : State σ (WorkqueueEntry φ π)) : Action φ π → Bool
  | .worker result =>
    match s.worker.inCall with
    | some e => e.cleanup.isNone || result ≠ 0
    | none => true
  | _ => true

theorem okResult_iff {σ : Type} {s : State σ (WorkqueueEntry φ π)} {a : Action φ π} :
    okResult s a = true ↔
      ∀ e, s.worker.inCall = some e → a = .worker 0 → e.cleanup.isSome → False := by
  cases a with
  | worker r =>
    cases hc : s.worker.inCall with
    | none => simp [okResult, hc]
    | some e => cases hcl : e.cleanup <;> simp [okResult, hc, hcl]
  | enqueuer t req => simp [okResult]
  | stopper => simp [okResult]

/-- No entry with a cleanup has been spared. -/
def NoneSpared (tr : List (Event (WorkqueueEntry φ π))) : Prop :=
  ∀ e, e.cleanup.isSome → ¬Spared e tr

theorem cleanupEvents_not_spared (e e' : WorkqueueEntry φ π) (err : Int) :
    ¬Spared e' (cleanupEvents e err) := by
  unfold cleanupEvents
  split <;> simp [Spared]

theorem spared_cons_cleanup (e' : WorkqueueEntry φ π) (ev : Event (WorkqueueEntry φ π))
    (e : WorkqueueEntry φ π) (err : Int) :
    Spared e' (ev :: cleanupEvents e err) ↔ Spared e' [ev] := by
  rw [← List.singleton_append, spared_append]
  exact or_iff_left (cleanupEvents_not_spared e e' err)

/-- An entry is spared by the moves that return 0 from its call. -/
theorem Move.spared_iff {s s' : SpecState φ π} {a : Action φ π} (hm : Move s a s')
    (e : WorkqueueEntry φ π) :
    Spared e s'.trace ↔ Spared e s.trace ∨ s.worker.inCall = some e ∧ a = .worker 0 := by
  cases hm
  case failAlone r e' hw hr hn =>
    rw [spared_append, spared_cons_cleanup]
    simp [Spared, hr, hr.symm]
  case fail r e' hw hr hn =>
    rw [spared_append]
    simp [Spared, hr, hr.symm]
  case forgive e' err hw =>
    rw [spared_append, hw]
    simp [Spared, WorkerPc.inCall, eq_comm]
  case giveUp r e' err hw hr =>
    rw [spared_append, spared_cons_cleanup]
    simp [Spared, hr, hr.symm]
  case drain e' rest hp he =>
    rw [spared_append, spared_append, spared_cons_cleanup]
    simp [Spared]
  case succeed e' hw =>
    rw [spared_append, hw]
    simp [Spared, WorkerPc.inCall, eq_comm]
  -- the other moves return from no call
  all_goals simp [Spared, WorkerPc.inCall, *]

/-- Who is spared, in one step: the test and the trace agree. -/
theorem noneSpared_iff_of_move {s s' : SpecState φ π} {a : Action φ π} (hm : Move s a s') :
    NoneSpared s'.trace ↔ NoneSpared s.trace ∧ okResult s a = true := by
  simp only [NoneSpared, hm.spared_iff, okResult_iff, not_or]
  constructor
  · intro h
    exact ⟨fun e he => (h e he).1, fun e hc ha he => (h e he).2 ⟨hc, ha⟩⟩
  · rintro ⟨hold, hok⟩ e he
    exact ⟨hold e he, fun hc => hok e hc.1 hc.2 he⟩

variable [DecidableEq φ] [DecidableEq π]

/-- A run has met the test in every step exactly if it has spared nobody. -/
theorem noneSpared_iff (garbage : EntryMem φ π) {acts : List (Action φ π)} {c : MemState φ π}
    (hrun : (queue garbage).run (queue garbage).init acts = some c) :
    NoneSpared c.trace ↔
      ((queue garbage).restrict okResult).run (queue garbage).init acts = some c := by
  refine System.run_restrict_iff (Q := fun c : MemState φ π => NoneSpared c.trace) ?_ ?_ hrun
  · intro e _ hs
    rcases hs with hs | hs <;> cases hs
  · intro c x c' hc hx
    obtain ⟨l, l', -, hstep, -⟩ := exists_step_over garbage hc hx
    exact noneSpared_iff_of_move (move_of_step hstep)

/-- The books at the end: with the drain over and the list empty, every entry
that was appended is settled, and no other one has been touched. -/
theorem settled_of_done (garbage : EntryMem φ π) {c : MemState φ π}
    (hc : (queue garbage).Reachable c) (hdone : c.stopper = .done)
    (hempty : (memOps garbage).llistIsEmpty c.entries = true) :
    (∀ e ∈ appended c.trace, e.cleanup.isSome → Settled e c.trace) ∧
      ∀ e, e ∉ appended c.trace → Untouched e c.trace := by
  obtain ⟨l, Es, ha, hholds⟩ := exists_over_of_reachable garbage hc
  have hledger : Ledger (c.over l) := ledger_of_reachable ha
  have hsettle : Settlement (c.over l) := settlement_of_reachable ha
  rw [hholds.llistIsEmpty_eq garbage, List.isEmpty_iff] at hempty
  have hconserve : gone c.trace ++ l = appended c.trace := hledger.conserve
  have hworker : c.worker = .returned := hledger.joined (congrArg StopperPc.isJoined hdone)
  rw [← hconserve, hempty, List.append_nil]
  constructor
  · intro e he hsome
    refine hsettle.gone e he (fun hin => ?_) hsome
    rw [show (c.over l).worker = .returned from hworker] at hin
    cases hin
  · exact fun e he => hsettle.listed e he

/-- **Cleanup exactly once, unless a callback or handler returns 0.** In every
run that ends with the queue drained by `stop_workqueue`: `cleanup` has been
called exactly once for every appended entry that has one, if and only if no
step of the run has returned 0 from the callback or the error handler of such
an entry. -/
theorem cleanup_exactly_once_iff (garbage : EntryMem φ π) {acts : List (Action φ π)}
    {c : MemState φ π} (hrun : (queue garbage).run (queue garbage).init acts = some c)
    (hdone : c.stopper = .done) (hempty : (memOps garbage).llistIsEmpty c.entries = true) :
    (∀ e ∈ appended c.trace, e.cleanup.isSome → cleanups e c.trace = 1) ↔
      ((queue garbage).restrict okResult).run (queue garbage).init acts = some c := by
  obtain ⟨hsettled, huntouched⟩ :=
    settled_of_done garbage (System.reachable_of_run acts hrun) hdone hempty
  rw [← noneSpared_iff garbage hrun]
  constructor
  · intro honce e hsome
    by_cases he : e ∈ appended c.trace
    · rcases hsettled e he hsome with ⟨-, hnot⟩ | ⟨hzero, -⟩
      · exact hnot
      · have hone := honce e he hsome
        omega
    · exact (huntouched e he).2
  · intro hnone e he hsome
    rcases hsettled e he hsome with ⟨hone, -⟩ | ⟨-, hspared⟩
    · exact hone
    · exact absurd hspared (hnone e hsome)

/-- The callback of the first job fails; the second job is drained. -/
def failThenDrain : List (Action Unit Unit) :=
  List.replicate 3 (.worker 0) ++ enqueueAll 0 ++ [.worker 0, .worker 0, .worker (-1)] ++
    List.replicate 4 (.worker 0) ++ List.replicate 4 (.enqueuer 1 job) ++ [.stopper, .stopper] ++
    List.replicate 3 (.worker 0) ++ [.stopper, .stopper, .stopper]

theorem cleanup_exactly_once_iff_failThenDrain :
    ∃ c, (queue zeroMem).run (queue zeroMem).init failThenDrain = some c ∧
      (appended c.trace).length = 2 ∧
      ∀ e ∈ appended c.trace, e.cleanup.isSome → cleanups e c.trace = 1 := by
  have hrun : (queue zeroMem).run (queue zeroMem).init failThenDrain = some _ := rfl
  exact ⟨_, hrun, rfl, (cleanup_exactly_once_iff zeroMem hrun rfl rfl).mpr rfl⟩

/-- The callback of the first job returns 0, and nobody calls its cleanup. -/
theorem success_forgets_cleanup :
    ¬∀ acts c, (queue zeroMem).run (queue zeroMem).init acts = some c → c.stopper = .done →
      (memOps zeroMem).llistIsEmpty c.entries = true →
      ∀ e ∈ appended c.trace, e.cleanup.isSome → cleanups e c.trace = 1 := by
  intro hclaim
  have honce := hclaim runThenDrain _ rfl rfl rfl ⟨0, (), none, some (), ()⟩ (by decide) rfl
  exact absurd honce (by decide)

end Pixelflut.Workqueue
