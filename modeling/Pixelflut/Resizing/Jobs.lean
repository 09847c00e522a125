import Pixelflut.Resizing.Privs

/-!
# Resizes arrive in order, or not at all

* `Verdict`: as long as all its resizes have succeeded a worker goes on; the
  first one that fails sets `do_exit`, and the worker makes no other one;
* `Inv.step`: a thread that is not blocked can go on, and the invariant holds
  again;
* `resizes_in_order`: what a worker has called `fb_resize` with is the
  beginning of what `resize_cb` has handed to its queue;
* `resize_privs_accounted`: no step of a thread that is not blocked touches a
  freed block, and the blocks that are left are those of the main thread and of
  the jobs that have not been cleaned up.
-/

namespace Pixelflut.Resizing

open Function (update)
open Lib.BlockHeap Lib.Transition Framebuffer
open Queues (Fn ResizeWqPriv)
open Workqueue hiding State Action step

variable {M : Setup}

/-! ## Failures -/

/-- The worker has had a failure, and has not returned. -/
def WorkerPc.hasFailed {ε : Type} : WorkerPc ε → Bool
  | .handler _ _ | .failing _ | .unlocked _ => true
  | _ => false

/-- The worker is past its error handler, or it has returned. -/
def WorkerPc.isPast {ε : Type} : WorkerPc ε → Bool
  | .failing _ | .unlocked _ | .returned => true
  | _ => false

/-- All callbacks have succeeded, or the last one has failed, and the worker is
in the error handler or behind it. -/
def Verdict {σ : Type} (s : Workqueue.State σ Entry) (doExit : Bool) : Prop :=
  (∀ x ∈ called s.trace, x.2 = 0) ∧ WorkerPc.hasFailed s.worker = false ∨
    ∃ before e r, called s.trace = before ++ [(e, r)] ∧ (∀ x ∈ before, x.2 = 0) ∧ r ≠ 0 ∧
      (s.worker = .handler e r ∨ doExit = true ∧ WorkerPc.isPast s.worker = true)

theorem Verdict.mono {σ : Type} {s : Workqueue.State σ Entry} {d d' : Bool} (h : Verdict s d)
    (hd : d = true → d' = true) : Verdict s d' := by
  refine h.imp_right ?_
  rintro ⟨before, e, r, hcalled, hbefore, hr, hpc⟩
  exact ⟨before, e, r, hcalled, hbefore, hr, hpc.imp_right (And.imp_left hd)⟩

/-- No callback returns. -/
theorem Verdict.of_same {σ : Type} {s s' : Workqueue.State σ Entry} {d : Bool} (h : Verdict s d)
    (hcalled : called s'.trace = called s.trace)
    (hfailed : WorkerPc.hasFailed s.worker = false → WorkerPc.hasFailed s'.worker = false)
    (hhandler : ∀ e r, s.worker = .handler e r → s'.worker = .handler e r)
    (hpast : WorkerPc.isPast s.worker = true → WorkerPc.isPast s'.worker = true) : Verdict s' d := by
  unfold Verdict
  rw [hcalled]
  rcases h with ⟨hall, hno⟩ | ⟨before, e, r, hlast, hbefore, hr, hpc⟩
  · exact .inl ⟨hall, hfailed hno⟩
  · exact .inr ⟨before, e, r, hlast, hbefore, hr, hpc.imp (hhandler e r) (And.imp_right hpast)⟩

/-- A worker that is neither in the handler nor past it has had no failure. -/
theorem Verdict.clean {σ : Type} {s : Workqueue.State σ Entry} {d : Bool} (h : Verdict s d)
    (hpast : WorkerPc.isPast s.worker = false) (hhandler : ∀ e r, s.worker ≠ .handler e r) :
    ∀ x ∈ called s.trace, x.2 = 0 := by
  rcases h with ⟨hall, -⟩ | ⟨before, e, r, -, -, -, hpc | ⟨-, hpc⟩⟩
  · exact hall
  · exact absurd hpc (hhandler e r)
  · cases hpast.symm.trans hpc

/-- **A move of the worker from a place without a failure**, where no callback runs. -/
theorem Verdict.of_clean {s s' : SpecState Fn Nat} {r : Int} {d : Bool} (h : Verdict s d)
    (hm : Move s (.worker r) s') (hcall : s.worker.inCallback = [])
    (hfailed : WorkerPc.hasFailed s.worker = false) (hpast : WorkerPc.isPast s.worker = false) :
    Verdict s' d := by
  have hclean := h.clean hpast fun e r hpc => by rw [hpc] at hfailed; cases hfailed
  refine .inl ⟨?_, ?_⟩
  · rw [hm.called_eq, returning, hcall, List.map_nil, List.append_nil]
    exact hclean
  · cases hm
    case fail e hw hr hn => rw [hw] at hcall; cases hcall
    case giveUp e err hw hr => rw [hw] at hfailed; cases hfailed
    case unlock e hw => rw [hw] at hfailed; cases hfailed
    all_goals rfl

theorem Verdict.move {s s' : SpecState Fn Nat} {a : Workqueue.Action Fn Nat} {d d' : Bool}
    (h : Verdict s d) (hm : Move s a s') (hd : d = true → d' = true)
    (hjob : ∀ e, s.worker = .running e → e.err.isSome)
    (hresult : ∀ e err r, s.worker = .handler e err → a = .worker r → r = err ∧ d' = true) :
    Verdict s' d' := by
  have hcalled := hm.called_eq
  have hmove := hm
  cases hm
  case succeed e hw =>
    have hall := h.clean (by rw [hw]; rfl) (by rw [hw]; intro e r hpc; cases hpc)
    refine .inl ⟨?_, rfl⟩
    rw [hcalled, hw]
    simpa [returning, WorkerPc.inCallback, or_imp, forall_and] using hall
  case failAlone r e hw hr hn =>
    have hsome := hjob e hw
    rw [hn] at hsome
    cases hsome
  case fail r e hw hr hn =>
    have hall := h.clean (by rw [hw]; rfl) (by rw [hw]; intro e r hpc; cases hpc)
    refine .inr ⟨called s.trace, e, r, ?_, hall, hr, .inl rfl⟩
    rw [hcalled, hw]
    rfl
  case forgive e err hw =>
    obtain ⟨hzero, -⟩ := hresult e err 0 hw rfl
    -- the handler returns what the callback has returned, so it is not 0
    rcases h with ⟨-, hno⟩ | ⟨before, e', r, -, -, hr, hpc | ⟨-, hpc⟩⟩
    · rw [hw] at hno
      cases hno
    · cases hw.symm.trans hpc
      exact absurd hzero.symm hr
    · rw [hw] at hpc
      cases hpc
  case giveUp r e err hw hr =>
    obtain ⟨-, hd'⟩ := hresult e err r hw rfl
    rw [hw] at hcalled
    replace hcalled : called _ = called s.trace := hcalled.trans (List.append_nil _)
    rcases h with ⟨-, hno⟩ | ⟨before, e', r', hlast, hbefore, hr', -⟩
    · rw [hw] at hno
      cases hno
    · exact .inr ⟨before, e', r', hcalled.trans hlast, hbefore, hr', .inr ⟨hd', rfl⟩⟩
  case unlock r e hw =>
    refine (h.mono hd).of_same (hcalled.trans ?_) ?_ ?_ ?_ <;>
      simp [hw, returning, WorkerPc.inCallback, WorkerPc.hasFailed, WorkerPc.isPast]
  case freeLast r e hw =>
    refine (h.mono hd).of_same (hcalled.trans ?_) ?_ ?_ ?_ <;>
      simp [hw, returning, WorkerPc.inCallback, WorkerPc.hasFailed, WorkerPc.isPast]
  case signal t req e ht =>
    refine (h.mono hd).of_same (hcalled.trans (List.append_nil _)) ?_ ?_ ?_
    all_goals cases hw : s.worker <;> simp [WorkerPc.wake, WorkerPc.hasFailed, WorkerPc.isPast]
  case signalStop hp =>
    refine (h.mono hd).of_same (hcalled.trans (List.append_nil _)) ?_ ?_ ?_
    all_goals cases hw : s.worker <;> simp [WorkerPc.wake, WorkerPc.hasFailed, WorkerPc.isPast]
  case calloc => exact h.mono hd
  case refuse => exact h.mono hd
  case acquire => exact h.mono hd
  case append => exact (h.mono hd).of_same (hcalled.trans (List.append_nil _)) id (fun _ _ => id) id
  case release => exact h.mono hd
  case stop => exact h.mono hd
  case join => exact h.mono hd
  case finish => exact h.mono hd
  case drain => exact (h.mono hd).of_same (hcalled.trans (List.append_nil _)) id (fun _ _ => id) id
  case begin r hw _ | leave r hw _ | stay r hw _ | park r hw | wake r hw _ | retest r hw _ |
      take r _ _ hw _ _ | free r _ hw =>
    exact (h.mono hd).of_clean hmove (by rw [hw]; rfl) (by rw [hw]; rfl) (by rw [hw]; rfl)

/-! ## Calls -/

/-- What the workers have called `fb_resize` with is what the blocks of their
jobs were filled with. -/
def CallsAgree (c : State) : Prop :=
  ∀ i, (c.calls i).map (fun x => (some x.1, x.2)) =
    (called (c.queue i).trace).map fun x => (c.requests[x.1.priv]?, x.2)

theorem CallsAgree.put {c c' : State} (h : CallsAgree c) {i : Nat} {q : QueueState}
    {ret : List (Entry × Int)} (news : List (ResizeWqPriv × Int))
    (hqueue : c'.queue = update c.queue i q) (hrequests : c'.requests = c.requests)
    (hcalls : c'.calls = update c.calls i (c.calls i ++ news))
    (hcalled : called q.trace = called (c.queue i).trace ++ ret)
    (hnews : news.map (fun x => (some x.1, x.2)) = ret.map fun x => (c.requests[x.1.priv]?, x.2)) :
    CallsAgree c' := by
  intro j
  rw [hqueue, hrequests, hcalls]
  by_cases hj : j = i
  · subst hj
    rw [Function.update_self, Function.update_self, hcalled, List.map_append, List.map_append, h j,
      hnews]
  · rw [Function.update_of_ne hj, Function.update_of_ne hj, h j]

/-- A callback that has returned was that of an appended entry. -/
theorem mem_appended_of_called {garbage : EntryMem Fn Nat} {q : QueueState}
    (hq : (queue garbage).Reachable q) {x : Entry × Int} (hx : x ∈ called q.trace) :
    x.1 ∈ appended q.trace := by
  obtain ⟨l, -, ha, -⟩ := exists_over_of_reachable garbage hq
  have hledger : Ledger (q.over l) := ledger_of_reachable ha
  have hcalls : (called q.trace).map Prod.fst ++ q.worker.inCallback = started q.trace :=
    callsInOrder_of_reachable ha
  have hconserve : removed q.trace ++ drained q.trace ++ l = appended q.trace := hledger.conserve
  rw [← hconserve, ← show started q.trace = removed q.trace from hledger.started_eq, ← hcalls]
  simp only [List.mem_append, List.mem_map]
  exact .inl (.inl (.inl ⟨x, hx, rfl⟩))

/-- The private data of a job whose callback is running. -/
theorem Blocks.running {c : State} {hand : Option Nat} (h : Blocks M c hand) {i : Nat}
    (hq : (queue (M.garbage i)).Reachable (c.queue i)) {e : Entry}
    (hw : (c.queue i).worker = .running e) :
    e.err.isSome ∧ ∃ r, c.requests[e.priv]? = some r ∧ resizeWqCb c.privs e.priv = some r := by
  obtain ⟨l, -, ha, -⟩ := exists_over_of_reachable (M.garbage i) hq
  have hledger : Ledger ((c.queue i).over l) := ledger_of_reachable ha
  have hsettle : Settlement ((c.queue i).over l) := settlement_of_reachable ha
  have hfreed : freed (c.queue i).trace ++ (c.queue i).worker.hand =
      removed (c.queue i).trace ++ drained (c.queue i).trace := hledger.freed_eq
  have hconserve : removed (c.queue i).trace ++ drained (c.queue i).trace ++ l =
      appended (c.queue i).trace := hledger.conserve
  have hmem : e ∈ appended (c.queue i).trace := by
    rw [← hconserve, ← hfreed, hw]
    simp [WorkerPc.hand]
  have huntouched : cleanups e (c.queue i).trace = 0 :=
    (hsettle.inCall e (by rw [show ((c.queue i).over l).worker = .running e from hw]; rfl)).1
  obtain ⟨hjob, r, hr, -, -, hb⟩ := h.known i e (.inl hmem)
  rw [if_pos huntouched] at hb
  refine ⟨by rw [hjob.err]; rfl, r, hr, ?_⟩
  rw [resizeWqCb, Heap.load_of_block hb]
  rfl

/-! ## The invariant -/

/-- The block that the main thread has. -/
def MainPc.hand : MainPc → Option Nat
  | .filled resizePriv _ _ _ | .refused resizePriv => some resizePriv
  | _ => none

/-- The main thread is in `workqueue_enqueue` for queue `i`. -/
def MainPc.enqueuesAt (M : Setup) (i : Nat) : MainPc → Prop
  | .enqueuing _ fb _ _ => M.node fb = i
  | _ => False

/-- What the main thread relies on where it is. -/
def MainPc.Fits (M : Setup) (c : State) : MainPc → Prop
  | .filled resizePriv fb size _ => c.requests[resizePriv]? = some ⟨fb, size⟩
  | .enqueuing _ fb _ _ => (c.queue (M.node fb)).enqueuer 0 ≠ .idle
  | _ => True

/-- The jobs of a queue come in the order in which their blocks were allocated. -/
def InOrder {σ : Type} (s : Workqueue.State σ Entry) : Prop :=
  (line s 0).Pairwise fun e e' => e.priv < e'.priv

structure Inv (M : Setup) (c : State) : Prop where
  reach : ∀ i, (queue (M.garbage i)).Reachable (c.queue i)
  blocks : Blocks M c c.main.hand
  idle : ∀ i t, (c.queue i).enqueuer t ≠ .idle → t = 0 ∧ c.main.enqueuesAt M i
  fits : c.main.Fits M c
  calls : CallsAgree c
  verdict : ∀ i, Verdict (c.queue i) c.doExit
  order : ∀ i, InOrder (c.queue i)

theorem Inv.init (M : Setup) : Inv M (initState M) := by
  have hunknown : ∀ i e, ¬Known ((initState M).queue i) e := by
    rintro i e (he | ⟨t, ht⟩)
    · exact absurd he List.not_mem_nil
    · cases ht
  constructor
  case reach => exact fun i => .init
  case blocks =>
    constructor
    case size => rfl
    case known => exact fun i e he => absurd he (hunknown i e)
    case distinct => exact fun i j e e' he => absurd he (hunknown i e)
    case held => intro p hp; cases hp
    case owned => exact fun p hp => absurd rfl hp
  case idle => exact fun i t ht => absurd rfl ht
  case fits => trivial
  case calls => exact fun i => rfl
  case verdict => exact fun i => .inl ⟨fun x hx => absurd hx List.not_mem_nil, rfl⟩
  case order => exact fun i => List.Pairwise.nil

/-- A step of the main thread that touches no queue. -/
theorem Inv.of_main {c c' : State} (h : Inv M c) (hqueue : c'.queue = c.queue)
    (hblocks : Blocks M c' c'.main.hand) (hout : ∀ i, ¬c.main.enqueuesAt M i)
    (hfits : c'.main.Fits M c') (hcalls : CallsAgree c') (hexit : c'.doExit = c.doExit) :
    Inv M c' := by
  constructor
  case reach => rw [hqueue]; exact h.reach
  case blocks => exact hblocks
  case idle =>
    intro i t ht
    rw [hqueue] at ht
    exact absurd (h.idle i t ht).2 (hout i)
  case fits => exact hfits
  case calls => exact hcalls
  case verdict => rw [hqueue, hexit]; exact h.verdict
  case order => rw [hqueue]; exact h.order

/-- The main thread goes on with the block that it has. -/
theorem Inv.goto_main {c : State} (h : Inv M c) {pc : MainPc} (pc' : MainPc) (hmain : c.main = pc)
    (hout : ∀ i, ¬pc.enqueuesAt M i) (hhand : pc'.hand = pc.hand) (hfits : pc'.Fits M c) :
    Inv M { c with main := pc' } := by
  subst hmain
  have hblocks : Blocks M c pc'.hand := hhand ▸ h.blocks
  exact h.of_main rfl (hblocks.congr rfl rfl rfl) hout hfits h.calls rfl

/-! ## Steps of the queues -/

/-- Queue `i` has gone from `c.queue i` to `q`; the other queues stay. -/
theorem every_update {c : State} {i : Nat} {q : QueueState} (p : Nat → QueueState → Prop)
    (hq : p i q) (h : ∀ j, p j (c.queue j)) (j : Nat) : p j (update c.queue i q j) :=
  (Function.forall_update_iff c.queue p).mpr ⟨hq, fun j _ => h j⟩ j

/-- **A step of a worker or of `stop_workqueue`**, with what it does to `do_exit`
and to the calls made. -/
theorem Inv.put {c : State} (h : Inv M c) {i : Nat} {x : Workqueue.Action Fn Nat} {q : QueueState}
    (hx : Workqueue.step (memOps (M.garbage i)) (c.queue i) x = some q)
    (hthread : ∀ t req, x ≠ .enqueuer t req) {d : Bool} (hd : c.doExit = true → d = true)
    (news : List (ResizeWqPriv × Int))
    (hnews : news.map (fun x => (some x.1, x.2)) =
      (returning (c.queue i).worker x).map fun x => (c.requests[x.1.priv]?, x.2))
    (hresult : ∀ e err r, (c.queue i).worker = .handler e err → x = .worker r → r = err ∧ d = true) :
    ∃ c', putQueue { c with doExit := d, calls := update c.calls i (c.calls i ++ news) } i q =
      some c' ∧ Inv M c' := by
  obtain ⟨l, l', ha, hm⟩ := queue_step (h.reach i) hx
  have hknown : ∀ e, Known q e → Known (c.queue i) e := by
    rcases hm.known_cases with hsame | ⟨t, req, hreq, -⟩
    · exact hsame
    · exact absurd hreq (hthread t req)
  have henqueuer : ∀ j t, (update c.queue i q j).enqueuer t = (c.queue j).enqueuer t := by
    intro j t
    by_cases hj : j = i
    · subst hj
      rw [Function.update_self]
      exact hm.enqueuer_same fun req => hthread t req
    · rw [Function.update_of_ne hj]
  have hblocks : Blocks M { c with doExit := d, calls := update c.calls i (c.calls i ++ news) }
      c.main.hand := h.blocks.congr rfl rfl rfl
  obtain ⟨privs, hput, hblocks'⟩ := hblocks.put (h.reach i) hx hknown
  refine ⟨_, hput, ?_⟩
  constructor
  case reach =>
    exact every_update (fun j => (queue (M.garbage j)).Reachable)
      (.step (h.reach i) trivial hx) h.reach
  case blocks => exact hblocks'
  case idle =>
    intro j t ht
    refine h.idle j t ?_
    rw [← henqueuer]
    exact ht
  case fits =>
    have hfits := h.fits
    show c.main.Fits M _
    cases hmain : c.main <;> simp only [hmain, MainPc.Fits] at hfits ⊢
    case filled => exact hfits
    case enqueuing resizePriv fb size fbs =>
      rw [henqueuer]
      exact hfits
  case calls => exact h.calls.put news rfl rfl rfl hm.called_eq hnews
  case verdict =>
    refine every_update (fun _ q => Verdict q d) ?_ fun j => (h.verdict j).mono hd
    have hverdict : Verdict ((c.queue i).over l) c.doExit := h.verdict i
    exact hverdict.move hm hd (fun e he => (h.blocks.running (h.reach i) he).1) hresult
  case order =>
    refine every_update (fun _ => InOrder) ?_ h.order
    have hline : line q 0 = line (c.queue i) 0 := by
      rcases hm.line_cases fun t req heq => absurd heq (hthread t req) with hsame | ⟨req, heq, -⟩
      · exact hsame
      · exact absurd heq (hthread 0 req)
    exact (congrArg _ hline).mpr (h.order i)

/-- The same with no callback that returns. -/
theorem Inv.put_quiet {c : State} (h : Inv M c) {i : Nat} {x : Workqueue.Action Fn Nat}
    {q : QueueState} (hx : Workqueue.step (memOps (M.garbage i)) (c.queue i) x = some q)
    (hthread : ∀ t req, x ≠ .enqueuer t req) {d : Bool} (hd : c.doExit = true → d = true)
    (hquiet : returning (c.queue i).worker x = [])
    (hresult : ∀ e err r, (c.queue i).worker = .handler e err → x = .worker r → r = err ∧ d = true) :
    ∃ c', putQueue { c with doExit := d } i q = some c' ∧ Inv M c' := by
  obtain ⟨c', hput, hinv⟩ := h.put hx hthread hd [] (by rw [hquiet]; rfl) hresult
  rw [List.append_nil, Function.update_eq_self] at hput
  exact ⟨c', hput, hinv⟩

/-- Whether the worker is blocked does not depend on what it would report. -/
theorem isBlocked_worker (q : QueueState) (r : Int) :
    q.isBlocked (.worker r : Workqueue.Action Fn Nat) =
      q.isBlocked (.worker 0 : Workqueue.Action Fn Nat) := rfl

theorem Inv.worker {c : State} (h : Inv M c) {i : Nat} (result : Int)
    (hfree : (c.queue i).isBlocked (.worker 0 : Workqueue.Action Fn Nat) = false) :
    ∃ c', workerStep M c i result = some c' ∧ Inv M c' := by
  have hstep : ∀ r, ∃ q, workThread (memOps (M.garbage i)) (c.queue i) r = some q := by
    intro r
    have henabled := queue_step_isSome (M.garbage i) (h.reach i) (.worker r)
    rw [isBlocked_worker, hfree, Bool.not_false, Option.isSome_iff_exists] at henabled
    exact henabled
  have hthread : ∀ r t req, (.worker r : Workqueue.Action Fn Nat) ≠ .enqueuer t req :=
    fun r t req heq => by cases heq
  rw [workerStep]
  cases hw : (c.queue i).worker
  case running e =>
    obtain ⟨q, hq⟩ := hstep result
    obtain ⟨-, r, hr, hload⟩ := h.blocks.running (h.reach i) hw
    simp only [hload, hq, Option.bind_eq_bind, Option.bind_some]
    refine h.put (x := .worker result) hq (hthread result) id _ ?_ ?_
    · simp [hw, returning, WorkerPc.inCallback, hr]
    · intro e' err r' hh
      cases hw.symm.trans hh
  case handler e err =>
    obtain ⟨q, hq⟩ := hstep err
    simp only [resizeWqErr, hq, Option.bind_eq_bind, Option.bind_some]
    refine h.put_quiet (x := .worker err) hq (hthread err) (fun _ => rfl) ?_ ?_
    · rw [hw]
      rfl
    · intro e' err' r' hh hx
      cases hw.symm.trans hh
      cases hx
      exact ⟨rfl, rfl⟩
  all_goals
    obtain ⟨q, hq⟩ := hstep 0
    simp only [hq, Option.bind_eq_bind, Option.bind_some]
    refine h.put_quiet (x := .worker 0) hq (hthread 0) id ?_ ?_
    · rw [hw]
      rfl
    · intro e' err' r' hh
      cases hw.symm.trans hh

/-! ## Steps of the main thread -/

/-- The verdict on a queue that the main thread appends to. -/
theorem Verdict.enqueue {s s' : QueueState} {t : Nat}
    {req : Request Fn Nat} {d : Bool} (h : Verdict s d) {l l' : List Entry}
    (hm : Move (s.over l) (.enqueuer t req) (s'.over l'))
    (hjob : ∀ e, s.worker = .running e → e.err.isSome) : Verdict s' d :=
  have hover : Verdict (s.over l) d := h
  hover.move hm id hjob fun _ _ _ _ hx => by cases hx

/-- Behind a step of the main thread in `workqueue_enqueue`, nobody else is there. -/
theorem idle_update {c : State} {i : Nat} {q : QueueState}
    (hothers : ∀ j t, j ≠ i ∨ t ≠ 0 → (c.queue j).enqueuer t = .idle)
    (hsame : ∀ t, t ≠ 0 → q.enqueuer t = (c.queue i).enqueuer t) (j t : Nat)
    (ht : (update c.queue i q j).enqueuer t ≠ .idle) : j = i ∧ t = 0 ∧ q.enqueuer 0 ≠ .idle := by
  by_cases hj : j = i
  · subst hj
    rw [Function.update_self] at ht
    by_cases ht0 : t = 0
    · subst ht0
      exact ⟨rfl, rfl, ht⟩
    · exact absurd ((hsame t ht0).trans (hothers j t (.inr ht0))) ht
  · rw [Function.update_of_ne hj] at ht
    exact absurd (hothers j t (.inl hj)) ht

/-- **The first step of `workqueue_enqueue`**: the block goes into a new entry. -/
theorem Inv.fill {c : State} (h : Inv M c) {p fb : Nat} {size : FbSize} {fbs : List Nat}
    (hmain : c.main = .filled p fb size fbs) (hnode : M.node fb < M.numWorkqueues) :
    ∃ c', enqueueStep M { c with main := .enqueuing p fb size fbs } p fb true = some c' ∧
      Inv M c' := by
  have hidle : ∀ i t, (c.queue i).enqueuer t = .idle := by
    intro i t
    by_contra hne
    have hat := (h.idle i t hne).2
    rw [hmain] at hat
    exact hat
  have hfits : c.requests[p]? = some ⟨fb, size⟩ := by
    have hfits := h.fits
    rw [hmain] at hfits
    exact hfits
  have hblocks : Blocks M c (some p) := by
    have hblocks := h.blocks
    rw [hmain] at hblocks
    exact hblocks
  let i := M.node fb
  obtain ⟨q, hq⟩ : ∃ q, workqueueEnqueue (memOps (M.garbage i)) (c.queue i) 0 (request p true) =
      some q := by
    rw [workqueueEnqueue, hidle i 0]
    exact ⟨_, rfl⟩
  have hbusy : q.enqueuer 0 ≠ .idle := by
    have hq' := hq
    rw [workqueueEnqueue, hidle i 0] at hq'
    cases hq'
    simp
  obtain ⟨l, l', ha, hm⟩ := queue_step (x := .enqueuer 0 (request p true)) (h.reach i) hq
  have hblocks₁ : Blocks M { c with main := .enqueuing p fb size fbs } (some p) :=
    hblocks.congr rfl rfl rfl
  obtain ⟨hput, hblocks'⟩ := hblocks₁.fill hfits rfl hnode (h.reach i) (hidle i 0) hq
  refine ⟨_, by rw [enqueueStep, hq]; exact hput, ?_⟩
  constructor
  case reach =>
    exact every_update (fun j => (queue (M.garbage j)).Reachable)
      (.step (a := .enqueuer 0 (request p true)) (h.reach i) trivial hq) h.reach
  case blocks => exact hblocks'
  case idle =>
    intro j t ht
    obtain ⟨hj, ht0, -⟩ := idle_update (fun j t _ => hidle j t) (fun t ht0 =>
      hm.enqueuer_same fun req heq => by cases heq; exact ht0 rfl) j t ht
    exact ⟨ht0, hj.symm⟩
  case fits =>
    show (update c.queue i q i).enqueuer 0 ≠ .idle
    rw [Function.update_self]
    exact hbusy
  case calls =>
    exact h.calls.put (i := i) [] rfl rfl
      (by rw [List.append_nil, Function.update_eq_self]) hm.called_eq rfl
  case verdict =>
    refine every_update (fun _ q => Verdict q c.doExit) ?_ h.verdict
    exact (h.verdict i).enqueue hm fun e he => (h.blocks.running (h.reach i) he).1
  case order =>
    refine every_update (fun _ => InOrder) ?_ h.order
    -- the new block has the highest address
    obtain ⟨-, -, -, hhigh⟩ := hblocks.held p rfl
    rcases hm.line_cases (t := 0) (fun t req heq => by cases heq; rfl) with
      hsame | ⟨req, hreq, -, hlonger⟩
    · exact (congrArg _ (show line q 0 = line (c.queue i) 0 from hsame)).mpr (h.order i)
    · cases hreq
      rw [InOrder, show line q 0 = line (c.queue i) 0 ++ _ from hlonger]
      refine List.pairwise_append.mpr ⟨h.order i, List.pairwise_singleton _ _, ?_⟩
      intro e he e' he'
      rw [List.mem_singleton.mp he']
      exact hhigh i e (known_of_mem_line he)

/-- The steps behind it. -/
theorem Inv.enqueue {c : State} (h : Inv M c) {p fb : Nat} {size : FbSize} {fbs : List Nat}
    (hmain : c.main = .enqueuing p fb size fbs) (mallocOk callocOk : Bool)
    (hfree : (c.queue (M.node fb)).isBlocked (.enqueuer 0 (request p callocOk)) = false) :
    ∃ c', mainStep M c mallocOk callocOk = some c' ∧ Inv M c' := by
  let i := M.node fb
  have hbusy : (c.queue i).enqueuer 0 ≠ .idle := by
    have hfits := h.fits
    rw [hmain] at hfits
    exact hfits
  have hothers : ∀ j t, j ≠ i ∨ t ≠ 0 → (c.queue j).enqueuer t = .idle := by
    intro j t hjt
    by_contra hne
    obtain ⟨ht, hat⟩ := h.idle j t hne
    rw [hmain] at hat
    exact hjt.elim (fun hj => hj hat.symm) fun ht0 => ht0 ht
  obtain ⟨q, hq⟩ : ∃ q, workqueueEnqueue (memOps (M.garbage i)) (c.queue i) 0 (request p callocOk) =
      some q := by
    have henabled := queue_step_isSome (M.garbage i) (h.reach i) (.enqueuer 0 (request p callocOk))
    rw [hfree, Bool.not_false, Option.isSome_iff_exists] at henabled
    exact henabled
  obtain ⟨l, l', ha, hm⟩ := queue_step (x := .enqueuer 0 (request p callocOk)) (h.reach i) hq
  have hknown : ∀ e, Known q e → Known (c.queue i) e := by
    rcases hm.known_cases with hsame | ⟨t, req, hreq, hidle, -⟩
    · exact hsame
    · cases hreq
      exact absurd hidle hbusy
  have hblocks : Blocks M c none := by
    have hblocks := h.blocks
    rw [hmain] at hblocks
    exact hblocks
  obtain ⟨privs, hput, hblocks'⟩ :=
    hblocks.put (x := .enqueuer 0 (request p callocOk)) (h.reach i) hq hknown
  have hstep : enqueueStep M c p fb callocOk =
      some { c with queue := update c.queue i q, privs := privs } := by
    rw [enqueueStep, hq]
    exact hput
  have hreach := every_update (fun j => (queue (M.garbage j)).Reachable)
    (.step (a := .enqueuer 0 (request p callocOk)) (h.reach i) trivial hq) h.reach
  have hcalls : CallsAgree { c with queue := update c.queue i q, privs := privs } :=
    h.calls.put (i := i) [] rfl rfl
      (by rw [List.append_nil, Function.update_eq_self]) hm.called_eq rfl
  have hverdict : ∀ j, Verdict (update c.queue i q j) c.doExit :=
    every_update (fun _ q => Verdict q c.doExit)
      ((h.verdict i).enqueue hm fun e he => (h.blocks.running (h.reach i) he).1) h.verdict
  have horder : ∀ j, InOrder (update c.queue i q j) := by
    refine every_update (fun _ => InOrder) ?_ h.order
    rcases hm.line_cases (t := 0) (fun t req heq => by cases heq; rfl) with hsame | ⟨req, -, hidle, -⟩
    · exact (congrArg _ (show line q 0 = line (c.queue i) 0 from hsame)).mpr (h.order i)
    · exact absurd hidle hbusy
  have hidle := idle_update hothers fun t ht0 =>
    hm.enqueuer_same fun req heq => by cases heq; exact ht0 rfl
  rw [mainStep, hmain]
  simp only [hstep, Option.map_some]
  have hself : update c.queue i q (M.node fb) = q := Function.update_self i q c.queue
  rw [hself]
  cases hq0 : q.enqueuer 0
  case idle =>
    -- the call has returned 0
    refine ⟨_, rfl, hreach, hblocks'.congr rfl rfl rfl, fun j t ht => ?_, trivial, hcalls, hverdict,
      horder⟩
    exact absurd hq0 (hidle j t ht).2.2
  all_goals
    refine ⟨_, rfl, hreach, ?_, fun j t ht => ?_, ?_, hcalls, hverdict, horder⟩
    · show Blocks M _ c.main.hand
      rw [hmain]
      exact hblocks'.congr rfl rfl rfl
    · obtain ⟨hj, ht0, -⟩ := hidle j t ht
      refine ⟨ht0, ?_⟩
      show c.main.enqueuesAt M j
      rw [hmain]
      exact hj.symm
    · show c.main.Fits M _
      rw [hmain]
      show (update c.queue i q (M.node fb)).enqueuer 0 ≠ .idle
      rw [hself, hq0]
      intro heq
      cases heq

/-- What the thread waits for, or that it has nothing to do. -/
def State.isBlocked (M : Setup) (c : State) : Action → Bool
  | .resize _ _ | .deinit => decide (c.main ≠ .idle)
  | .main _ callocOk =>
    match c.main with
    | .idle | .ended => true
    | .enqueuing p fb _ _ => (c.queue (M.node fb)).isBlocked (.enqueuer 0 (request p callocOk))
    | .stopping i =>
      decide (i < M.numWorkqueues) && decide ((c.queue i).stopper ≠ .done) &&
        (c.queue i).isBlocked (.stopper : Workqueue.Action Fn Nat)
    | _ => false
  | .worker i _ =>
    decide (M.numWorkqueues ≤ i) || (c.queue i).isBlocked (.worker 0 : Workqueue.Action Fn Nat)

theorem Inv.mainStep {c : State} (h : Inv M c) (mallocOk callocOk : Bool)
    (hfree : c.isBlocked M (.main mallocOk callocOk) = false) :
    ∃ c', mainStep M c mallocOk callocOk = some c' ∧ Inv M c' := by
  have hblocks := h.blocks
  cases hmain : c.main
  case idle => simp [State.isBlocked, hmain] at hfree
  case ended => simp [State.isBlocked, hmain] at hfree
  case loop size fbs =>
    have hout : ∀ i, ¬c.main.enqueuesAt M i := fun i hat => by rw [hmain] at hat; exact hat
    rw [hmain] at hblocks
    rw [Resizing.mainStep, hmain]
    cases fbs with
    | nil => exact ⟨_, rfl, h.goto_main .idle hmain (fun _ => id) rfl trivial⟩
    | cons fb fbs =>
      cases mallocOk with
      | false => exact ⟨_, rfl, h.goto_main _ hmain (fun _ => id) rfl trivial⟩
      | true =>
        refine ⟨_, rfl, h.of_main rfl ((hblocks.alloc ⟨fb, size⟩).congr rfl rfl rfl) hout ?_ ?_ rfl⟩
        · show (c.requests ++ [(⟨fb, size⟩ : ResizeWqPriv)])[c.privs.fresh]? = _
          rw [← hblocks.size]
          exact List.getElem?_concat_length
        · -- the old requests stay where they are
          intro i
          refine (h.calls i).trans (List.map_congr_left fun x hx => ?_)
          obtain ⟨-, r, hr, -⟩ := hblocks.known i x.1 (.inl (mem_appended_of_called (h.reach i) hx))
          have hlt := (List.getElem?_eq_some_iff.mp hr).1
          show _ = ((c.requests ++ _)[x.1.priv]?, x.2)
          rw [List.getElem?_append_left hlt]
  case filled p fb size fbs =>
    have hrefused : Inv M { c with main := .refused p } :=
      h.goto_main (.refused p) hmain (fun _ => id) rfl trivial
    rw [Resizing.mainStep, hmain]
    by_cases hnode : M.node fb ≥ M.numWorkqueues
    · exact ⟨_, if_pos hnode, hrefused⟩
    · simp only [if_neg hnode]
      cases callocOk with
      | false => exact ⟨_, rfl, hrefused⟩
      | true => exact h.fill hmain (Nat.lt_of_not_le hnode)
  case enqueuing p fb size fbs =>
    refine h.enqueue hmain mallocOk callocOk ?_
    simpa [State.isBlocked, hmain] using hfree
  case refused p =>
    have hout : ∀ i, ¬c.main.enqueuesAt M i := fun i hat => by rw [hmain] at hat; exact hat
    rw [hmain] at hblocks
    obtain ⟨privs, hfreep, hblocks'⟩ := hblocks.free
    rw [Resizing.mainStep, hmain]
    simp only [hfreep, Option.map_some]
    exact ⟨_, rfl, h.of_main rfl (hblocks'.congr rfl rfl rfl) hout trivial h.calls rfl⟩
  case stopping i =>
    rw [Resizing.mainStep, hmain]
    by_cases hi : i < M.numWorkqueues
    · simp only [if_pos hi]
      by_cases hdone : (c.queue i).stopper = .done
      · simp only [hdone]
        exact ⟨_, rfl, h.goto_main _ hmain (fun _ => id) rfl trivial⟩
      · have henabled := queue_step_isSome (M.garbage i) (h.reach i) .stopper
        have hfree' : (c.queue i).isBlocked (.stopper : Workqueue.Action Fn Nat) = false := by
          simpa [State.isBlocked, hmain, hi, hdone] using hfree
        rw [hfree', Bool.not_false, Option.isSome_iff_exists] at henabled
        obtain ⟨q, hq⟩ := henabled
        have hq' : stopWorkqueue (memOps (M.garbage i)) (c.queue i) = some q := hq
        obtain ⟨c', hput, hinv⟩ := h.put_quiet (x := .stopper) hq (fun _ _ heq => by cases heq) id
          rfl fun _ _ _ _ hx => by cases hx
        refine ⟨c', ?_, hinv⟩
        cases hp : (c.queue i).stopper <;> first | exact absurd hp hdone | (simp [hq']; exact hput)
    · simp only [if_neg hi]
      exact ⟨_, rfl, h.goto_main _ hmain (fun _ => id) rfl trivial⟩

/-- **A thread that is not blocked can go on.** -/
theorem Inv.step {c : State} (h : Inv M c) (a : Action) (hfree : c.isBlocked M a = false) :
    ∃ c', step M c a = some c' ∧ Inv M c' := by
  cases a with
  | resize width height =>
    have hidle : c.main = .idle := by simpa [State.isBlocked] using hfree
    exact ⟨_, if_pos hidle, h.goto_main _ hidle (fun _ => id) rfl trivial⟩
  | deinit =>
    have hidle : c.main = .idle := by simpa [State.isBlocked] using hfree
    exact ⟨_, if_pos hidle, h.goto_main _ hidle (fun _ => id) rfl trivial⟩
  | main mallocOk callocOk => exact h.mainStep mallocOk callocOk hfree
  | worker i result =>
    simp only [State.isBlocked, Bool.or_eq_false_iff, decide_eq_false_iff_not, Nat.not_le] at hfree
    rw [Resizing.step, if_pos hfree.1]
    exact h.worker result hfree.2

/-- A thread that is blocked takes no step. -/
theorem Inv.step_eq_none {c : State} (h : Inv M c) (a : Action) (hblocked : c.isBlocked M a = true) :
    Resizing.step M c a = none := by
  have hqueue : ∀ i x, (c.queue i).isBlocked x = true →
      Workqueue.step (memOps (M.garbage i)) (c.queue i) x = none := by
    intro i x hx
    have henabled := queue_step_isSome (M.garbage i) (h.reach i) x
    rw [hx, Bool.not_true, Option.isSome_eq_false_iff, Option.isNone_iff_eq_none] at henabled
    exact henabled
  cases a with
  | resize width height => simpa [State.isBlocked, Resizing.step] using hblocked
  | deinit => simpa [State.isBlocked, Resizing.step] using hblocked
  | main mallocOk callocOk =>
    show Resizing.mainStep M c mallocOk callocOk = none
    cases hmain : c.main <;> simp only [State.isBlocked, hmain, Bool.false_eq_true] at hblocked
    case idle => rw [Resizing.mainStep, hmain]
    case ended => rw [Resizing.mainStep, hmain]
    case enqueuing p fb size fbs =>
      have hq : workqueueEnqueue (memOps (M.garbage (M.node fb))) (c.queue (M.node fb)) 0
          (request p callocOk) = none := hqueue (M.node fb) (.enqueuer 0 (request p callocOk)) hblocked
      rw [Resizing.mainStep, hmain]
      simp only [enqueueStep, hq, Option.bind_eq_bind, Option.bind_none, Option.map_none]
    case stopping i =>
      simp only [Bool.and_eq_true, decide_eq_true_eq] at hblocked
      obtain ⟨⟨hi, hdone⟩, hwait⟩ := hblocked
      have hq : stopWorkqueue (memOps (M.garbage i)) (c.queue i) = none := hqueue i .stopper hwait
      rw [Resizing.mainStep, hmain]
      simp only [if_pos hi]
      cases hp : (c.queue i).stopper <;> first | exact absurd hp hdone | simp [hq]
  | worker i result =>
    rw [Resizing.step]
    by_cases hi : i < M.numWorkqueues
    · have hq : workThread (memOps (M.garbage i)) (c.queue i) 0 = none := by
        refine hqueue i (.worker 0) ?_
        simpa [State.isBlocked, Nat.not_le.mpr hi] using hblocked
      have hwait : (c.queue i).isBlocked (.worker 0 : Workqueue.Action Fn Nat) = true := by
        simpa [State.isBlocked, Nat.not_le.mpr hi] using hblocked
      rw [if_pos hi, workerStep]
      -- a worker in a call is not blocked
      cases hw : (c.queue i).worker <;> simp only [hq, Option.bind_eq_bind, Option.bind_none]
      case running e => simp [Workqueue.State.isBlocked, hw] at hwait
      case handler e err => simp [Workqueue.State.isBlocked, hw] at hwait
    · rw [if_neg hi]

theorem inv_of_reachable {c : State} (hc : (jobs M).Reachable c) : Inv M c := by
  refine hc.invariant (Inv.init M) fun c a c' _ h _ hstep => ?_
  cases hblocked : c.isBlocked M a with
  | true => cases (h.step_eq_none a hblocked).symm.trans hstep
  | false =>
    obtain ⟨c'', hstep', h'⟩ := h.step a hblocked
    cases hstep'.symm.trans hstep
    exact h'

/-! ## Results -/

/-- What `resize_cb` has handed to a queue. -/
def State.submitted (c : State) (i : Nat) : List ResizeWqPriv :=
  (appended (c.queue i).trace).filterMap fun e => c.requests[e.priv]?

/-- Reading a list at ascending places. -/
theorem filterMap_getElem?_sublist {α : Type} (l : List α) {places : List Nat} {k : Nat}
    (hle : ∀ p ∈ places, k ≤ p) (h : places.Pairwise (· < ·)) :
    (places.filterMap fun p => l[p]?).Sublist (l.drop k) := by
  induction places generalizing k with
  | nil => exact List.nil_sublist _
  | cons p places ih =>
    obtain ⟨hfirst, hrest⟩ := List.pairwise_cons.mp h
    have hk : k ≤ p := hle p List.mem_cons_self
    have htail := ih (k := p + 1) (fun p' hp' => hfirst p' hp') hrest
    cases hp : l[p]? with
    | none =>
      rw [List.filterMap_cons_none hp]
      exact htail.trans (List.drop_sublist_drop_left l (Nat.le_succ_of_le hk))
    | some x =>
      obtain ⟨hlt, hx⟩ := List.getElem?_eq_some_iff.mp hp
      rw [List.filterMap_cons_some hp]
      refine List.Sublist.trans ?_ (List.drop_sublist_drop_left l hk)
      rw [List.drop_eq_getElem_cons hlt, hx]
      exact htail.cons_cons x

/-- The calls made are the beginning of what has been handed over. -/
theorem Inv.calls_prefix {c : State} (h : Inv M c) (i : Nat) :
    (c.calls i).map Prod.fst <+: c.submitted i := by
  obtain ⟨l, -, ha, -⟩ := exists_over_of_reachable (M.garbage i) (h.reach i)
  have hledger : Ledger ((c.queue i).over l) := ledger_of_reachable ha
  have hreturned : (called (c.queue i).trace).map Prod.fst ++ (c.queue i).worker.inCallback =
      started (c.queue i).trace := callsInOrder_of_reachable ha
  have hconserve : removed (c.queue i).trace ++ drained (c.queue i).trace ++ l =
      appended (c.queue i).trace := hledger.conserve
  rw [← show started (c.queue i).trace = removed (c.queue i).trace from hledger.started_eq,
    ← hreturned] at hconserve
  have hread : (c.calls i).map Prod.fst =
      ((called (c.queue i).trace).map Prod.fst).filterMap fun e => c.requests[e.priv]? := by
    have hagree := congrArg (List.filterMap Prod.fst) (h.calls i)
    simpa [List.filterMap_map, Function.comp_def, List.filterMap_eq_map'] using hagree
  rw [hread, State.submitted, ← hconserve]
  simp only [List.append_assoc, List.filterMap_append]
  exact List.prefix_append _ _

/-- What has been handed over to a queue is for framebuffers of its node, in the
order in which `resize_cb` filled it in. -/
theorem Inv.submitted_sublist {c : State} (h : Inv M c) (i : Nat) :
    (c.submitted i).Sublist c.requests ∧ ∀ r ∈ c.submitted i, M.node r.fb = i := by
  constructor
  · have horder : ((appended (c.queue i).trace).map WorkqueueEntry.priv).Pairwise (· < ·) :=
      List.pairwise_map.mpr (List.pairwise_append.mp (h.order i)).1
    have hread := filterMap_getElem?_sublist c.requests (fun p _ => Nat.zero_le p) horder
    rwa [List.filterMap_map, List.drop_zero] at hread
  · intro r hr
    obtain ⟨e, he, hread⟩ := List.mem_filterMap.mp hr
    obtain ⟨-, r', hr', hnode, -⟩ := h.blocks.known i e (.inl he)
    cases hr'.symm.trans hread
    exact hnode

theorem Inv.failures {c : State} (h : Inv M c) (i : Nat) :
    (∀ x ∈ (c.calls i).dropLast, x.2 = 0) ∧ ∀ x ∈ c.calls i, x.2 ≠ 0 →
      (∃ e, (c.queue i).worker = .handler e x.2) ∨
        c.doExit = true ∧ WorkerPc.isPast (c.queue i).worker = true := by
  -- the results of the calls are those of the callbacks
  have hresults : (c.calls i).map Prod.snd = (called (c.queue i).trace).map Prod.snd := by
    have hagree := congrArg (List.map Prod.snd) (h.calls i)
    simpa [List.map_map, Function.comp_def] using hagree
  have hzero : ∀ {calls : List (ResizeWqPriv × Int)} {before : List (Entry × Int)},
      calls.map Prod.snd = before.map Prod.snd → (∀ x ∈ before, x.2 = 0) → ∀ x ∈ calls, x.2 = 0 := by
    intro calls before heq hall x hx
    have hmem : x.2 ∈ before.map Prod.snd := heq ▸ List.mem_map_of_mem hx
    obtain ⟨y, hy, hxy⟩ := List.mem_map.mp hmem
    exact hxy ▸ hall y hy
  rcases h.verdict i with ⟨hall, -⟩ | ⟨before, e, r, hlast, hbefore, -, hpc⟩
  · have hcalls := hzero hresults hall
    exact ⟨fun x hx => hcalls x (List.mem_of_mem_dropLast hx), fun x hx hne => absurd (hcalls x hx) hne⟩
  · rw [hlast, List.map_append, List.map_singleton] at hresults
    have hne : c.calls i ≠ [] := by
      intro hnil
      simp [hnil] at hresults
    have hsplit := List.dropLast_concat_getLast hne
    rw [← hsplit, List.map_append, List.map_singleton] at hresults
    obtain ⟨hinit, hfinal⟩ := List.append_inj' hresults rfl
    have hdrop := hzero hinit hbefore
    refine ⟨hdrop, fun x hx hx0 => ?_⟩
    rw [← hsplit, List.mem_append, List.mem_singleton] at hx
    rcases hx with hx | rfl
    · exact absurd (hdrop x hx) hx0
    · rw [List.singleton_inj.mp hfinal]
      exact hpc.imp_left fun hw => ⟨e, hw⟩

/-- **Resizes arrive in order, or not at all.** In every run of the main thread
and of any number of workers: what a worker has called `fb_resize` with is the
beginning of what `resize_cb` has handed to its queue, in the order in which it
was filled in, and all of it is for framebuffers of the worker's node; only the
last of these calls can have failed, and a failure sets `do_exit` before the
worker leaves its error handler and ends. -/
theorem resizes_in_order (M : Setup) {c : State} (hc : (jobs M).Reachable c) (i : Nat) :
    (c.calls i).map Prod.fst <+: c.submitted i ∧
      (c.submitted i).Sublist c.requests ∧ (∀ r ∈ c.submitted i, M.node r.fb = i) ∧
      (∀ x ∈ (c.calls i).dropLast, x.2 = 0) ∧
      ∀ x ∈ c.calls i, x.2 ≠ 0 → (∃ e, (c.queue i).worker = .handler e x.2) ∨
        c.doExit = true ∧ WorkerPc.isPast (c.queue i).worker = true := by
  have h := inv_of_reachable hc
  obtain ⟨hsublist, hnode⟩ := h.submitted_sublist i
  obtain ⟨hdrop, hfailed⟩ := h.failures i
  exact ⟨h.calls_prefix i, hsublist, hnode, hdrop, hfailed⟩

/-- One queue, two framebuffers. -/
def oneNode : Setup := ⟨1, [0, 1], fun _ => 0, fun _ =>
  ⟨fun _ => none, fun _ => none, fun _ => none, fun _ => none, fun _ => none⟩⟩

/-- Both framebuffers are to be resized; the first `fb_resize` runs out of memory. -/
def failFirst : List Action :=
  List.replicate 3 (.worker 0 0) ++ .resize 8 6 :: List.replicate 13 (.main true true) ++
    List.replicate 2 (.worker 0 0) ++ .worker 0 (-12) :: List.replicate 3 (.worker 0 0)

theorem resizes_in_order_failFirst :
    ∃ c, (jobs oneNode).run (jobs oneNode).init failFirst = some c ∧
      (c.calls 0).map Prod.fst <+: c.submitted 0 ∧
      (c.submitted 0).Sublist c.requests ∧ (∀ r ∈ c.submitted 0, oneNode.node r.fb = 0) ∧
      (∀ x ∈ (c.calls 0).dropLast, x.2 = 0) ∧
      ∀ x ∈ c.calls 0, x.2 ≠ 0 → (∃ e, (c.queue 0).worker = .handler e x.2) ∨
        c.doExit = true ∧ WorkerPc.isPast (c.queue 0).worker = true :=
  ⟨_, rfl, resizes_in_order oneNode (System.reachable_of_run failFirst rfl) 0⟩

example : ((jobs oneNode).run (jobs oneNode).init failFirst).map (fun c =>
    (c.calls 0, c.submitted 0, c.doExit)) =
      some ([(⟨0, ⟨8, 6⟩⟩, -12)], [⟨0, ⟨8, 6⟩⟩, ⟨1, ⟨8, 6⟩⟩], true) := by decide

/-- A callback that has returned 0 is never followed by a cleanup. -/
theorem cleanups_of_success {garbage : EntryMem Fn Nat} {q : QueueState}
    (hq : (queue garbage).Reachable q) {e : Entry} (hjob : e.cleanup.isSome)
    (he : (e, 0) ∈ called q.trace) : cleanups e q.trace = 0 := by
  obtain ⟨l, -, ha, -⟩ := exists_over_of_reachable garbage hq
  have hsettle : Settlement (q.over l) := settlement_of_reachable ha
  have hspared : Spared e q.trace := by
    obtain ⟨ev, hev, hread⟩ := List.mem_filterMap.mp he
    cases ev <;> cases hread
    exact .inl hev
  by_cases hgone : e ∈ gone q.trace
  · by_cases hcall : q.worker.inCall = some e
    · exact (hsettle.inCall e hcall).1
    · exact (hsettle.gone e hgone hcall hjob).elim (fun h => absurd hspared h.2) And.left
  · exact (hsettle.listed e hgone).1

/-- **Every `resize_priv` is accounted for.** In every reachable state a thread
that is not blocked can go on, so that none touches a block that has been freed;
a block has kept what `resize_cb` has filled in; it is still there exactly if the
main thread has it or it belongs to a job that has not been cleaned up; and for a
job that has succeeded that is for ever. -/
theorem resize_privs_accounted (M : Setup) {c : State} (hc : (jobs M).Reachable c) :
    (∀ a, (step M c a).isSome = !c.isBlocked M a) ∧
      (∀ p cells, c.privs.block p = some cells → ∃ r, c.requests[p]? = some r ∧ cells = [r]) ∧
      (∀ p, c.privs.block p ≠ none ↔ c.main.hand = some p ∨
        ∃ i e, Known (c.queue i) e ∧ e.priv = p ∧ cleanups e (c.queue i).trace = 0) ∧
      ∀ i e, (e, 0) ∈ called (c.queue i).trace → c.privs.block e.priv ≠ none := by
  have h := inv_of_reachable hc
  have hlive : ∀ {i e}, Known (c.queue i) e → cleanups e (c.queue i).trace = 0 →
      ∃ r, c.requests[e.priv]? = some r ∧ c.privs.block e.priv = some [r] := by
    intro i e he hzero
    obtain ⟨-, r, hr, -, -, hb⟩ := h.blocks.known i e he
    exact ⟨r, hr, by rw [hb, if_pos hzero]⟩
  have hiff : ∀ p, c.privs.block p ≠ none ↔ c.main.hand = some p ∨
      ∃ i e, Known (c.queue i) e ∧ e.priv = p ∧ cleanups e (c.queue i).trace = 0 := by
    intro p
    constructor
    · intro hp
      refine (h.blocks.owned p hp).imp_right ?_
      rintro ⟨i, e, he, rfl⟩
      refine ⟨i, e, he, rfl, ?_⟩
      obtain ⟨-, r, -, -, -, hb⟩ := h.blocks.known i e he
      by_contra hne
      rw [if_neg hne] at hb
      exact hp hb
    · rintro (hhand | ⟨i, e, he, rfl, hzero⟩)
      · obtain ⟨r, -, hb, -⟩ := h.blocks.held p hhand
        simp [hb]
      · obtain ⟨r, -, hb⟩ := hlive he hzero
        simp [hb]
  refine ⟨fun a => ?_, fun p cells hcells => ?_, hiff, fun i e he => ?_⟩
  · cases hblocked : c.isBlocked M a with
    | true => rw [h.step_eq_none a hblocked]; rfl
    | false =>
      obtain ⟨c', hstep, -⟩ := h.step a hblocked
      rw [hstep]
      rfl
  · rcases (hiff p).mp (by simp [hcells]) with hhand | ⟨i, e, he, rfl, hzero⟩
    · obtain ⟨r, hr, hb, -⟩ := h.blocks.held p hhand
      exact ⟨r, hr, Option.some.inj (hcells.symm.trans hb)⟩
    · obtain ⟨r, hr, hb⟩ := hlive he hzero
      exact ⟨r, hr, Option.some.inj (hcells.symm.trans hb)⟩
  · have hknown : Known (c.queue i) e := .inl (mem_appended_of_called (h.reach i) he)
    obtain ⟨hjob, -⟩ := h.blocks.known i e hknown
    refine (hiff e.priv).mpr (.inr ⟨i, e, hknown, rfl, ?_⟩)
    exact cleanups_of_success (h.reach i) (by rw [hjob.cleanup]; rfl) he

theorem resize_privs_accounted_failFirst :
    ∃ c, (jobs oneNode).run (jobs oneNode).init failFirst = some c ∧
      (∀ a, (step oneNode c a).isSome = !c.isBlocked oneNode a) ∧
      (∀ p cells, c.privs.block p = some cells → ∃ r, c.requests[p]? = some r ∧ cells = [r]) ∧
      (∀ p, c.privs.block p ≠ none ↔ c.main.hand = some p ∨
        ∃ i e, Known (c.queue i) e ∧ e.priv = p ∧ cleanups e (c.queue i).trace = 0) ∧
      ∀ i e, (e, 0) ∈ called (c.queue i).trace → c.privs.block e.priv ≠ none :=
  ⟨_, rfl, resize_privs_accounted oneNode (System.reachable_of_run failFirst rfl)⟩

end Pixelflut.Resizing
