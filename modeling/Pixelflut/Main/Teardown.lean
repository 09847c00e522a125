import Pixelflut.Lib.Transition
import Pixelflut.Network.Basic

/-!
# The main thread and `dpdk_thread` behind `net_listen`

The main loop stops by `do_exit`, which `doshutdown` sets; `dpdk_thread` stops
by `force_quit`, which the signal handler of `network.c` sets. Nobody joins
`dpdk_thread`. `trace` is no variable of the program: it records the calls of
`fb_set_pixel` and of `fb_free`.

* `fb_outlives_its_writer`: no pixel is set behind `fb_free` when `main` gets
  there with a `dpdk_thread` that has nothing more to write;
* `write_after_free_of_mayWrite`: when it gets there earlier, a pixel may be set
  behind `fb_free`;
* `write_after_free_of_closed_window`: so it is when a window is closed.
-/

namespace Pixelflut.Teardown

open Lib.Transition Wire Network

/-! ## States -/

/-- Where `main` is. -/
inductive MainPc where
  /-- Before the test of `do_exit`. -/
  | loop
  /-- In the traversal, before `frontend_update` of the frontend `k`. -/
  | update (k : Nat)
  /-- At `fail_fronts`, before `frontend_free` of the frontend `k`. -/
  | freeFronts (k : Nat)
  /-- Before `fb_free`. -/
  | freeFb
  /-- At `fail`. -/
  | fail
  | returned
  deriving DecidableEq

/-- Where `dpdk_thread` is. -/
inductive DpdkPc where
  /-- Before the test of `force_quit`. -/
  | test
  /-- Before the burst from queue `i`. -/
  | queue (i : Nat)
  /-- With these frames of queue `i` still to process. -/
  | frames (i : Nat) (mbufs : List RteMbuf)
  /-- Behind the loop. -/
  | closing
  | returned

inductive Event where
  | fbSetPixel (m : RteMbuf)
  | fbFree

structure State where
  doExit : Bool
  forceQuit : Bool
  main : MainPc
  dpdk : DpdkPc
  trace : List Event

inductive Action where
  /-- `err` is what `frontend_update` returns. -/
  | main (err : Int)
  /-- `mbufs` is what `rte_eth_rx_burst` receives. -/
  | dpdk (mbufs : List RteMbuf)
  | signal (signum : Int)
  /-- `resize_wq_err` in a worker thread. -/
  | resizeWqErr

/-! ## Steps -/

/-- The test of `dpdk_thread` in front of `fb_set_pixel`. -/
def isIPv6 (m : RteMbuf) : Bool := etherType m = bswap16 ETHER_TYPE_IPv6

def doshutdown (s : State) : State := { s with doExit := true }

/-- `main`, with `n` frontends on its list. -/
def mainStep (n : Nat) (s : State) (err : Int) : Option State :=
  match s.main with
  | .loop => some { s with main := if s.doExit then .freeFronts 0 else .update 0 }
  | .update k =>
    if k < n then
      if err ≠ 0 then some { doshutdown s with main := .loop }
      else some { s with main := .update (k + 1) }
    else some { s with main := .loop }
  | .freeFronts k => some { s with main := if k < n then .freeFronts (k + 1) else .freeFb }
  | .freeFb => some { s with main := .fail, trace := s.trace ++ [.fbFree] }
  | .fail => some { s with main := .returned }
  | .returned => none

def dpdkThread (s : State) (mbufs : List RteMbuf) : Option State :=
  match s.dpdk with
  | .test => some { s with dpdk := if s.forceQuit then .closing else .queue 0 }
  | .queue i =>
    if i < nrQueues.toNat then
      if mbufs.length ≤ RX_BURST_SIZE then some { s with dpdk := .frames i mbufs } else none
    else some { s with dpdk := .test }
  | .frames i [] => some { s with dpdk := .queue (i + 1) }
  | .frames i (m :: mbufs) =>
    some { s with
      dpdk := .frames i mbufs
      trace := if isIPv6 m then s.trace ++ [.fbSetPixel m] else s.trace }
  | .closing => some { s with dpdk := .returned }
  | .returned => none

def step (n : Nat) (s : State) : Action → Option State
  | .main err => mainStep n s err
  | .dpdk mbufs => dpdkThread s mbufs
  | .signal signum => some { s with forceQuit := signalHandler signum s.forceQuit }
  | .resizeWqErr => some (doshutdown s)

/-- From the return of `net_listen` on. -/
def system (n : Nat) : System State Action where
  init := ⟨false, false, .loop, .test, []⟩
  step := step n

/-! ## Writing and freeing -/

def Event.isWrite : Event → Bool
  | .fbSetPixel _ => true
  | .fbFree => false

/-- No pixel is set behind `fb_free`. -/
def NoWriteAfterFree (trace : List Event) : Prop :=
  trace.Pairwise fun e e' => e = .fbFree → e'.isWrite = false

/-- There is a frame from which `dpdk_thread` may still set a pixel. -/
def State.mayWrite (s : State) : Bool :=
  match s.dpdk with
  | .test => !s.forceQuit
  | .queue i => decide (i < nrQueues.toNat) || !s.forceQuit
  | .frames i mbufs => mbufs.any isIPv6 || decide (i + 1 < nrQueues.toNat) || !s.forceQuit
  | .closing | .returned => false

/-- The step is not the `fb_free` of `main` while `dpdk_thread` may still write. -/
def okFree (s : State) : Action → Bool
  | .main _ =>
    match s.main with
    | .freeFb => !s.mayWrite
    | _ => true
  | _ => true

/-- `main` leaves `dpdk_thread` alone, and frees at one place. -/
theorem mainStep_cases {n : Nat} {s s' : State} {err : Int} (h : mainStep n s err = some s') :
    s'.dpdk = s.dpdk ∧ s'.forceQuit = s.forceQuit ∧
      (s'.trace = s.trace ∨ s.main = .freeFb ∧ s'.trace = s.trace ++ [.fbFree]) := by
  unfold mainStep at h
  split at h
  case h_1 => cases h; exact ⟨rfl, rfl, .inl rfl⟩
  case h_2 =>
    split at h
    · split at h <;> cases h <;> exact ⟨rfl, rfl, .inl rfl⟩
    · cases h; exact ⟨rfl, rfl, .inl rfl⟩
  case h_3 => cases h; exact ⟨rfl, rfl, .inl rfl⟩
  case h_4 hmain => cases h; exact ⟨rfl, rfl, .inr ⟨hmain, rfl⟩⟩
  case h_5 => cases h; exact ⟨rfl, rfl, .inl rfl⟩
  case h_6 => cases h

/-- `dpdk_thread` never comes to have something to write again, and sets a
pixel only while it has. -/
theorem dpdkThread_cases {s s' : State} {mbufs : List RteMbuf} (h : dpdkThread s mbufs = some s') :
    (s.mayWrite = false → s'.mayWrite = false) ∧
      (s'.trace = s.trace ∨
        s.mayWrite = true ∧ ∃ m, s'.trace = s.trace ++ [.fbSetPixel m]) := by
  unfold dpdkThread at h
  split at h
  case h_1 hd =>
    cases h
    refine ⟨?_, .inl rfl⟩
    cases hq : s.forceQuit <;> simp [State.mayWrite, hd, hq]
  case h_2 i hd =>
    split at h
    case isTrue hi =>
      split at h <;> cases h
      exact ⟨by simp [State.mayWrite, hd, hi], .inl rfl⟩
    case isFalse hi =>
      cases h
      exact ⟨by simp [State.mayWrite, hd, hi], .inl rfl⟩
  case h_3 i hd =>
    cases h
    exact ⟨by simp [State.mayWrite, hd], .inl rfl⟩
  case h_4 i m rest hd =>
    cases h
    cases hm : isIPv6 m
    · exact ⟨by simp [State.mayWrite, hd, hm], .inl rfl⟩
    · have hmay : s.mayWrite = true := by simp [State.mayWrite, hd, hm]
      exact ⟨by simp [hmay], .inr ⟨hmay, m, rfl⟩⟩
  case h_5 => cases h; exact ⟨by simp [State.mayWrite], .inl rfl⟩
  case h_6 => cases h

theorem signalHandler_mayWrite (s : State) (signum : Int) (h : s.mayWrite = false) :
    State.mayWrite { s with forceQuit := signalHandler signum s.forceQuit } = false := by
  unfold signalHandler
  split
  · revert h
    unfold State.mayWrite
    cases s.dpdk <;> simp +contextual
  · exact h

/-- **What a step may do.** -/
theorem step_cases {n : Nat} {s s' : State} {a : Action} (h : step n s a = some s') :
    (s.mayWrite = false → s'.mayWrite = false) ∧
      (s'.trace = s.trace ∨
        (s.mayWrite = true ∧ ∃ m, s'.trace = s.trace ++ [.fbSetPixel m]) ∨
        (s.main = .freeFb ∧ (∃ err, a = .main err) ∧ s'.trace = s.trace ++ [.fbFree])) := by
  cases a with
  | main err =>
    obtain ⟨hdpdk, hquit, htrace⟩ := mainStep_cases h
    refine ⟨by simp only [State.mayWrite, hdpdk, hquit]; exact id, ?_⟩
    rcases htrace with htrace | ⟨hmain, htrace⟩
    · exact .inl htrace
    · exact .inr (.inr ⟨hmain, ⟨err, rfl⟩, htrace⟩)
  | dpdk mbufs =>
    obtain ⟨hmay, htrace | hwrite⟩ := dpdkThread_cases h
    · exact ⟨hmay, .inl htrace⟩
    · exact ⟨hmay, .inr (.inl hwrite)⟩
  | signal signum =>
    cases h
    exact ⟨signalHandler_mayWrite s signum, .inl rfl⟩
  | resizeWqErr =>
    cases h
    exact ⟨id, .inl rfl⟩

/-- Behind `fb_free` nothing is left to write. -/
structure Quiet (s : State) : Prop where
  safe : NoWriteAfterFree s.trace
  freed : .fbFree ∈ s.trace → s.mayWrite = false

theorem Quiet.step {n : Nat} {s s' : State} {a : Action} (h : Quiet s) (hok : okFree s a = true)
    (hstep : step n s a = some s') : Quiet s' := by
  obtain ⟨hmay, hsame | ⟨hwrite, m, htrace⟩ | ⟨hmain, ⟨err, rfl⟩, htrace⟩⟩ := step_cases hstep
  · refine ⟨by rw [hsame]; exact h.safe, fun hfree => ?_⟩
    rw [hsame] at hfree
    exact hmay (h.freed hfree)
  · -- the pixel is set before anything is freed
    have hnot : .fbFree ∉ s.trace := fun hfree => by
      rw [h.freed hfree] at hwrite
      cases hwrite
    refine ⟨?_, fun hfree => ?_⟩
    · rw [htrace]
      exact List.pairwise_append.mpr ⟨h.safe, List.pairwise_singleton _ _, fun e he e' _ hef =>
        absurd (hef ▸ he) hnot⟩
    · rw [htrace] at hfree
      simp [hnot] at hfree
  · have hquiet : s.mayWrite = false := by simpa [okFree, hmain] using hok
    refine ⟨?_, fun _ => hmay hquiet⟩
    rw [htrace]
    refine List.pairwise_append.mpr ⟨h.safe, List.pairwise_singleton _ _, fun e _ e' he' _ => ?_⟩
    rw [List.mem_singleton.mp he']
    rfl

/-- A frame of EtherType IPv6 with a zero for each other byte. -/
def blackPixel : RteMbuf := ⟨fun i => if i = 12 then 0x86 else if i = 13 then 0xdd else 0, 54⟩

/-- **The framebuffer outlives its writer**, in every run in which `main` comes
to its `fb_free` only when `dpdk_thread` has nothing more to write. -/
theorem fb_outlives_its_writer (n : Nat) {s : State}
    (hs : (system n).ReachableBy (fun s a => okFree s a = true) s) : NoWriteAfterFree s.trace := by
  have hinit : Quiet (system n).init := ⟨List.Pairwise.nil, fun h => absurd h List.not_mem_nil⟩
  exact (hs.invariant hinit fun s a s' _ h hok hstep => h.step hok hstep).safe

/-- `dpdk_thread` sets a pixel, is told to stop and comes to its end before the
window is closed. -/
theorem fb_outlives_its_writer_signal_first :
    ∃ s : State, s.trace = [.fbSetPixel blackPixel, .fbFree] ∧ NoWriteAfterFree s.trace := by
  refine ⟨_, ?_, fb_outlives_its_writer 1 (System.reachableBy_of_run
    [.dpdk [], .dpdk [blackPixel], .dpdk [], .signal SIGINT, .dpdk [], .dpdk [], .dpdk [],
      .main 0, .main 1, .main 0, .main 0, .main 0, .main 0] rfl)⟩
  rfl

/-- The window is closed, and `dpdk_thread` goes on. -/
theorem write_after_free_of_closed_window :
    ∃ s : State, (system 1).Reachable s ∧ ¬NoWriteAfterFree s.trace := by
  refine ⟨_, System.reachable_of_run [.main 0, .main 1, .main 0, .main 0, .main 0, .main 0,
    .dpdk [], .dpdk [blackPixel], .dpdk []] rfl, fun hsafe => ?_⟩
  cases hsafe with
  | cons hfree _ => cases hfree (.fbSetPixel blackPixel) (.head _) rfl

/-! ## The condition is exact -/

/-- From `s` on there is a run that sets a pixel. -/
def Writes (n : Nat) (s : State) : Prop :=
  ∃ as s' events m, (system n).run s as = some s' ∧ s'.trace = s.trace ++ events ∧
    .fbSetPixel m ∈ events

theorem Writes.cons {n : Nat} {s s' : State} {a : Action} (hstep : step n s a = some s')
    (htrace : s'.trace = s.trace) (h : Writes n s') : Writes n s := by
  obtain ⟨as, s'', events, m, hrun, htrace', hm⟩ := h
  exact ⟨a :: as, s'', events, m, (System.run_cons hstep as).trans hrun, by rw [htrace', htrace], hm⟩

theorem writes_of_frame {n i : Nat} {s : State} {m : RteMbuf} {mbufs : List RteMbuf}
    (hd : s.dpdk = .frames i (m :: mbufs)) (hm : isIPv6 m = true) : Writes n s := by
  refine ⟨[.dpdk []], { s with dpdk := .frames i mbufs, trace := s.trace ++ [.fbSetPixel m] },
    [.fbSetPixel m], m, ?_, rfl, List.mem_singleton_self _⟩
  simp [System.run, system, step, dpdkThread, hd, hm]

theorem writes_of_queue {n i : Nat} {s : State} (hd : s.dpdk = .queue i)
    (hi : i < nrQueues.toNat) : Writes n s := by
  have hstep : step n s (.dpdk [blackPixel]) = some { s with dpdk := .frames i [blackPixel] } := by
    simp [step, dpdkThread, hd, hi, RX_BURST_SIZE]
  exact .cons hstep rfl (writes_of_frame rfl (by decide))

theorem writes_of_test {n : Nat} {s : State} (hd : s.dpdk = .test) (hq : s.forceQuit = false) :
    Writes n s := by
  have hstep : step n s (.dpdk []) = some { s with dpdk := .queue 0 } := by
    simp [step, dpdkThread, hd, hq]
  exact .cons hstep rfl (writes_of_queue rfl (by decide))

theorem writes_of_nextQueue {n i : Nat} {s : State} (hd : s.dpdk = .queue i)
    (h : i < nrQueues.toNat ∨ s.forceQuit = false) : Writes n s := by
  by_cases hi : i < nrQueues.toNat
  · exact writes_of_queue hd hi
  · have hstep : step n s (.dpdk []) = some { s with dpdk := .test } := by
      simp [step, dpdkThread, hd, hi]
    exact .cons hstep rfl (writes_of_test rfl (h.resolve_left hi))

theorem writes_of_frames {n i : Nat} (mbufs : List RteMbuf) {s : State}
    (hd : s.dpdk = .frames i mbufs) (hmay : s.mayWrite = true) : Writes n s := by
  induction mbufs generalizing s with
  | nil =>
    have hstep : step n s (.dpdk []) = some { s with dpdk := .queue (i + 1) } := by
      simp [step, dpdkThread, hd]
    refine .cons hstep rfl (writes_of_nextQueue rfl ?_)
    simpa [State.mayWrite, hd] using hmay
  | cons m mbufs ih =>
    cases hm : isIPv6 m with
    | true => exact writes_of_frame hd hm
    | false =>
      have hstep : step n s (.dpdk []) = some { s with dpdk := .frames i mbufs } := by
        simp [step, dpdkThread, hd, hm]
      refine .cons hstep rfl (ih rfl ?_)
      simpa [State.mayWrite, hd, hm] using hmay

theorem writes_of_mayWrite (n : Nat) {s : State} (hmay : s.mayWrite = true) : Writes n s := by
  cases hd : s.dpdk with
  | test => exact writes_of_test hd (by simpa [State.mayWrite, hd] using hmay)
  | queue i => exact writes_of_nextQueue hd (by simpa [State.mayWrite, hd] using hmay)
  | frames i mbufs => exact writes_of_frames mbufs hd hmay
  | closing => simp [State.mayWrite, hd] at hmay
  | returned => simp [State.mayWrite, hd] at hmay

/-- **When `main` frees too early, a pixel may be set in what it has freed.** -/
theorem write_after_free_of_mayWrite (n : Nat) {s : State} (hmain : s.main = .freeFb)
    (hmay : s.mayWrite = true) :
    ∃ as s', (system n).run s as = some s' ∧ ¬NoWriteAfterFree s'.trace := by
  have hstep : step n s (.main 0) =
      some { s with main := .fail, trace := s.trace ++ [.fbFree] } := by
    simp [step, mainStep, hmain]
  obtain ⟨as, s', events, m, hrun, htrace, hm⟩ :=
    writes_of_mayWrite n (s := { s with main := .fail, trace := s.trace ++ [.fbFree] }) hmay
  refine ⟨.main 0 :: as, s', (System.run_cons hstep as).trans hrun, fun hsafe => ?_⟩
  rw [htrace] at hsafe
  have hquiet := (List.pairwise_append.mp hsafe).2.2 .fbFree (by simp) _ hm rfl
  cases hquiet

end Pixelflut.Teardown
