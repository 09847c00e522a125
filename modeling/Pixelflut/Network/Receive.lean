import Pixelflut.Lib.Transition
import Pixelflut.Lib.Ownership
import Pixelflut.Network.CanvasLaw

/-!
# The receive loop, burst by burst

The loop of `dpdk_thread` with its packet buffers, which the driver fills and hands
over in bursts of up to 2048, while `fb_resize` may be called between any two steps and
a signal may come at any time. `received`, `taken`, `freed` and `ops` are no variables
of the program: they record the frames and the buffers handed over, the buffers given
back, and what was done to the framebuffer.

* `Move`: what the thread may do;
* `Inv.step`: where every buffer and every frame is;
* `receive_in_order`: bursts and queues leave no trace in the picture, and every buffer
  is used only between its burst and its one `rte_pktmbuf_free`.
-/

namespace Pixelflut.Network.Receive

open Lib.Transition Lib.Ownership Lib.Drawing
open Wire Framebuffer

abbrev Mbuf := Nat

inductive Owner where
  | pool
  /-- The driver, which has received nothing into the buffer yet. -/
  | driver
  /-- The driver, until the next burst. -/
  | filled
  | thread
  deriving DecidableEq

inductive Port where
  | started
  | stopped
  | closed
  deriving DecidableEq

/-- Where `dpdk_thread` is. -/
inductive Pc where
  /-- Before the test of `force_quit`. -/
  | test
  /-- Before the test of `i < nr_queues`. -/
  | queue (i : UInt16)
  /-- Before the test of `j < nb_rx`. -/
  | body (i j : UInt16) (mbufs : List Mbuf)
  /-- Before `rte_pktmbuf_free(m)`. -/
  | free (i j : UInt16) (m : Mbuf) (mbufs : List Mbuf)
  /-- Behind the loop. -/
  | devStop
  | devClose
  | returned

structure State where
  mem : Memory
  fb : Fb
  forceQuit : Bool
  port : Port
  owner : Owners Mbuf Owner
  content : Mbuf → RteMbuf
  pc : Pc
  received : List RteMbuf
  taken : List Mbuf
  freed : List Mbuf
  ops : List Op

inductive Action where
  /-- `mbufs` is the answer of `rte_eth_rx_burst`. -/
  | thread (mbufs : List Mbuf)
  /-- The driver takes a buffer from the pool. -/
  | refill (m : Mbuf)
  /-- The driver receives a frame into one of its buffers. -/
  | receive (m : Mbuf) (content : RteMbuf)
  | resize (width height : UInt32) (mem : Malloc)
  | signal (signum : Int)

def State.exec (s : State) (op : Op) : Option State :=
  (op.exec (s.mem, s.fb)).map fun r => { s with mem := r.1, fb := r.2, ops := s.ops ++ [op] }

def dpdkThread (s : State) (mbufs : List Mbuf) : Option State :=
  match s.pc with
  | .test => some { s with pc := if s.forceQuit then .devStop else .queue 0 }
  | .queue i =>
    if i < nrQueues then
      if mbufs.length ≤ RX_BURST_SIZE ∧ mbufs.Nodup ∧ ∀ m ∈ mbufs, s.owner m = some .filled then
        some { s with
          pc := .body i 0 mbufs, owner := give s.owner mbufs .thread
          received := s.received ++ mbufs.map s.content, taken := s.taken ++ mbufs }
      else none
    else some { s with pc := .test }
  | .body i j mbufs =>
    if j < .ofNat mbufs.length then
      match mbufs[j.toNat]? with
      | some m =>
        (s.exec (.frame (s.content m))).map fun s => { s with pc := .free i j m mbufs }
      | none => none
    else some { s with pc := .queue (i + 1) }
  | .free i j m mbufs =>
    some { s with
      pc := .body i (j + 1) mbufs, owner := give s.owner [m] .pool, freed := s.freed ++ [m] }
  | .devStop => some { s with pc := .devClose, port := .stopped }
  | .devClose => some { s with pc := .returned, port := .closed }
  | .returned => none

def step (s : State) : Action → Option State
  | .thread mbufs => dpdkThread s mbufs
  | .refill m =>
    if s.owner m = some .pool then some { s with owner := give s.owner [m] .driver } else none
  | .receive m content =>
    if s.owner m = some .driver then
      some { s with
        owner := give s.owner [m] .filled, content := Function.update s.content m content }
    else none
  | .resize width height mem => s.exec (.resize width height mem)
  | .signal signum => some { s with forceQuit := signalHandler signum s.forceQuit }

/-- From the start of `dpdk_thread` on. -/
def system (mem : Memory) (fb : Fb) (owner : Owners Mbuf Owner) (content : Mbuf → RteMbuf) :
    System State Action where
  init := ⟨mem, fb, false, .started, owner, content, .test, [], [], [], []⟩
  step := step

/-- The frames that are received have their headers, and the sizes do not wrap. -/
def okAction (_ : State) : Action → Bool
  | .receive _ content => content.frame.HasHeaders
  | .resize width height _ => width.toNat * height.toNat < 2 ^ 32
  | _ => true

/-! ## What the thread may do -/

/-- The steps of `dpdk_thread`, when the next burst is `mbufs`. -/
inductive Move (s : State) (mbufs : List Mbuf) : State → Prop
  | quit (hpc : s.pc = .test) (hquit : s.forceQuit = true) : Move s mbufs { s with pc := .devStop }
  | poll (hpc : s.pc = .test) (hquit : s.forceQuit = false) : Move s mbufs { s with pc := .queue 0 }
  | burst (i : UInt16) (hpc : s.pc = .queue i) (hi : i < nrQueues)
      (hlen : mbufs.length ≤ RX_BURST_SIZE) (hnodup : mbufs.Nodup)
      (howner : ∀ m ∈ mbufs, s.owner m = some .filled) :
      Move s mbufs { s with
        pc := .body i 0 mbufs, owner := give s.owner mbufs .thread
        received := s.received ++ mbufs.map s.content, taken := s.taken ++ mbufs }
  | polled (i : UInt16) (hpc : s.pc = .queue i) (hi : ¬i < nrQueues) :
      Move s mbufs { s with pc := .test }
  | draw (i j : UInt16) (m : Mbuf) (ms : List Mbuf) (s₁ : State) (hpc : s.pc = .body i j ms)
      (hm : ms[j.toNat]? = some m) (hexec : s.exec (.frame (s.content m)) = some s₁) :
      Move s mbufs { s₁ with pc := .free i j m ms }
  | drawn (i j : UInt16) (ms : List Mbuf) (hpc : s.pc = .body i j ms)
      (hend : ¬j < .ofNat ms.length) : Move s mbufs { s with pc := .queue (i + 1) }
  | free (i j : UInt16) (m : Mbuf) (ms : List Mbuf) (hpc : s.pc = .free i j m ms) :
      Move s mbufs { s with
        pc := .body i (j + 1) ms, owner := give s.owner [m] .pool, freed := s.freed ++ [m] }
  | stop (hpc : s.pc = .devStop) : Move s mbufs { s with pc := .devClose, port := .stopped }
  | close (hpc : s.pc = .devClose) : Move s mbufs { s with pc := .returned, port := .closed }

theorem move_of_dpdkThread {s s' : State} {mbufs : List Mbuf} (h : dpdkThread s mbufs = some s') :
    Move s mbufs s' := by
  unfold dpdkThread at h
  split at h
  case h_1 hpc =>
    cases h
    split
    case isTrue hquit => exact .quit hpc hquit
    case isFalse hquit => exact .poll hpc (Bool.eq_false_iff.mpr hquit)
  case h_2 i hpc =>
    split at h
    case isTrue hi =>
      obtain ⟨⟨hlen, hnodup, howner⟩, h⟩ := Option.ite_none_right_eq_some.mp h
      cases h
      exact .burst i hpc hi hlen hnodup howner
    case isFalse hi =>
      cases h
      exact .polled i hpc hi
  case h_3 i j ms hpc =>
    split at h
    case isTrue hj =>
      split at h
      · next m hm =>
        obtain ⟨s₁, hexec, rfl⟩ := Option.map_eq_some_iff.mp h
        exact .draw i j m ms s₁ hpc hm hexec
      · cases h
    case isFalse hend =>
      cases h
      exact .drawn i j ms hpc hend
  case h_4 i j m ms hpc => cases h; exact .free i j m ms hpc
  case h_5 hpc => cases h; exact .stop hpc
  case h_6 hpc => cases h; exact .close hpc
  case h_7 => cases h

/-! ## Where everything is -/

/-- The buffers that are still to be freed. -/
def Pc.held : Pc → List Mbuf
  | .body _ j mbufs => mbufs.drop j.toNat
  | .free _ j _ mbufs => mbufs.drop j.toNat
  | _ => []

/-- The buffers that are still to be processed. -/
def Pc.pending : Pc → List Mbuf
  | .body _ j mbufs => mbufs.drop j.toNat
  | .free _ j _ mbufs => mbufs.drop (j.toNat + 1)
  | _ => []

/-- The counters of the loops. -/
def Pc.Counts : Pc → Prop
  | .body _ j mbufs => j.toNat ≤ mbufs.length ∧ mbufs.length ≤ RX_BURST_SIZE
  | .free _ j m mbufs => mbufs[j.toNat]? = some m ∧ mbufs.length ≤ RX_BURST_SIZE
  | _ => True

/-- The port is as `dpdk_thread` needs it. -/
def Pc.Port : Pc → Receive.Port → Prop
  | .devClose, port => port = .stopped
  | .returned, port => port = .closed
  | _, port => port = .started

def framesOf (ops : List Op) : List RteMbuf := ops.filterMap fun
  | .frame m => some m
  | .resize _ _ _ => none

@[simp] theorem framesOf_append (ops ops' : List Op) :
    framesOf (ops ++ ops') = framesOf ops ++ framesOf ops' :=
  List.filterMap_append

theorem State.exec_eq {s s' : State} {op : Op} (h : s.exec op = some s') :
    ∃ mem fb, s' = { s with mem := mem, fb := fb, ops := s.ops ++ [op] } := by
  obtain ⟨r, -, rfl⟩ := Option.map_eq_some_iff.mp h
  exact ⟨r.1, r.2, rfl⟩

/-- The invariant, for a framebuffer that showed `r` at first. -/
structure Inv (mem : Memory) (fb : Fb) (r : Raster UInt32) (s : State) : Prop where
  serve : serve (mem, fb) s.ops = some (s.mem, s.fb)
  shows : Shows s.mem s.fb ((events s.ops).foldl Raster.apply r)
  in_order : framesOf s.ops ++ s.pc.pending.map s.content = s.received
  once : s.freed ++ s.pc.held = s.taken
  holds : Holds s.owner .thread s.pc.held
  counts : s.pc.Counts
  port : s.pc.Port s.port
  filled : ∀ m, s.owner m = some .filled → (s.content m).frame.HasHeaders
  pending : ∀ m ∈ s.pc.pending, (s.content m).frame.HasHeaders

variable {mem : Memory} {fb : Fb} {r : Raster UInt32} {s s' : State}

theorem serve_append (s : Memory × Fb) (ops ops' : List Op) :
    Network.serve s (ops ++ ops') = (Network.serve s ops).bind fun s => Network.serve s ops' :=
  List.foldlM_append

theorem events_append (ops ops' : List Op) : events (ops ++ ops') = events ops ++ events ops' :=
  List.filterMap_append

/-- An operation on the framebuffer, seen by itself. -/
theorem Inv.exec (h : Inv mem fb r s) {op : Op} (hop : op.Legal) :
    ∃ mem' fb', s.exec op = some { s with mem := mem', fb := fb', ops := s.ops ++ [op] } ∧
      Network.serve (mem, fb) (s.ops ++ [op]) = some (mem', fb') ∧
      Shows mem' fb' ((events (s.ops ++ [op])).foldl Raster.apply r) := by
  obtain ⟨mem', fb', hexec, hs⟩ := op.exec_shows h.shows hop
  refine ⟨mem', fb', ?_, ?_, ?_⟩
  · rw [State.exec, hexec]
    rfl
  · rw [serve_append, h.serve, Option.bind_some, Network.serve, List.foldlM_cons, hexec]
    rfl
  · rw [events_append, List.foldl_append]
    cases hev : op.event with
    | none => simpa [events, hev] using hs
    | some ev => simpa [events, hev] using hs

theorem pending_subset_held (pc : Pc) : ∀ m ∈ pc.pending, m ∈ pc.held := by
  intro m hm
  cases pc with
  | body i j mbufs => exact hm
  | free i j m' mbufs =>
    rw [Pc.pending, ← List.drop_drop] at hm
    exact List.mem_of_mem_drop hm
  | _ => exact hm

/-- The last step of a burst. -/
theorem drop_cons {mbufs : List Mbuf} {j : UInt16} {m : Mbuf} (hm : mbufs[j.toNat]? = some m)
    (hlen : mbufs.length ≤ RX_BURST_SIZE) :
    mbufs.drop j.toNat = m :: mbufs.drop (j.toNat + 1) ∧ (j + 1).toNat = j.toNat + 1 ∧
      j.toNat < mbufs.length := by
  obtain ⟨hj, rfl⟩ := List.getElem?_eq_some_iff.mp hm
  have hmax : RX_BURST_SIZE = 2048 := rfl
  refine ⟨List.drop_eq_getElem_cons hj, ?_, hj⟩
  rw [UInt16.toNat_add]
  exact Nat.mod_eq_of_lt (show j.toNat + 1 < 2 ^ 16 by omega)

/-- The comparison that ends a burst does not wrap. -/
theorem burst_over {mbufs : List Mbuf} {j : UInt16} (hlen : mbufs.length ≤ RX_BURST_SIZE)
    (hend : ¬j < .ofNat mbufs.length) : mbufs.length ≤ j.toNat := by
  have hlt : mbufs.length < UInt16.size := Nat.lt_of_le_of_lt hlen (by decide)
  rw [UInt16.lt_iff_toNat_lt, UInt16.toNat_ofNat_of_lt' hlt] at hend
  exact Nat.le_of_not_lt hend

/-- Buffers that are given to others are not filled. -/
theorem filled_of_give {own : Owners Mbuf Owner} {ms : List Mbuf} {o : Owner} (ho : o ≠ .filled)
    {m : Mbuf} (h : give own ms o m = some .filled) : own m = some .filled := by
  by_cases hm : m ∈ ms
  · rw [give_of_mem hm, Option.some.injEq] at h
    exact absurd h ho
  · rwa [give_of_not_mem hm] at h

/-- A step that uses no buffer. -/
theorem Inv.goto (h : Inv mem fb r s) {pc : Pc} {port : Port} (hpending : pc.pending = s.pc.pending)
    (hheld : pc.held = s.pc.held) (hcounts : pc.Counts) (hport : pc.Port port) :
    Inv mem fb r { s with pc := pc, port := port } where
  serve := h.serve
  shows := h.shows
  in_order := by rw [hpending]; exact h.in_order
  once := by rw [hheld]; exact h.once
  holds := by rw [hheld]; exact h.holds
  counts := hcounts
  port := hport
  filled := h.filled
  pending := by rw [hpending]; exact h.pending

/-- `rte_eth_rx_burst`. -/
theorem Inv.burst (h : Inv mem fb r s) {i : UInt16} {mbufs : List Mbuf} (hpc : s.pc = .queue i)
    (hlen : mbufs.length ≤ RX_BURST_SIZE) (hnodup : mbufs.Nodup)
    (howner : ∀ m ∈ mbufs, s.owner m = some .filled) :
    Inv mem fb r { s with
      pc := .body i 0 mbufs, owner := give s.owner mbufs .thread
      received := s.received ++ mbufs.map s.content, taken := s.taken ++ mbufs } where
  serve := h.serve
  shows := h.shows
  in_order := by
    have horder := h.in_order
    simp only [hpc, Pc.pending, List.map_nil, List.append_nil] at horder
    simp [Pc.pending, horder]
  once := by
    have honce := h.once
    simp only [hpc, Pc.held, List.append_nil] at honce
    simp [Pc.held, honce]
  holds := by
    have hholds := h.holds
    rw [hpc] at hholds
    exact hholds.acquire hnodup
  counts := ⟨Nat.zero_le _, hlen⟩
  port := by
    have hport := h.port
    rwa [hpc] at hport
  filled m hm := h.filled m (filled_of_give (by decide) hm)
  pending m hm := h.filled m (howner m hm)

/-- One frame of a burst is drawn. -/
theorem Inv.draw (h : Inv mem fb r s) {i j : UInt16} {m : Mbuf} {mbufs : List Mbuf}
    (hpc : s.pc = .body i j mbufs) (hm : mbufs[j.toNat]? = some m) :
    ∃ mem' fb', s.exec (.frame (s.content m)) =
        some { s with mem := mem', fb := fb', ops := s.ops ++ [.frame (s.content m)] } ∧
      Inv mem fb r { s with
        mem := mem', fb := fb', ops := s.ops ++ [.frame (s.content m)]
        pc := .free i j m mbufs } := by
  obtain ⟨hj, hlen⟩ : j.toNat ≤ mbufs.length ∧ mbufs.length ≤ RX_BURST_SIZE := by
    have hcounts := h.counts
    rwa [hpc] at hcounts
  obtain ⟨hdrop, -, -⟩ := drop_cons hm hlen
  have hpending : s.pc.pending = m :: mbufs.drop (j.toNat + 1) := by rw [hpc, Pc.pending, hdrop]
  have hheld : s.pc.held = mbufs.drop j.toNat := by rw [hpc, Pc.held]
  have hlegal : Op.Legal (.frame (s.content m)) :=
    h.pending m (by rw [hpending]; exact List.mem_cons_self)
  obtain ⟨mem', fb', hexec, hserve, hshows⟩ := h.exec hlegal
  refine ⟨mem', fb', hexec, hserve, hshows, ?_, ?_, ?_, ⟨hm, hlen⟩, ?_, h.filled, ?_⟩
  · have horder := h.in_order
    rw [hpending, List.map_cons] at horder
    rw [framesOf_append, List.append_assoc]
    exact horder
  · have honce := h.once
    rwa [hheld] at honce
  · have hholds := h.holds
    rwa [hheld] at hholds
  · have hport := h.port
    rwa [hpc] at hport
  · intro m' hm'
    apply h.pending m'
    rw [hpending]
    exact List.mem_cons_of_mem m hm'

/-- `rte_pktmbuf_free`. -/
theorem Inv.free (h : Inv mem fb r s) {i j : UInt16} {m : Mbuf} {mbufs : List Mbuf}
    (hpc : s.pc = .free i j m mbufs) :
    Inv mem fb r { s with
      pc := .body i (j + 1) mbufs, owner := give s.owner [m] .pool, freed := s.freed ++ [m] } := by
  obtain ⟨hm, hlen⟩ : mbufs[j.toNat]? = some m ∧ mbufs.length ≤ RX_BURST_SIZE := by
    have hcounts := h.counts
    rwa [hpc] at hcounts
  obtain ⟨hdrop, hnext, hj⟩ := drop_cons hm hlen
  have hpending : s.pc.pending = (Pc.body i (j + 1) mbufs).pending := by
    rw [hpc, Pc.pending, Pc.pending, hnext]
  have hheld : s.pc.held = [m] ++ (Pc.body i (j + 1) mbufs).held := by
    rw [hpc, Pc.held, Pc.held, hdrop, hnext, List.singleton_append]
  refine ⟨h.serve, h.shows, ?_, ?_, ?_, ⟨hnext ▸ hj, hlen⟩, ?_, ?_, ?_⟩
  · exact hpending ▸ h.in_order
  · have honce := h.once
    rwa [hheld, ← List.append_assoc] at honce
  · have hholds := h.holds
    rw [hheld] at hholds
    exact hholds.release (by decide)
  · have hport := h.port
    rwa [hpc] at hport
  · exact fun m' hm' => h.filled m' (filled_of_give (by decide) hm')
  · exact hpending ▸ h.pending

/-- A buffer that the driver moves is not one of the thread. -/
theorem Inv.not_held (h : Inv mem fb r s) {m : Mbuf} {o : Owner} (hm : s.owner m = some o)
    (ho : o ≠ .thread) : m ∉ s.pc.held := by
  rw [← h.holds.mem_iff, hm, Option.some.injEq]
  exact ho

theorem Inv.refill (h : Inv mem fb r s) {m : Mbuf} (hm : s.owner m = some .pool) :
    Inv mem fb r { s with owner := give s.owner [m] .driver } where
  serve := h.serve
  shows := h.shows
  in_order := h.in_order
  once := h.once
  holds := h.holds.others (by decide) (by simpa using h.not_held hm (by decide))
  counts := h.counts
  port := h.port
  filled m' hm' := h.filled m' (filled_of_give (by decide) hm')
  pending := h.pending

/-- A frame goes into a buffer that the thread has nothing to do with. -/
theorem Inv.receive (h : Inv mem fb r s) {m : Mbuf} (hm : s.owner m = some .driver)
    {content : RteMbuf} (hheaders : content.frame.HasHeaders) :
    Inv mem fb r { s with
      owner := give s.owner [m] .filled, content := Function.update s.content m content } := by
  have hout := h.not_held hm (by decide)
  have hsame : ∀ m' ∈ s.pc.pending, Function.update s.content m content m' = s.content m' := by
    intro m' hm'
    apply Function.update_of_ne
    rintro rfl
    exact hout (pending_subset_held s.pc m' hm')
  refine ⟨h.serve, h.shows, ?_, h.once, h.holds.others (by decide) (by simpa using hout), h.counts,
    h.port, ?_, ?_⟩
  · rw [← h.in_order]
    exact congrArg _ (List.map_congr_left hsame)
  · intro m' hm'
    by_cases he : m' = m
    · subst he
      simpa using hheaders
    · dsimp only at hm' ⊢
      rw [give_of_not_mem (by simpa using he)] at hm'
      rw [Function.update_of_ne he]
      exact h.filled m' hm'
  · intro m' hm'
    dsimp only at hm' ⊢
    rw [hsame m' hm']
    exact h.pending m' hm'

theorem Inv.resize (h : Inv mem fb r s) {width height : UInt32} {answer : Malloc}
    (hop : Op.Legal (.resize width height answer)) :
    ∃ s', s.exec (.resize width height answer) = some s' ∧ Inv mem fb r s' := by
  obtain ⟨mem', fb', hexec, hserve, hshows⟩ := h.exec hop
  refine ⟨_, hexec, hserve, hshows, ?_, h.once, h.holds, h.counts, h.port, h.filled, h.pending⟩
  rw [framesOf_append]
  simpa [framesOf] using h.in_order

/-- **Every step keeps the invariant.** -/
theorem Inv.step (h : Inv mem fb r s) {a : Action} (hok : okAction s a = true)
    (hstep : Receive.step s a = some s') : Inv mem fb r s' := by
  cases a with
  | thread mbufs =>
    have hcounts := h.counts
    have hport := h.port
    cases move_of_dpdkThread hstep with
    | quit hpc _ | poll hpc _ | polled i hpc _ =>
      rw [hpc] at hport
      exact h.goto (by rw [hpc]; rfl) (by rw [hpc]; rfl) trivial hport
    | burst i hpc _ hlen hnodup howner => exact h.burst hpc hlen hnodup howner
    | draw i j m ms s₁ hpc hm hexec =>
      obtain ⟨mem', fb', hexec', hinv⟩ := h.draw hpc hm
      rw [hexec] at hexec'
      obtain rfl := Option.some.inj hexec'
      exact hinv
    | drawn i j ms hpc hend =>
      rw [hpc] at hport hcounts
      have hdrop : ms.drop j.toNat = [] := List.drop_eq_nil_of_le (burst_over hcounts.2 hend)
      exact h.goto (by rw [hpc]; exact hdrop.symm) (by rw [hpc]; exact hdrop.symm) trivial hport
    | free i j m ms hpc => exact h.free hpc
    | stop hpc | close hpc =>
      exact h.goto (by rw [hpc]; rfl) (by rw [hpc]; rfl) trivial rfl
  | refill m =>
    obtain ⟨hm, he⟩ := Option.ite_none_right_eq_some.mp hstep
    obtain rfl := Option.some.inj he
    exact h.refill hm
  | receive m content =>
    obtain ⟨hm, he⟩ := Option.ite_none_right_eq_some.mp hstep
    obtain rfl := Option.some.inj he
    exact h.receive hm (of_decide_eq_true hok)
  | resize width height answer =>
    obtain ⟨s₁, hexec, hinv⟩ := h.resize (of_decide_eq_true hok)
    rw [Receive.step, hexec] at hstep
    exact Option.some.inj hstep ▸ hinv
  | signal signum =>
    obtain rfl := Option.some.inj hstep
    exact ⟨h.serve, h.shows, h.in_order, h.once, h.holds, h.counts, h.port, h.filled, h.pending⟩

/-- The thread is not stuck, and writes no pixel outside the block. -/
theorem Inv.thread_isSome (h : Inv mem fb r s) (hpc : s.pc ≠ .returned) :
    (Receive.step s (.thread [])).isSome := by
  unfold Receive.step dpdkThread
  dsimp only
  cases hp : s.pc with
  | queue i => simp [RX_BURST_SIZE, apply_ite Option.isSome]
  | body i j mbufs =>
    obtain ⟨hj, hlen⟩ : j.toNat ≤ mbufs.length ∧ mbufs.length ≤ RX_BURST_SIZE := by
      have hcounts := h.counts
      rwa [hp] at hcounts
    dsimp only
    split
    · next hlt =>
      have hlt' : j.toNat < mbufs.length := by
        rw [UInt16.lt_iff_toNat_lt, UInt16.toNat_ofNat'] at hlt
        exact Nat.lt_of_lt_of_le hlt (Nat.mod_le _ _)
      obtain ⟨mem', fb', hexec, -⟩ := h.draw hp (List.getElem?_eq_getElem hlt')
      rw [List.getElem?_eq_getElem hlt']
      dsimp only
      rw [hexec]
      rfl
    · rfl
  | returned => exact absurd hp hpc
  | _ => rfl

section

variable {h₀ : Memory} {width height : UInt32} {numaNode : UInt32} {owner : Owners Mbuf Owner}
  {content : Mbuf → RteMbuf}

theorem inv_of_reachable (hsmall : width.toNat * height.toNat < 2 ^ 32)
    (halloc : fbAlloc h₀ width height true true numaNode = (mem, .ok fb))
    (howner : ∀ m, owner m ≠ some .thread ∧ owner m ≠ some .filled)
    (hs : (system mem fb owner content).ReachableBy (fun s a => okAction s a = true) s) :
    Inv mem fb (blank width.toNat height.toNat 0) s := by
  apply hs.invariant _ fun _ _ _ _ h hok hstep => h.step hok hstep
  refine ⟨rfl, fbAlloc_shows hsmall halloc, rfl, rfl, ⟨List.nodup_nil, ?_⟩, trivial, rfl, ?_, ?_⟩
  · intro m
    simpa [system, Pc.held] using (howner m).1
  · exact fun m hm => absurd hm (howner m).2
  · exact fun m hm => absurd hm List.not_mem_nil

/-- **Frame by frame, buffer by buffer**, as long as each frame has its headers and no
product of a width and a height wraps (`okAction`). However the driver cuts what it
receives into bursts, and whatever is resized in between: the framebuffer is what the
frames leave when they are processed one after another in the order of their reception,
and each of its pixels shows the last of them. The thread has exactly the buffers of its
burst that it has not freed, uses no others, frees each once, and leaves none behind when
it has closed the port; it is never stuck. -/
theorem receive_in_order (hsmall : width.toNat * height.toNat < 2 ^ 32)
    (halloc : fbAlloc h₀ width height true true numaNode = (mem, .ok fb))
    (howner : ∀ m, owner m ≠ some .thread ∧ owner m ≠ some .filled)
    (hs : (system mem fb owner content).ReachableBy (fun s a => okAction s a = true) s) :
    serve (mem, fb) s.ops = some (s.mem, s.fb) ∧
      framesOf s.ops ++ s.pc.pending.map s.content = s.received ∧
      (∀ x y, x < s.fb.size.width → y < s.fb.size.height →
        fbGetPixel s.mem s.fb x y = some (lastAt (sinceClear (events s.ops)) x.toNat y.toNat)) ∧
      s.freed ++ s.pc.held = s.taken ∧
      (s.pc.held.Nodup ∧ ∀ m, s.owner m = some .thread ↔ m ∈ s.pc.held) ∧
      (∀ i, s.pc = .queue i → s.port = .started) ∧
      (s.pc = .returned → framesOf s.ops = s.received ∧ s.freed = s.taken ∧ s.port = .closed) ∧
      (s.pc ≠ .returned → (step s (.thread [])).isSome) := by
  have h := inv_of_reachable hsmall halloc howner hs
  refine ⟨h.serve, h.in_order, ?_, h.once, ⟨h.holds.nodup, h.holds.mem_iff⟩, ?_, ?_, h.thread_isSome⟩
  · intro x y hx hy
    rw [fbGetPixel_shows h.shows hx hy, colour_foldl]
    · rw [h.shows.width]
      exact UInt32.lt_iff_toNat_lt.mp hx
    · rw [h.shows.height]
      exact UInt32.lt_iff_toNat_lt.mp hy
  · intro i hpc
    have hport := h.port
    rwa [hpc] at hport
  · intro hpc
    have horder := h.in_order
    have honce := h.once
    have hport := h.port
    rw [hpc] at horder honce hport
    simp only [Pc.pending, Pc.held, List.map_nil, List.append_nil] at horder honce
    exact ⟨horder, honce, hport⟩

end

/-- Two frames in one burst, a resize between them, and a signal. -/
def twoFrames : List Action :=
  [.refill 7, .refill 9, .receive 9 (.ofFrame (ipv6Frame [0, 1, 0, 1, 0xFF, 0x80, 0x01, 0])),
    .receive 7 (.ofFrame (ipv6Frame [0, 2, 0, 0, 0xFF, 0, 0, 0])), .thread [], .thread [9, 7],
    .thread [], .resize 3 1 (some fun _ => 7), .thread [], .thread [], .signal 15, .thread []] ++
  List.replicate 5 (.thread [])

def atStart : System State Action :=
  system (calloc ⟨[]⟩ 4) ⟨⟨2, 2⟩, 0, 0, 0, 0⟩ (fun _ => some .pool) fun _ => ⟨fun _ => 0, 0⟩

theorem receive_in_order_two_frames :
    ∃ s, atStart.run atStart.init twoFrames = some s ∧
      framesOf s.ops = s.received ∧ s.freed = s.taken ∧ s.port = .closed := by
  have hend : ((atStart.restrict okAction).run atStart.init twoFrames).map State.pc =
      some .returned := rfl
  obtain ⟨s, hrun, hpc⟩ := Option.map_eq_some_iff.mp hend
  have hpool : ∀ m : Mbuf, (some Owner.pool : Option Owner) ≠ some .thread ∧
      (some Owner.pool : Option Owner) ≠ some .filled := fun _ => by decide
  obtain ⟨-, -, -, -, -, -, hreturned, -⟩ := @receive_in_order _ _ s ⟨[]⟩ 2 2 0 _ _ (by decide) rfl hpool
    (System.reachableBy_of_run twoFrames hrun)
  exact ⟨s, System.run_of_restrict twoFrames hrun, hreturned hpc⟩

end Pixelflut.Network.Receive
