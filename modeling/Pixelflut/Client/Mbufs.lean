import Pixelflut.Lib.Transition
import Pixelflut.Lib.Ownership
import Pixelflut.Client.Address

/-!
# The packet buffers of the DPDK client

The loop of `lcore_main`, a call or a group of stores at a time; which port comes
next, what `rte_pktmbuf_alloc_bulk` and `rte_eth_tx_burst` answer and when the
driver gives buffers back is up to the action. An address that belongs to no
buffer has no owner. `trace` records every use of a buffer with its owner at that
moment, `allocated` what has been allocated, and `failed` whether the last
`rte_pktmbuf_alloc_bulk` failed, which the program does not remember.

* `held` is what the client has to give back; `Ledger.step` keeps it true;
* `disciplined_iff`: a run uses only buffers of the client, and gives each back
  once, exactly when it appends to no buffer after a failed allocation;
* `disciplined_fails`: with the first allocation failed, it does.
-/

namespace Pixelflut.Client.Mbufs

open Lib.Ownership Lib.Transition

abbrev BURST_SIZE : Nat := 32

abbrev Mbuf := Nat

inductive Owner where
  | pool
  | client
  | driver
  deriving DecidableEq

inductive Use where
  | append
  | write (dst : Address)
  | transmit (port : UInt16)
  | free
  deriving DecidableEq

structure Event where
  use : Use
  mbuf : Mbuf
  owner : Option Owner
  deriving DecidableEq

/-- Where `lcore_main` is. -/
inductive Pc where
  | nextPort
  | append (port : UInt16) (i : Fin BURST_SIZE)
  | write (port : UInt16) (i : Fin BURST_SIZE)
  | txBurst (port : UInt16)
  | free (buf : Fin BURST_SIZE)

/-- The pixel that the next packet sets. -/
structure Sweep where
  x : Int32
  y : Int32
  rgb : UInt32
  deriving DecidableEq

/-- The end of the loop body; `rand` is the answer of `rand()`. -/
def Sweep.next (v : Sweep) (rand : UInt32) : Sweep :=
  if v.x + 1 > 900 then
    if v.y + 1 > 700 then ⟨100, 100, rand⟩ else ⟨100, v.y + 1, v.rgb⟩
  else ⟨v.x + 1, v.y, v.rgb⟩

structure State where
  mHead : Vector Mbuf BURST_SIZE
  sweep : Sweep
  owner : Owners Mbuf Owner
  pc : Pc
  trace : List Event
  allocated : List Mbuf
  failed : Bool

/-! ## Steps -/

inductive Action where
  | alloc (port : UInt16) (answer : Option (Vector Mbuf BURST_SIZE))
  | append
  | write (rand : UInt32)
  | txBurst (nbTx : Nat)
  | free
  | driver (m : Mbuf)

/-- The uses of the buffers `ms`, with their owners. -/
def uses (own : Owners Mbuf Owner) (use : Use) (ms : List Mbuf) : List Event :=
  ms.map fun m => ⟨use, m, own m⟩

def nextPacket (port : UInt16) (i : Fin BURST_SIZE) : Pc :=
  if h : i.val + 1 < BURST_SIZE then .append port ⟨i.val + 1, h⟩ else .txBurst port

/-- The loop that frees from `m_head[buf]` on. -/
def freeFrom (buf : Nat) : Pc := if h : buf < BURST_SIZE then .free ⟨buf, h⟩ else .nextPort

def lcoreMainStep (s : State) (a : Action) : Option State :=
  match a, s.pc with
  | .alloc port none, .nextPort =>
    -- only a message
    some { s with pc := .append port 0, failed := true }
  | .alloc port (some ms), .nextPort =>
    if ms.toList.Nodup ∧ ∀ m ∈ ms.toList, s.owner m = some .pool then
      some { s with mHead := ms, owner := give s.owner ms.toList .client, pc := .append port 0,
                    allocated := s.allocated ++ ms.toList, failed := false }
    else none
  | .append, .append port i =>
    some { s with pc := .write port i, trace := s.trace ++ uses s.owner .append [s.mHead[i]] }
  | .write rand, .write port i =>
    let dst := lcoreMainAddr s.sweep.x s.sweep.y s.sweep.rgb
    some { s with pc := nextPacket port i, sweep := s.sweep.next rand,
                  trace := s.trace ++ uses s.owner (.write dst) [s.mHead[i]] }
  | .txBurst nbTx, .txBurst port =>
    let sent := s.mHead.toList.take nbTx
    if nbTx ≤ BURST_SIZE then
      some { s with pc := freeFrom nbTx, owner := give s.owner sent .driver,
                    trace := s.trace ++ uses s.owner (.transmit port) sent }
    else none
  | .free, .free buf =>
    some { s with pc := freeFrom (buf.val + 1), owner := give s.owner [s.mHead[buf]] .pool,
                  trace := s.trace ++ uses s.owner .free [s.mHead[buf]] }
  | .driver m, _ =>
    if s.owner m = some .driver then some { s with owner := give s.owner [m] .pool } else none
  | _, _ => none

/-- `lcore_main` from its loop on, with any content of the uninitialised `m_head`. -/
def lcoreMain (mHead : Vector Mbuf BURST_SIZE) (rgb : UInt32) (owner : Owners Mbuf Owner) :
    System State Action where
  init := ⟨mHead, ⟨100, 100, rgb⟩, owner, .nextPort, [], [], false⟩
  step := lcoreMainStep

/-- No buffer is appended to after a failed allocation. -/
def okAppend (s : State) : Action → Bool
  | .append => !s.failed
  | _ => true

/-! ## What is demanded -/

def Use.givesBack : Use → Bool
  | .transmit _ | .free => true
  | _ => false

/-- The buffers that were transmitted or freed, in this order. -/
def givenBack (trace : List Event) : List Mbuf := (trace.filter (·.use.givesBack)).map (·.mbuf)

/-- Every buffer used was the client's; between two ports the client has none,
and has given back each one allocated, once for each time. -/
structure Disciplined (s : State) : Prop where
  owned : ∀ e ∈ s.trace, e.owner = some .client
  none_left : s.pc = .nextPort → ∀ m, s.owner m ≠ some .client
  each_once : s.pc = .nextPort → givenBack s.trace = s.allocated

/-! ## What the client holds -/

/-- What is still to be given back, when the burst was allocated. -/
def Pc.rest (ms : List Mbuf) : Pc → List Mbuf
  | .nextPort => []
  | .free buf => ms.drop buf
  | _ => ms

def State.held (s : State) : List Mbuf := if s.failed then [] else s.pc.rest s.mHead.toList

@[simp] theorem rest_append (ms : List Mbuf) (port : UInt16) (i : Fin BURST_SIZE) :
    (Pc.append port i).rest ms = ms := rfl

@[simp] theorem rest_write (ms : List Mbuf) (port : UInt16) (i : Fin BURST_SIZE) :
    (Pc.write port i).rest ms = ms := rfl

@[simp] theorem rest_txBurst (ms : List Mbuf) (port : UInt16) : (Pc.txBurst port).rest ms = ms := rfl

@[simp] theorem rest_free (ms : List Mbuf) (buf : Fin BURST_SIZE) :
    (Pc.free buf).rest ms = ms.drop buf := rfl

@[simp] theorem rest_nextPacket (ms : List Mbuf) (port : UInt16) (i : Fin BURST_SIZE) :
    (nextPacket port i).rest ms = ms := by
  unfold nextPacket
  split
  · rfl
  · rfl

@[simp] theorem rest_freeFrom (ms : Vector Mbuf BURST_SIZE) (n : Nat) :
    (freeFrom n).rest ms.toList = ms.toList.drop n := by
  unfold freeFrom
  split
  · rfl
  · next h =>
    rw [List.drop_eq_nil_of_le (by rw [Vector.length_toList]; omega)]
    rfl

theorem held_nextPort {s : State} (hpc : s.pc = .nextPort) : s.held = [] := by
  rw [State.held, hpc, Pc.rest, ite_self]

/-- After a failed allocation no buffer has been used yet. -/
def State.Fresh (s : State) : Prop := s.failed = true → ∃ port, s.pc = .append port 0

/-- The steps of the loop, with their guards. -/
inductive Move (s : State) : Action → State → Prop where
  | refuse (port : UInt16) (hpc : s.pc = .nextPort) :
      Move s (.alloc port none) { s with pc := .append port 0, failed := true }
  | allocate (port : UInt16) (ms : Vector Mbuf BURST_SIZE) (hpc : s.pc = .nextPort)
      (hms : ms.toList.Nodup) (hpool : ∀ m ∈ ms.toList, s.owner m = some .pool) :
      Move s (.alloc port (some ms)) { s with
        mHead := ms, owner := give s.owner ms.toList .client, pc := .append port 0
        allocated := s.allocated ++ ms.toList, failed := false }
  | append (port : UInt16) (i : Fin BURST_SIZE) (hpc : s.pc = .append port i) :
      Move s .append { s with
        pc := .write port i, trace := s.trace ++ uses s.owner .append [s.mHead[i]] }
  | write (port : UInt16) (i : Fin BURST_SIZE) (rand : UInt32) (hpc : s.pc = .write port i) :
      Move s (.write rand) { s with
        pc := nextPacket port i, sweep := s.sweep.next rand
        trace := s.trace ++
          uses s.owner (.write (lcoreMainAddr s.sweep.x s.sweep.y s.sweep.rgb)) [s.mHead[i]] }
  | txBurst (port : UInt16) (nbTx : Nat) (hpc : s.pc = .txBurst port) (hle : nbTx ≤ BURST_SIZE) :
      Move s (.txBurst nbTx) { s with
        pc := freeFrom nbTx, owner := give s.owner (s.mHead.toList.take nbTx) .driver
        trace := s.trace ++ uses s.owner (.transmit port) (s.mHead.toList.take nbTx) }
  | free (buf : Fin BURST_SIZE) (hpc : s.pc = .free buf) :
      Move s .free { s with
        pc := freeFrom (buf.val + 1), owner := give s.owner [s.mHead[buf]] .pool
        trace := s.trace ++ uses s.owner .free [s.mHead[buf]] }
  | driver (m : Mbuf) (hm : s.owner m = some .driver) :
      Move s (.driver m) { s with owner := give s.owner [m] .pool }

theorem move_of_lcoreMainStep {s s' : State} {a : Action} (hstep : lcoreMainStep s a = some s') :
    Move s a s' := by
  cases a with
  | alloc port answer =>
    cases hpc : s.pc with
    | nextPort =>
      cases answer with
      | none =>
        simp only [lcoreMainStep, hpc, Option.some.injEq] at hstep
        subst hstep
        exact .refuse port hpc
      | some ms =>
        simp only [lcoreMainStep, hpc, Option.ite_none_right_eq_some, Option.some.injEq] at hstep
        obtain ⟨⟨hms, hpool⟩, rfl⟩ := hstep
        exact .allocate port ms hpc hms hpool
    | _ => simp [lcoreMainStep, hpc] at hstep
  | append =>
    cases hpc : s.pc with
    | append port i =>
      simp only [lcoreMainStep, hpc, Option.some.injEq] at hstep
      subst hstep
      exact .append port i hpc
    | _ => simp [lcoreMainStep, hpc] at hstep
  | write rand =>
    cases hpc : s.pc with
    | write port i =>
      simp only [lcoreMainStep, hpc, Option.some.injEq] at hstep
      subst hstep
      exact .write port i rand hpc
    | _ => simp [lcoreMainStep, hpc] at hstep
  | txBurst nbTx =>
    cases hpc : s.pc with
    | txBurst port =>
      simp only [lcoreMainStep, hpc, Option.ite_none_right_eq_some, Option.some.injEq] at hstep
      obtain ⟨hle, rfl⟩ := hstep
      exact .txBurst port nbTx hpc hle
    | _ => simp [lcoreMainStep, hpc] at hstep
  | free =>
    cases hpc : s.pc with
    | free buf =>
      simp only [lcoreMainStep, hpc, Option.some.injEq] at hstep
      subst hstep
      exact .free buf hpc
    | _ => simp [lcoreMainStep, hpc] at hstep
  | driver m =>
    simp only [lcoreMainStep, Option.ite_none_right_eq_some, Option.some.injEq] at hstep
    obtain ⟨hm, rfl⟩ := hstep
    exact .driver m hm

/-- What a step does to the buffers. -/
inductive Effect (s : State) (a : Action) (s' : State) : Prop where
  | refused (howner : s'.owner = s.owner) (hheld : s.held = []) (hheld' : s'.held = [])
      (htrace : s'.trace = s.trace) (hall : s'.allocated = s.allocated) (hfresh : s'.Fresh)
  | allocated (ms : List Mbuf) (howner : s'.owner = give s.owner ms .client) (hms : ms.Nodup)
      (hheld : s.held = []) (hheld' : s'.held = ms) (htrace : s'.trace = s.trace)
      (hall : s'.allocated = s.allocated ++ ms) (hfailed : s'.failed = false)
  | used (use : Use) (m : Mbuf) (howner : s'.owner = s.owner) (hheld : s'.held = s.held)
      (hm : s.failed = false → m ∈ s.held) (huse : use.givesBack = false)
      (htrace : s'.trace = s.trace ++ uses s.owner use [m]) (hall : s'.allocated = s.allocated)
      (hfailed : s'.failed = s.failed) (hok : s.Fresh → okAppend s a = true → s.failed = false)
  | gaveBack (use : Use) (ms : List Mbuf) (o : Owner) (howner : s'.owner = give s.owner ms o)
      (ho : o ≠ .client) (hheld : s.failed = false → s.held = ms ++ s'.held)
      (huse : use.givesBack = true) (htrace : s'.trace = s.trace ++ uses s.owner use ms)
      (hall : s'.allocated = s.allocated) (hfailed : s'.failed = s.failed)
      (hok : s.Fresh → s.failed = false)
  | returned (m : Mbuf) (howner : s'.owner = give s.owner [m] .pool)
      (hm : s.owner m = some .driver) (hheld : s'.held = s.held) (htrace : s'.trace = s.trace)
      (hall : s'.allocated = s.allocated) (hfresh : s.Fresh → s'.Fresh)

theorem Fresh.failed {s : State} (h : s.Fresh) (hpc : ∀ port, s.pc ≠ .append port 0) :
    s.failed = false := by
  cases hf : s.failed with
  | false => rfl
  | true =>
    obtain ⟨port, heq⟩ := h hf
    exact absurd heq (hpc port)

/-- **Step lemma.** -/
theorem lcoreMainStep_effect {s s' : State} {a : Action} (hstep : lcoreMainStep s a = some s') :
    Effect s a s' := by
  cases move_of_lcoreMainStep hstep with
  | refuse port hpc => exact .refused rfl (held_nextPort hpc) rfl rfl rfl fun _ => ⟨port, rfl⟩
  | allocate port ms hpc hms hpool =>
    exact .allocated ms.toList rfl hms (held_nextPort hpc) rfl rfl rfl rfl
  | append port i hpc =>
    refine .used .append s.mHead[i] rfl ?_ ?_ rfl rfl rfl rfl ?_
    · simp [State.held, hpc]
    · intro hf
      simp [State.held, hpc, hf]
    · exact fun _ hok => by simpa [okAppend] using hok
  | write port i rand hpc =>
    refine .used _ s.mHead[i] rfl ?_ ?_ ?_ rfl rfl rfl ?_
    · simp [State.held, hpc]
    · intro hf
      simp [State.held, hpc, hf]
    · rfl
    · exact fun hfresh _ => Fresh.failed hfresh (by simp [hpc])
  | txBurst port nbTx hpc hle =>
    refine .gaveBack (.transmit port) (s.mHead.toList.take nbTx) .driver rfl nofun ?_ rfl rfl rfl
      rfl ?_
    · intro hf
      simp [State.held, hpc, hf]
    · exact fun hfresh => Fresh.failed hfresh (by simp [hpc])
  | free buf hpc =>
    refine .gaveBack .free [s.mHead[buf]] .pool rfl nofun ?_ rfl rfl rfl rfl ?_
    · intro hf
      have hbuf : buf.val < s.mHead.toList.length := by simp
      have hdrop := List.drop_eq_getElem_cons hbuf
      simpa [State.held, hpc, hf] using hdrop
    · exact fun hfresh => Fresh.failed hfresh (by simp [hpc])
  | driver m hm => exact .returned m rfl hm rfl rfl rfl id

/-! ## Runs -/

theorem uses_owner {own : Owners Mbuf Owner} {use : Use} {ms : List Mbuf} {e : Event}
    (he : e ∈ uses own use ms) : e.mbuf ∈ ms ∧ e.owner = own e.mbuf := by
  obtain ⟨m, hm, rfl⟩ := List.mem_map.mp he
  exact ⟨hm, rfl⟩

/-- A use of buffers that the client holds is a use of its own. -/
theorem owned_uses {own : Owners Mbuf Owner} {held ms : List Mbuf} {trace : List Event}
    (h : Holds own .client held) (htrace : ∀ e ∈ trace, e.owner = some .client) (use : Use)
    (hms : ∀ m ∈ ms, m ∈ held) : ∀ e ∈ trace ++ uses own use ms, e.owner = some .client := by
  intro e he
  rcases List.mem_append.mp he with hold | hnew
  · exact htrace e hold
  · obtain ⟨hmem, howner⟩ := uses_owner hnew
    rw [howner, h.mem_iff]
    exact hms _ hmem

theorem givenBack_uses (trace : List Event) (own : Owners Mbuf Owner) (use : Use)
    (ms : List Mbuf) : givenBack (trace ++ uses own use ms) =
      givenBack trace ++ if use.givesBack then ms else [] := by
  simp only [givenBack, uses, List.filter_append, List.map_append, List.filter_map]
  cases huse : use.givesBack with
  | false => simp [Function.comp_def, huse]
  | true => simp [Function.comp_def, huse]

/-- In every run the client owns what it holds. -/
theorem holds_step {s s' : State} {a : Action} (h : Holds s.owner .client s.held)
    (hstep : lcoreMainStep s a = some s') : Holds s'.owner .client s'.held := by
  cases lcoreMainStep_effect hstep with
  | refused howner hheld hheld' =>
    rw [howner, hheld', ← hheld]
    exact h
  | allocated ms howner hms hheld hheld' =>
    rw [howner, hheld']
    exact (hheld ▸ h).acquire hms
  | used use m howner hheld =>
    rw [howner, hheld]
    exact h
  | gaveBack use ms o howner ho hheld huse htrace hall hfailed =>
    rw [howner]
    cases hf : s.failed with
    | false => exact (hheld hf ▸ h).release ho
    | true =>
      have hnil : s.held = [] := by simp [State.held, hf]
      have hnil' : s'.held = [] := by simp [State.held, hfailed, hf]
      rw [hnil']
      exact (hnil ▸ h).others ho fun m _ => List.not_mem_nil
  | returned m howner hm hheld =>
    rw [howner, hheld]
    refine h.others nofun fun m' hm' hmem => ?_
    rw [List.mem_singleton.mp hm', ← h.mem_iff, hm] at hmem
    cases hmem

/-- What holds as long as no buffer is used after a failed allocation. -/
structure Sound (s : State) : Prop where
  holds : Holds s.owner .client s.held
  owned : ∀ e ∈ s.trace, e.owner = some .client
  account : s.allocated = givenBack s.trace ++ s.held
  fresh : s.Fresh

theorem Sound.step {s s' : State} {a : Action} (h : Sound s) (hok : okAppend s a = true)
    (hstep : lcoreMainStep s a = some s') : Sound s' := by
  have hholds := holds_step h.holds hstep
  cases lcoreMainStep_effect hstep with
  | refused howner hheld hheld' htrace hall hfresh =>
    refine ⟨hholds, by rw [htrace]; exact h.owned, ?_, hfresh⟩
    rw [hall, htrace, h.account, hheld, hheld']
  | allocated ms howner hms hheld hheld' htrace hall hfailed =>
    refine ⟨hholds, by rw [htrace]; exact h.owned, ?_, fun hf => ?_⟩
    · rw [hall, htrace, h.account, hheld, hheld', List.append_nil]
    · rw [hfailed] at hf
      cases hf
  | used use m howner hheld hm huse htrace hall hfailed hnot =>
    have hf : s.failed = false := hnot h.fresh hok
    refine ⟨hholds, ?_, ?_, fun hf' => ?_⟩
    · rw [htrace]
      exact owned_uses h.holds h.owned use (by simpa using hm hf)
    · rw [hall, htrace, givenBack_uses, huse, hheld, h.account]
      simp
    · rw [hfailed, hf] at hf'
      cases hf'
  | gaveBack use ms o howner ho hheld huse htrace hall hfailed hnot =>
    have hf : s.failed = false := hnot h.fresh
    refine ⟨hholds, ?_, ?_, fun hf' => ?_⟩
    · rw [htrace]
      refine owned_uses h.holds h.owned use fun m hm => ?_
      rw [hheld hf]
      exact List.mem_append_left _ hm
    · rw [hall, htrace, givenBack_uses, huse, h.account, hheld hf]
      simp
    · rw [hfailed, hf] at hf'
      cases hf'
  | returned m howner hm hheld htrace hall hfresh =>
    refine ⟨hholds, by rw [htrace]; exact h.owned, ?_, hfresh h.fresh⟩
    rw [hall, htrace, h.account, hheld]

theorem Sound.disciplined {s : State} (h : Sound s) : Disciplined s where
  owned := h.owned
  none_left hpc m hm := by
    have hmem := (h.holds.mem_iff m).mp hm
    rw [held_nextPort hpc] at hmem
    cases hmem
  each_once hpc := by
    rw [h.account, held_nextPort hpc, List.append_nil]

theorem trace_extends {s s' : State} {a : Action} (hstep : lcoreMainStep s a = some s') :
    ∃ events, s'.trace = s.trace ++ events := by
  cases lcoreMainStep_effect hstep with
  | used use m howner hheld hm huse htrace => exact ⟨_, htrace⟩
  | gaveBack use ms o howner ho hheld huse htrace => exact ⟨_, htrace⟩
  | refused howner hheld hheld' htrace => exact ⟨[], by simp [htrace]⟩
  | allocated ms howner hms hheld hheld' htrace => exact ⟨[], by simp [htrace]⟩
  | returned m howner hm hheld htrace => exact ⟨[], by simp [htrace]⟩

/-- A buffer appended to after a failed allocation is not the client's. -/
theorem okAppend_of_owned {s s' : State} {a : Action} (h : Holds s.owner .client s.held)
    (hstep : lcoreMainStep s a = some s') (howned : ∀ e ∈ s'.trace, e.owner = some .client) :
    okAppend s a = true := by
  cases move_of_lcoreMainStep hstep with
  | append port i hpc =>
    have hclient := howned ⟨.append, s.mHead[i], s.owner s.mHead[i]⟩ (by simp [uses])
    have hmem := (h.mem_iff _).mp hclient
    cases hf : s.failed with
    | false => simp [okAppend, hf]
    | true => simp [State.held, hf] at hmem
  | _ => rfl

section

variable {mHead : Vector Mbuf BURST_SIZE} {rgb : UInt32} {owner : Owners Mbuf Owner}

theorem holds_init (hclient : ∀ m, owner m ≠ some .client) :
    Holds (lcoreMain mHead rgb owner).init.owner .client (lcoreMain mHead rgb owner).init.held where
  nodup := List.nodup_nil
  mem_iff m := ⟨fun hm => absurd hm (hclient m), nofun⟩

/-- **The loop uses only buffers of the client and gives each back once** exactly
when it appends to none after a failed allocation. -/
theorem disciplined_iff (hclient : ∀ m, owner m ≠ some .client) {as : List Action} {s : State}
    (hrun : (lcoreMain mHead rgb owner).run (lcoreMain mHead rgb owner).init as = some s) :
    Disciplined s ↔ ((lcoreMain mHead rgb owner).restrict okAppend).run
      (lcoreMain mHead rgb owner).init as = some s := by
  have hholds : ∀ s, (lcoreMain mHead rgb owner).Reachable s → Holds s.owner .client s.held := by
    intro s hs
    refine hs.invariant (P := fun s => Holds s.owner .client s.held) (holds_init hclient) ?_
    intro s a s' _ h _ hstep
    exact holds_step h hstep
  constructor
  · intro hdisciplined
    refine (System.run_restrict_of_backward (S := lcoreMain mHead rgb owner)
      (Q := fun s => ∀ e ∈ s.trace, e.owner = some .client) ?_ as .init hrun
      hdisciplined.owned).2
    intro s a s' hs hstep howned
    refine ⟨fun e he => ?_, okAppend_of_owned (hholds s hs) hstep howned⟩
    obtain ⟨events, htrace⟩ := trace_extends hstep
    exact howned e (htrace ▸ List.mem_append_left _ he)
  · intro hok
    have hinit : Sound (lcoreMain mHead rgb owner).init :=
      ⟨holds_init hclient, fun e he => absurd he List.not_mem_nil, rfl, nofun⟩
    have hsound : Sound s :=
      (System.reachableBy_of_run as hok).invariant hinit
        fun _ _ _ _ h hok hstep => h.step hok hstep
    exact hsound.disciplined

end

/-- Nothing is allocated, and `m_head` is not initialised. -/
def atStart : System State Action :=
  lcoreMain (Vector.replicate BURST_SIZE 0) 0 fun _ => some .pool

/-- One burst of the buffers 0 to 31, of which the driver takes 30; it gives one
of them back while the last two are freed. -/
def partialBurst : List Action :=
  .alloc 0 (some (Vector.ofFn fun i => i.val)) ::
    ((List.replicate BURST_SIZE [.append, .write 0]).flatten ++
      [.txBurst 30, .free, .driver 7, .free])

theorem disciplined_iff_partial_burst :
    ∃ s, atStart.run atStart.init partialBurst = some s ∧ s.pc = .nextPort ∧
      s.owner 7 = some .pool ∧ s.owner 8 = some .driver ∧ Disciplined s := by
  have hclient : ∀ m : Mbuf, some Owner.pool ≠ some .client := fun _ => nofun
  have hend : ((atStart.restrict okAppend).run atStart.init partialBurst).map
      (fun s => (s.pc, s.owner 7, s.owner 8)) = some (.nextPort, some .pool, some .driver) := rfl
  obtain ⟨s, hok, heq⟩ := Option.map_eq_some_iff.mp hend
  have hrun := System.run_of_restrict partialBurst hok
  obtain ⟨hpc, howner⟩ := Prod.mk.inj heq
  obtain ⟨hback, htaken⟩ := Prod.mk.inj howner
  exact ⟨s, hrun, hpc, hback, htaken, (disciplined_iff hclient hrun).mpr hok⟩

/-- The first allocation fails, and the first packet is built in what is no
buffer of the client. -/
theorem undisciplined_of_failed_alloc :
    ∃ s, atStart.run atStart.init [.alloc 0 none, .append] = some s ∧ ¬Disciplined s := by
  refine ⟨_, rfl, fun h => ?_⟩
  have howner := h.owned ⟨.append, 0, some .pool⟩ (.head _)
  cases howner

end Pixelflut.Client.Mbufs
