import Mathlib.Logic.Function.Basic
import Pixelflut.Lib.Transition
import Pixelflut.Framebuffer.Basic

/-!
# Two `fb_resize` at a time

For one resize event `sdl_update` enqueues a job that calls `fb_resize` on the
framebuffer (`resize_wq_cb`, in the worker) and calls `fb_resize` itself (in the
main thread). Nothing orders the two. A step is one access to the structure or
one call of the allocator; the `memset` belongs to the `malloc`, since no other
thread knows the block yet.

`frees` and `reader` are no variables of the program: they record which blocks
have been freed, and which call has read `fb->pixels` last.

* `resize_alone`: a call that is not disturbed is `fb_resize`;
* `okStep`: no call reads `fb->pixels` while the other is between its read and
  its store of it, and none overwrites a size that the later call has stored;
* `intact_of_ok`: then every block is freed at most once, the current one is not,
  and in the end one block is left, of the size in force;
* `run_double_free`: two calls that have read the same address both free it.
-/

namespace Pixelflut.Framebuffer.Race

open Function (update)
open Lib.BlockHeap Lib.Transition

/-! ## States -/

inductive Thread where
  | worker
  | main
  deriving DecidableEq

def Thread.other : Thread → Thread
  | .worker => .main
  | .main => .worker

/-- The arguments of a call, and the answer of its `malloc`. -/
structure Target where
  width : UInt32
  height : UInt32
  mem : Malloc

/-- Where a call is, with the values of its variables. -/
inductive Pc where
  | readWidth
  | readHeight (width : UInt32)
  | malloc (oldsize : FbSize)
  | readPixels (oldsize : FbSize) (fbmem : Nat)
  /-- In the branch that stores the size first, before its three stores. -/
  | shrinkWidth (fbmem oldmem : Nat)
  | shrinkHeight (fbmem oldmem : Nat)
  | shrinkPixels (fbmem oldmem : Nat)
  /-- In the other branch, before its three stores. -/
  | growPixels (fbmem oldmem : Nat)
  | growWidth (oldmem : Nat)
  | growHeight (oldmem : Nat)
  | free (oldmem : Nat)
  | returned (err : Int)

structure State where
  mem : Memory
  fb : Fb
  pc : Thread → Pc
  frees : List Nat
  reader : Option Thread

/-! ## Steps -/

def goto (s : State) (t : Thread) (pc : Pc) : State := { s with pc := update s.pc t pc }

def storeWidth (s : State) (width : UInt32) : State :=
  { s with fb := { s.fb with size := { s.fb.size with width := width } } }

def storeHeight (s : State) (height : UInt32) : State :=
  { s with fb := { s.fb with size := { s.fb.size with height := height } } }

def storePixels (s : State) (fbmem : Nat) : State := { s with fb := { s.fb with pixels := fbmem } }

/-- `free(oldmem)`; a block that is freed already stays so. -/
def freeBlock (s : State) (oldmem : Nat) : State :=
  { s with mem := (s.mem.free oldmem).getD s.mem, frees := s.frees ++ [oldmem] }

/-- `fb_resize` in the thread `t`. -/
def fbResizeStep (s : State) (t : Thread) (target : Target) : Option State :=
  match s.pc t with
  | .readWidth => some (goto s t (.readHeight s.fb.size.width))
  | .readHeight width => some (goto s t (.malloc ⟨width, s.fb.size.height⟩))
  | .malloc oldsize =>
    match target.mem with
    | none => some (goto s t (.returned (-ENOMEM)))
    | some old =>
      (zeroedBlock s.mem (memsize ⟨target.width, target.height⟩) old).map fun mem =>
        { goto s t (.readPixels oldsize s.mem.fresh) with mem := mem }
  | .readPixels oldsize fbmem =>
    let pc := if memsize oldsize > memsize ⟨target.width, target.height⟩
      then .shrinkWidth fbmem s.fb.pixels
      else .growPixels fbmem s.fb.pixels
    some { goto s t pc with reader := some t }
  | .shrinkWidth fbmem oldmem =>
    some (goto (storeWidth s target.width) t (.shrinkHeight fbmem oldmem))
  | .shrinkHeight fbmem oldmem =>
    some (goto (storeHeight s target.height) t (.shrinkPixels fbmem oldmem))
  | .shrinkPixels fbmem oldmem => some (goto (storePixels s fbmem) t (.free oldmem))
  | .growPixels fbmem oldmem => some (goto (storePixels s fbmem) t (.growWidth oldmem))
  | .growWidth oldmem => some (goto (storeWidth s target.width) t (.growHeight oldmem))
  | .growHeight oldmem => some (goto (storeHeight s target.height) t (.free oldmem))
  | .free oldmem => some (goto (freeBlock s oldmem) t (.returned 0))
  | .returned _ => none

/-- The two calls on the framebuffer `fb`. -/
def resizes (target : Thread → Target) (mem : Memory) (fb : Fb) : System State Thread where
  init := ⟨mem, fb, fun _ => .readWidth, [], none⟩
  step s t := fbResizeStep s t (target t)

section

variable (target : Thread → Target) (mem : Memory) (fb : Fb) {t : Thread} {s : State}

/-- The steps of a call up to its branch, when its `malloc` succeeds. -/
theorem run_prepare (hpc : s.pc t = .readWidth) {old : Nat → UInt32}
    (hmem : (target t).mem = some old) {mem₁ : Memory}
    (hzeroed : zeroedBlock s.mem (memsize ⟨(target t).width, (target t).height⟩) old = some mem₁) :
    (resizes target mem fb).run s (List.replicate 4 t) =
      some ({ goto s t (if memsize s.fb.size > memsize ⟨(target t).width, (target t).height⟩
          then .shrinkWidth s.mem.fresh s.fb.pixels else .growPixels s.mem.fresh s.fb.pixels) with
        mem := mem₁, reader := some t }) := by
  simp [List.replicate, System.run, resizes, fbResizeStep, goto, hpc, hmem, hzeroed]

/-- The branch that stores the size first. -/
theorem run_shrink {fbmem oldmem : Nat} (hpc : s.pc t = .shrinkWidth fbmem oldmem) :
    (resizes target mem fb).run s (List.replicate 4 t) =
      some (goto (freeBlock (storePixels (storeHeight (storeWidth s (target t).width)
        (target t).height) fbmem) oldmem) t (.returned 0)) := by
  simp [List.replicate, System.run, resizes, fbResizeStep, goto, storeWidth, storeHeight,
    storePixels, freeBlock, hpc]

/-- The other branch. -/
theorem run_grow {fbmem oldmem : Nat} (hpc : s.pc t = .growPixels fbmem oldmem) :
    (resizes target mem fb).run s (List.replicate 4 t) =
      some (goto (freeBlock (storeHeight (storeWidth (storePixels s fbmem) (target t).width)
        (target t).height) oldmem) t (.returned 0)) := by
  simp [List.replicate, System.run, resizes, fbResizeStep, goto, storeWidth, storeHeight,
    storePixels, freeBlock, hpc]

end

/-- A call that is not disturbed is `fb_resize`. -/
theorem resize_alone (target : Thread → Target) {mem : Memory} {fb : Fb} {t : Thread} {s : State}
    (hpc : s.pc t = .readWidth) {cells : List UInt32}
    (hlive : s.mem.block s.fb.pixels = some cells) :
    ∃ n s' err, (resizes target mem fb).run s (List.replicate n t) = some s' ∧
      fbResize s.mem s.fb (target t).width (target t).height (target t).mem =
        some (s'.mem, s'.fb, err) ∧
      s'.pc = update s.pc t (.returned err) := by
  cases hmem : (target t).mem with
  | none =>
    refine ⟨3, goto s t (.returned (-ENOMEM)), -ENOMEM, ?_, rfl, rfl⟩
    simp [List.replicate, System.run, resizes, fbResizeStep, goto, hpc, hmem]
  | some old =>
    obtain ⟨mem₁, hzeroed, -, -, hold⟩ :=
      zeroedBlock_spec s.mem (target t).width (target t).height old
    have hne : s.fb.pixels ≠ s.mem.fresh := Nat.ne_of_lt (Heap.block_lt hlive)
    obtain ⟨mem₂, hfree, -, -, -⟩ := Heap.free_spec ((hold _ hne).trans hlive)
    let fb' := fbSetSize { s.fb with pixels := s.mem.fresh } (target t).width (target t).height
    let last : State := ⟨mem₂, fb', s.pc, s.frees ++ [s.fb.pixels], some t⟩
    refine ⟨4 + 4, goto last t (.returned 0), 0, ?_, ?_, rfl⟩
    · rw [← List.replicate_append_replicate, System.run_append,
        run_prepare target mem fb hpc hmem hzeroed, Option.bind_some]
      by_cases hsize : memsize s.fb.size > memsize ⟨(target t).width, (target t).height⟩
      · rw [if_pos hsize, run_shrink target mem fb (Function.update_self t _ s.pc)]
        simp [goto, freeBlock, storePixels, storeHeight, storeWidth, hfree, last, fb', fbSetSize]
      · rw [if_neg hsize, run_grow target mem fb (Function.update_self t _ s.pc)]
        simp [goto, freeBlock, storePixels, storeHeight, storeWidth, hfree, last, fb', fbSetSize]
    · simp only [fbResize, hzeroed, Option.bind_some, hfree, Option.map_some]
      split
      · rfl
      · rfl

/-! ## What a call has before it -/

structure Stage where
  /-- The block that the call has to give back: the new one before it is stored,
  the old one behind that. -/
  held : Option Nat
  /-- The new block, as long as it is not stored. -/
  newBlock : Option Nat
  /-- The value read from `fb->pixels`, as long as nothing is stored there. -/
  window : Option Nat
  /-- The call has read `fb->pixels`, and has not returned. -/
  hasRead : Bool
  widthAhead : Bool
  heightAhead : Bool

def Pc.stage : Pc → Stage
  | .readWidth | .readHeight _ | .malloc _ | .returned _ => ⟨none, none, none, false, false, false⟩
  | .readPixels _ fbmem => ⟨some fbmem, some fbmem, none, false, false, false⟩
  | .shrinkWidth fbmem oldmem => ⟨some fbmem, some fbmem, some oldmem, true, true, true⟩
  | .shrinkHeight fbmem oldmem => ⟨some fbmem, some fbmem, some oldmem, true, false, true⟩
  | .shrinkPixels fbmem oldmem => ⟨some fbmem, some fbmem, some oldmem, true, false, false⟩
  | .growPixels fbmem oldmem => ⟨some fbmem, some fbmem, some oldmem, true, true, true⟩
  | .growWidth oldmem => ⟨some oldmem, none, none, true, true, true⟩
  | .growHeight oldmem => ⟨some oldmem, none, none, true, false, true⟩
  | .free oldmem => ⟨some oldmem, none, none, true, false, false⟩

def Pc.isReturned : Pc → Bool
  | .returned _ => true
  | _ => false

/-- The step does not read `fb->pixels` while the other call is between its read
and its store of it, and does not change a size that the other call, which has
read `fb->pixels` behind this one, has stored. -/
def okStep (target : Thread → Target) (s : State) (t : Thread) : Bool :=
  match s.pc t with
  | .readPixels .. => (s.pc t.other).stage.window.isNone
  | .shrinkWidth .. | .growWidth _ =>
    s.reader = some t || (s.pc t.other).stage.widthAhead || s.fb.size.width = (target t).width
  | .shrinkHeight .. | .growHeight _ =>
    s.reader = some t || (s.pc t.other).stage.heightAhead || s.fb.size.height = (target t).height
  | _ => true

/-- Every block has been freed at most once and the current one has not; when
both calls have returned, it is the only one, and has a cell for each pixel. -/
structure Intact (s : State) : Prop where
  once : s.frees.Nodup
  current : s.fb.pixels ∉ s.frees
  live : (s.mem.block s.fb.pixels).isSome
  final : (∀ t, (s.pc t).isReturned = true) →
    (∀ p, (s.mem.block p).isSome → p = s.fb.pixels) ∧ ∃ cells, Backed s.mem s.fb cells

/-! ## The invariant -/

/-- What holds of the call `t`, which is at the stage `st`. -/
structure CallInv (target : Thread → Target) (mem : Memory) (fb : Fb) (reader : Option Thread)
    (t : Thread) (st : Stage) : Prop where
  apart : st.held ≠ some fb.pixels
  window : ∀ p, st.window = some p → p = fb.pixels ∧ reader = some t
  read : st.hasRead = true → reader ≠ none
  zeroed : ∀ p, st.newBlock = some p → st.held = some p ∧
    mem.block p = some (List.replicate (cellCount (target t).width (target t).height) 0)
  /-- What the call that has read last does not store any more has its size. -/
  width : reader = some t → st.widthAhead = true ∨ fb.size.width = (target t).width
  height : reader = some t → st.heightAhead = true ∨ fb.size.height = (target t).height
  pixels : reader = some t → st.window.isSome ∨ ∃ cells,
    mem.block fb.pixels = some cells ∧
      cells.length = cellCount (target t).width (target t).height

/-- The invariant, as the call `t` sees it. -/
structure Inv (target : Thread → Target) (mem : Memory) (fb : Fb) (t : Thread)
    (mine other : Stage) (frees : List Nat) (reader : Option Thread) : Prop where
  mover : CallInv target mem fb reader t mine
  rest : CallInv target mem fb reader t.other other
  live : ∀ p, (mem.block p).isSome ↔ p = fb.pixels ∨ mine.held = some p ∨ other.held = some p
  distinct : ∀ p, mine.held = some p → other.held ≠ some p
  untouched : reader = none → ∃ cells, Backed mem fb cells
  once : frees.Nodup
  freed : ∀ p ∈ frees, p < mem.fresh ∧ mem.block p = none

variable {target : Thread → Target} {mem : Memory} {fb : Fb} {t : Thread} {mine other : Stage}
  {frees : List Nat} {reader : Option Thread}

theorem Thread.other_other (t : Thread) : t.other.other = t := by
  cases t <;> rfl

theorem Thread.other_ne (t : Thread) : t.other ≠ t := by
  cases t <;> decide

theorem Thread.some_ne (t : Thread) : some t ≠ some t.other := fun heq =>
  t.other_ne (Option.some.inj heq).symm

/-- Both calls see the same. -/
theorem Inv.symm (h : Inv target mem fb t mine other frees reader) :
    Inv target mem fb t.other other mine frees reader where
  mover := h.rest
  rest := by rw [t.other_other]; exact h.mover
  live p := by rw [h.live p, or_comm (a := other.held = some p)]
  distinct p hother hmine := h.distinct p hmine hother
  untouched := h.untouched
  once := h.once
  freed := h.freed

/-- A call does not notice what happens to other blocks. -/
theorem CallInv.congr_mem {st : Stage} {mem' : Memory}
    (h : CallInv target mem fb reader t st)
    (hpixels : mem'.block fb.pixels = mem.block fb.pixels)
    (hheld : ∀ p, st.held = some p → mem'.block p = mem.block p) :
    CallInv target mem' fb reader t st where
  apart := h.apart
  window := h.window
  read := h.read
  zeroed p hp := ⟨(h.zeroed p hp).1, by rw [hheld p (h.zeroed p hp).1, (h.zeroed p hp).2]⟩
  width := h.width
  height := h.height
  pixels := by rw [hpixels]; exact h.pixels

/-- Of a call behind whose read the other one has read, only its own blocks matter. -/
theorem CallInv.of_overtaken {st : Stage} (apart : st.held ≠ some fb.pixels)
    (window : st.window = none)
    (zeroed : ∀ p, st.newBlock = some p → st.held = some p ∧ mem.block p =
      some (List.replicate (cellCount (target t.other).width (target t.other).height) 0)) :
    CallInv target mem fb (some t) t.other st where
  apart := apart
  window p hp := by
    rw [window] at hp
    cases hp
  read := nofun
  zeroed := zeroed
  width heq := absurd heq t.some_ne
  height heq := absurd heq t.some_ne
  pixels heq := absurd heq t.some_ne

/-- The call has got a new block. -/
theorem Inv.alloc (h : Inv target mem fb t ⟨none, none, none, false, false, false⟩ other frees reader)
    {mem' : Memory} (hfresh : mem'.fresh = mem.fresh + 1)
    (hnew : mem'.block mem.fresh =
      some (List.replicate (cellCount (target t).width (target t).height) 0))
    (hold : ∀ q, q ≠ mem.fresh → mem'.block q = mem.block q) :
    Inv target mem' fb t ⟨some mem.fresh, some mem.fresh, none, false, false, false⟩ other frees
      reader := by
  have hne : ∀ p, (mem.block p).isSome → p ≠ mem.fresh := fun p hp heq => by
    obtain ⟨cells, hcells⟩ := Option.isSome_iff_exists.mp hp
    exact absurd (Heap.block_lt hcells) (by omega)
  have hpixels : fb.pixels ≠ mem.fresh := hne _ ((h.live _).mpr (.inl rfl))
  have hother : ∀ p, other.held = some p → p ≠ mem.fresh := fun p hp =>
    hne p ((h.live p).mpr (.inr (.inr hp)))
  constructor
  case mover =>
    constructor
    case apart => simpa using hpixels.symm
    case window => nofun
    case read => nofun
    case zeroed =>
      intro p hp
      cases hp
      exact ⟨rfl, hnew⟩
    case width => exact h.mover.width
    case height => exact h.mover.height
    case pixels =>
      rw [hold _ hpixels]
      exact h.mover.pixels
  case rest => exact h.rest.congr_mem (hold _ hpixels) fun p hp => hold p (hother p hp)
  case live =>
    intro p
    by_cases hp : p = mem.fresh
    · subst hp
      simp [hnew]
    · rw [hold p hp, h.live p]
      simp [Ne.symm hp]
  case distinct =>
    intro p hp hp'
    cases hp
    exact hother _ hp' rfl
  case untouched =>
    intro hr
    obtain ⟨cells, hcells⟩ := h.untouched hr
    exact ⟨cells, by rw [hold _ hpixels, hcells.block], hcells.length⟩
  case once => exact h.once
  case freed =>
    intro p hp
    obtain ⟨hlt, hdead⟩ := h.freed p hp
    exact ⟨by omega, by rw [hold p (Nat.ne_of_lt hlt), hdead]⟩

/-- The call reads `fb->pixels`, and the other one is not between its read and
its store. -/
theorem Inv.readPixels {fbmem : Nat}
    (h : Inv target mem fb t ⟨some fbmem, some fbmem, none, false, false, false⟩ other frees reader)
    (hfree : other.window = none) :
    Inv target mem fb t ⟨some fbmem, some fbmem, some fb.pixels, true, true, true⟩ other frees
      (some t) := by
  constructor
  case mover =>
    constructor
    case apart => exact h.mover.apart
    case window => exact fun p hp => ⟨(Option.some.inj hp).symm, rfl⟩
    case read => nofun
    case zeroed => exact h.mover.zeroed
    case width => exact fun _ => .inl rfl
    case height => exact fun _ => .inl rfl
    case pixels => exact fun _ => .inl rfl
  case rest => exact .of_overtaken h.rest.apart hfree h.rest.zeroed
  case live => exact h.live
  case distinct => exact h.distinct
  case untouched => nofun
  case once => exact h.once
  case freed => exact h.freed

/-- The call stores `fb->pixels`. -/
theorem Inv.storePixels {fbmem oldmem : Nat} {widthAhead heightAhead : Bool}
    (h : Inv target mem fb t
      ⟨some fbmem, some fbmem, some oldmem, true, widthAhead, heightAhead⟩ other frees reader) :
    Inv target mem { fb with pixels := fbmem } t
      ⟨some oldmem, none, none, true, widthAhead, heightAhead⟩ other frees reader := by
  obtain ⟨rfl, rfl⟩ := h.mover.window oldmem rfl
  have hapart : fbmem ≠ fb.pixels := fun heq => h.mover.apart (congrArg some heq)
  constructor
  case mover =>
    constructor
    case apart => exact fun heq => hapart (Option.some.inj heq).symm
    case window => nofun
    case read => nofun
    case zeroed => nofun
    case width => exact h.mover.width
    case height => exact h.mover.height
    case pixels => exact fun _ => .inr ⟨_, (h.mover.zeroed fbmem rfl).2, List.length_replicate⟩
  case rest =>
    have hwindow : other.window = none := Option.eq_none_iff_forall_ne_some.mpr fun p hp =>
      t.some_ne (h.rest.window p hp).2
    exact .of_overtaken (h.distinct fbmem rfl) hwindow h.rest.zeroed
  case live =>
    intro p
    rw [h.live p]
    simp only [Option.some.injEq, eq_comm (a := p)]
    exact or_left_comm
  case distinct =>
    intro p hp
    cases hp
    exact h.rest.apart
  case untouched => nofun
  case once => exact h.once
  case freed => exact h.freed

/-- The call frees the old block and returns. -/
theorem Inv.free {oldmem : Nat}
    (h : Inv target mem fb t ⟨some oldmem, none, none, true, false, false⟩ other frees reader)
    {mem' : Memory} (hfresh : mem'.fresh = mem.fresh) (hself : mem'.block oldmem = none)
    (hold : ∀ q, q ≠ oldmem → mem'.block q = mem.block q) :
    Inv target mem' fb t ⟨none, none, none, false, false, false⟩ other (frees ++ [oldmem])
      reader := by
  have hpixels : fb.pixels ≠ oldmem := fun heq => h.mover.apart (congrArg some heq.symm)
  have hother : ∀ p, other.held = some p → p ≠ oldmem := fun p hp heq =>
    h.distinct oldmem rfl (heq ▸ hp)
  have hlive : (mem.block oldmem).isSome := (h.live _).mpr (.inr (.inl rfl))
  constructor
  case mover =>
    constructor
    case apart => nofun
    case window => nofun
    case read => nofun
    case zeroed => nofun
    case width => exact h.mover.width
    case height => exact h.mover.height
    case pixels =>
      rw [hold _ hpixels]
      exact h.mover.pixels
  case rest => exact h.rest.congr_mem (hold _ hpixels) fun p hp => hold p (hother p hp)
  case live =>
    intro p
    by_cases hp : p = oldmem
    · subst hp
      rw [hself]
      refine ⟨nofun, ?_⟩
      rintro (heq | heq | heq)
      · exact absurd heq.symm hpixels
      · cases heq
      · exact absurd rfl (hother _ heq)
    · rw [hold p hp, h.live p]
      simp [Ne.symm hp]
  case distinct => nofun
  case untouched => exact fun hr => absurd hr (h.mover.read rfl)
  case once =>
    refine List.nodup_append.mpr ⟨h.once, List.nodup_singleton _, fun p hp q hq heq => ?_⟩
    rw [heq, List.mem_singleton.mp hq] at hp
    rw [(h.freed _ hp).2] at hlive
    cases hlive
  case freed =>
    intro p hp
    rcases List.mem_append.mp hp with hold' | hnew
    · obtain ⟨hlt, hdead⟩ := h.freed p hold'
      refine ⟨by omega, ?_⟩
      by_cases heq : p = oldmem
      · rw [heq, hself]
      · rw [hold p heq, hdead]
    · obtain ⟨cells, hcells⟩ := Option.isSome_iff_exists.mp hlive
      rw [List.mem_singleton.mp hnew, hself, hfresh]
      exact ⟨Heap.block_lt hcells, rfl⟩

/-- The call stores the width, and does not spoil that of a later call. -/
theorem Inv.storeWidth {held newBlock window : Option Nat}
    (h : Inv target mem fb t ⟨held, newBlock, window, true, true, true⟩ other frees reader)
    (hok : reader = some t ∨ other.widthAhead = true ∨ fb.size.width = (target t).width) :
    Inv target mem { fb with size := { fb.size with width := (target t).width } } t
      ⟨held, newBlock, window, true, false, true⟩ other frees reader := by
  constructor
  case mover =>
    exact ⟨h.mover.apart, h.mover.window, h.mover.read, h.mover.zeroed, fun _ => .inr rfl,
      h.mover.height, h.mover.pixels⟩
  case rest =>
    refine ⟨h.rest.apart, h.rest.window, h.rest.read, h.rest.zeroed, fun hr => ?_,
      h.rest.height, h.rest.pixels⟩
    rcases hok with hmine | hahead | hsame
    · exact absurd (Option.some.inj (hr.symm.trans hmine)) t.other_ne
    · exact .inl hahead
    · rw [← hsame]
      exact h.rest.width hr
  case live => exact h.live
  case distinct => exact h.distinct
  case untouched => exact fun hr => absurd hr (h.mover.read rfl)
  case once => exact h.once
  case freed => exact h.freed

/-- The call stores the height. -/
theorem Inv.storeHeight {held newBlock window : Option Nat}
    (h : Inv target mem fb t ⟨held, newBlock, window, true, false, true⟩ other frees reader)
    (hok : reader = some t ∨ other.heightAhead = true ∨ fb.size.height = (target t).height) :
    Inv target mem { fb with size := { fb.size with height := (target t).height } } t
      ⟨held, newBlock, window, true, false, false⟩ other frees reader := by
  constructor
  case mover =>
    exact ⟨h.mover.apart, h.mover.window, h.mover.read, h.mover.zeroed, h.mover.width,
      fun _ => .inr rfl, h.mover.pixels⟩
  case rest =>
    refine ⟨h.rest.apart, h.rest.window, h.rest.read, h.rest.zeroed, h.rest.width, fun hr => ?_,
      h.rest.pixels⟩
    rcases hok with hmine | hahead | hsame
    · exact absurd (Option.some.inj (hr.symm.trans hmine)) t.other_ne
    · exact .inl hahead
    · rw [← hsame]
      exact h.rest.height hr
  case live => exact h.live
  case distinct => exact h.distinct
  case untouched => exact fun hr => absurd hr (h.mover.read rfl)
  case once => exact h.once
  case freed => exact h.freed

/-! ## Runs -/

/-- The invariant of a state, as the call `t` sees it. -/
abbrev State.Inv (target : Thread → Target) (s : State) (t : Thread) : Prop :=
  Race.Inv target s.mem s.fb t (s.pc t).stage (s.pc t.other).stage s.frees s.reader

theorem State.Inv.all {s : State} (h : s.Inv target t) (u : Thread) : s.Inv target u := by
  by_cases hu : u = t
  · exact hu ▸ h
  · obtain rfl : u = t.other := by
      revert hu
      cases t <;> cases u <;> decide
    have hsymm := h.symm
    rw [State.Inv, t.other_other]
    exact hsymm

theorem goto_pc_self (s : State) (t : Thread) (pc : Pc) : (goto s t pc).pc t = pc :=
  Function.update_self ..

theorem goto_pc_other (s : State) (t : Thread) (pc : Pc) :
    (goto s t pc).pc t.other = s.pc t.other :=
  Function.update_of_ne t.other_ne ..

/-- It is enough to look at the place that a call goes to. -/
theorem inv_goto {s : State} {pc : Pc}
    (h : Race.Inv target s.mem s.fb t pc.stage (s.pc t.other).stage s.frees s.reader) :
    (goto s t pc).Inv target t := by
  rw [State.Inv, goto_pc_self, goto_pc_other]
  exact h

/-- **Step lemma.** -/
theorem fbResizeStep_inv {s s' : State} (h : s.Inv target t) (hok : okStep target s t = true)
    (hstep : fbResizeStep s t (target t) = some s') : s'.Inv target t := by
  unfold fbResizeStep at hstep
  unfold okStep at hok
  unfold State.Inv at h
  cases hpc : s.pc t with
  | readWidth =>
    rw [hpc] at hstep h
    cases hstep
    exact inv_goto h
  | readHeight width =>
    rw [hpc] at hstep h
    cases hstep
    exact inv_goto h
  | malloc oldsize =>
    rw [hpc] at hstep h
    cases hmem : (target t).mem with
    | none =>
      simp only [hmem] at hstep
      cases hstep
      exact inv_goto h
    | some old =>
      obtain ⟨mem', hzeroed, hfresh, hnew, hold⟩ :=
        zeroedBlock_spec s.mem (target t).width (target t).height old
      simp only [hmem, hzeroed, Option.map_some, Option.some.injEq] at hstep
      subst hstep
      exact inv_goto (s := { s with mem := mem' }) (h.alloc hfresh hnew hold)
  | readPixels oldsize fbmem =>
    rw [hpc] at hstep h hok
    cases hstep
    have hread := h.readPixels (Option.isNone_iff_eq_none.mp hok)
    refine inv_goto (s := { s with reader := some t }) ?_
    split
    · exact hread
    · exact hread
  | shrinkWidth fbmem oldmem =>
    rw [hpc] at hstep h hok
    cases hstep
    exact inv_goto (s := storeWidth s (target t).width) (h.storeWidth (by simpa [or_assoc] using hok))
  | shrinkHeight fbmem oldmem =>
    rw [hpc] at hstep h hok
    cases hstep
    exact inv_goto (s := storeHeight s (target t).height)
      (h.storeHeight (by simpa [or_assoc] using hok))
  | shrinkPixels fbmem oldmem =>
    rw [hpc] at hstep h
    cases hstep
    exact inv_goto (s := storePixels s fbmem) h.storePixels
  | growPixels fbmem oldmem =>
    rw [hpc] at hstep h
    cases hstep
    exact inv_goto (s := storePixels s fbmem) h.storePixels
  | growWidth oldmem =>
    rw [hpc] at hstep h hok
    cases hstep
    exact inv_goto (s := storeWidth s (target t).width) (h.storeWidth (by simpa [or_assoc] using hok))
  | growHeight oldmem =>
    rw [hpc] at hstep h hok
    cases hstep
    exact inv_goto (s := storeHeight s (target t).height)
      (h.storeHeight (by simpa [or_assoc] using hok))
  | free oldmem =>
    rw [hpc] at hstep h
    cases hstep
    obtain ⟨cells, hcells⟩ := Option.isSome_iff_exists.mp ((h.live oldmem).mpr (.inr (.inl rfl)))
    obtain ⟨mem', hfree, hfresh, hself, hold⟩ := Heap.free_spec hcells
    rw [freeBlock, hfree, Option.getD_some]
    exact inv_goto (s := { s with mem := mem', frees := s.frees ++ [oldmem] })
      (h.free hfresh hself hold)
  | returned err =>
    rw [hpc] at hstep
    cases hstep

theorem Pc.stage_returned {pc : Pc} (h : pc.isReturned = true) :
    pc.stage = ⟨none, none, none, false, false, false⟩ := by
  cases pc with
  | returned err => rfl
  | _ => cases h

/-- What the invariant gives for the two calls. -/
theorem State.Inv.intact {s : State}
    (hsmall : ∀ u, (target u).width.toNat * (target u).height.toNat < 2 ^ 32)
    (h : s.Inv target t) : Intact s := by
  have hlive : (s.mem.block s.fb.pixels).isSome := (h.live _).mpr (.inl rfl)
  constructor
  case once => exact h.once
  case current =>
    intro hfreed
    rw [(h.freed _ hfreed).2] at hlive
    cases hlive
  case live => exact hlive
  case final =>
    intro hreturned
    refine ⟨fun p hp => ?_, ?_⟩
    · simpa [Pc.stage_returned (hreturned _)] using (h.live p).mp hp
    · cases hreader : s.reader with
      | none => exact h.untouched hreader
      | some u =>
        -- the call that has read last has stored all
        have hu := (h.all u).mover
        rw [Pc.stage_returned (hreturned u)] at hu
        have hwidth : s.fb.size.width = (target u).width := by simpa using hu.width hreader
        have hheight : s.fb.size.height = (target u).height := by simpa using hu.height hreader
        obtain ⟨cells, hblock, hlength⟩ := (hu.pixels hreader).resolve_left nofun
        refine ⟨cells, hblock, ?_⟩
        rw [hlength, cellCount_eq (hsmall u), hwidth, hheight]

/-- Before the two calls. -/
theorem inv_init {cells : List UInt32} (hbacked : Backed mem fb cells)
    (honly : ∀ p, (mem.block p).isSome → p = fb.pixels) (t : Thread) :
    (resizes target mem fb).init.Inv target t := by
  have hcall : ∀ u, CallInv target mem fb none u ⟨none, none, none, false, false, false⟩ :=
    fun _ => ⟨nofun, nofun, nofun, nofun, nofun, nofun, nofun⟩
  constructor
  case mover => exact hcall t
  case rest => exact hcall t.other
  case live =>
    intro p
    refine ⟨fun hp => .inl (honly p hp), ?_⟩
    rintro (rfl | hp | hp)
    · exact Option.isSome_iff_exists.mpr ⟨cells, hbacked.block⟩
    · cases hp
    · cases hp
  case distinct => nofun
  case untouched => exact fun _ => ⟨cells, hbacked⟩
  case once => exact List.nodup_nil
  case freed => nofun

/-- **Two calls leave the framebuffer intact**, in every run in which neither
reads `fb->pixels` before the other, which has read it, has stored it, and
neither overwrites a size of a later call. -/
theorem intact_of_ok {cells : List UInt32} (hbacked : Backed mem fb cells)
    (honly : ∀ p, (mem.block p).isSome → p = fb.pixels)
    (hsmall : ∀ t, (target t).width.toNat * (target t).height.toNat < 2 ^ 32) {s : State}
    (hs : (resizes target mem fb).ReachableBy (fun s t => okStep target s t = true) s) :
    Intact s := by
  have hinv : s.Inv target .main := by
    refine hs.invariant (P := fun s => s.Inv target .main) (inv_init hbacked honly .main) ?_
    intro s t s' _ h hok hstep
    exact (fbResizeStep_inv (h.all t) hok hstep).all .main
  exact hinv.intact hsmall

/-- A framebuffer of one pixel. -/
def onePixel : Fb := ⟨⟨1, 1⟩, 0, 0, 0, 0⟩

/-- Both calls are for two pixels. -/
def twoPixels : Thread → Target := fun _ => ⟨2, 1, some fun _ => 0⟩

/-- The worker resizes while the main thread is at its `malloc`. -/
theorem intact_of_ok_in_turn :
    ∃ s : State, s.frees = [0, 1] ∧ s.fb.pixels = 2 ∧ Intact s := by
  have hbacked : Backed ⟨[some [7]]⟩ onePixel [7] := ⟨rfl, rfl⟩
  have honly : ∀ p, (Heap.block ⟨[some [(7 : UInt32)]]⟩ p).isSome → p = onePixel.pixels := by
    intro p hp
    match p with
    | 0 => rfl
    | p + 1 => cases hp
  have hsmall : ∀ t, (twoPixels t).width.toNat * (twoPixels t).height.toNat < 2 ^ 32 := by
    intro t
    show 2 * 1 < _
    omega
  refine ⟨_, ?_, ?_, intact_of_ok hbacked honly hsmall (System.reachableBy_of_run
    ([.main, .main] ++ List.replicate 8 .worker ++ List.replicate 6 .main) rfl)⟩
  · rfl
  · rfl

/-- Both calls read `fb->pixels` before one of them stores it. -/
theorem double_free :
    ∃ s : State, (resizes twoPixels ⟨[some [7]]⟩ onePixel).Reachable s ∧ s.frees = [0, 0] ∧
      ¬Intact s := by
  refine ⟨_, System.reachable_of_run (List.replicate 4 .main ++ List.replicate 8 .worker ++
    List.replicate 4 .main) rfl, rfl, fun h => ?_⟩
  exact absurd h.once (by decide)

/-! ## Overlapping calls do free a block twice -/

/-- A call frees the block whose address it has read, whatever became of it. -/
theorem run_frees_window (target : Thread → Target) (mem : Memory) (fb : Fb) {s : State}
    {oldmem : Nat} (h : (s.pc t).stage.window = some oldmem) :
    ∃ n, ((resizes target mem fb).run s (List.replicate n t)).map
      (fun s' => (s'.frees, s'.pc t.other)) = some (s.frees ++ [oldmem], s.pc t.other) := by
  have hother := t.other_ne
  cases hpc : s.pc t with
  | shrinkWidth fbmem oldmem' =>
    obtain rfl : oldmem' = oldmem := by simpa [hpc, Pc.stage] using h
    refine ⟨4, ?_⟩
    simp [List.replicate, System.run, resizes, fbResizeStep, goto, storeWidth, storeHeight,
      storePixels, freeBlock, hpc, hother]
  | shrinkHeight fbmem oldmem' =>
    obtain rfl : oldmem' = oldmem := by simpa [hpc, Pc.stage] using h
    refine ⟨3, ?_⟩
    simp [List.replicate, System.run, resizes, fbResizeStep, goto, storeHeight, storePixels,
      freeBlock, hpc, hother]
  | shrinkPixels fbmem oldmem' =>
    obtain rfl : oldmem' = oldmem := by simpa [hpc, Pc.stage] using h
    refine ⟨2, ?_⟩
    simp [List.replicate, System.run, resizes, fbResizeStep, goto, storePixels, freeBlock, hpc,
      hother]
  | growPixels fbmem oldmem' =>
    obtain rfl : oldmem' = oldmem := by simpa [hpc, Pc.stage] using h
    refine ⟨4, ?_⟩
    simp [List.replicate, System.run, resizes, fbResizeStep, goto, storeWidth, storeHeight,
      storePixels, freeBlock, hpc, hother]
  | _ => simp [hpc, Pc.stage] at h

/-- **Two calls that have read the same `fb->pixels` both free it.** -/
theorem run_double_free (target : Thread → Target) (mem : Memory) (fb : Fb) {s : State}
    {oldmem : Nat} (h : (s.pc t).stage.window = some oldmem)
    (hother : (s.pc t.other).stage.window = some oldmem) :
    ∃ as s', (resizes target mem fb).run s as = some s' ∧ ¬Intact s' := by
  obtain ⟨n, hn⟩ := run_frees_window target mem fb h
  obtain ⟨s₁, hrun₁, heq₁⟩ := Option.map_eq_some_iff.mp hn
  obtain ⟨hfrees₁, hpc₁⟩ := Prod.mk.inj heq₁
  rw [← hpc₁] at hother
  obtain ⟨m, hm⟩ := run_frees_window target mem fb hother
  obtain ⟨s₂, hrun₂, heq₂⟩ := Option.map_eq_some_iff.mp hm
  obtain ⟨hfrees₂, -⟩ := Prod.mk.inj heq₂
  refine ⟨List.replicate n t ++ List.replicate m t.other, s₂, ?_, fun hintact => ?_⟩
  · rw [System.run_append, hrun₁, Option.bind_some, hrun₂]
  · have honce := hintact.once
    rw [hfrees₂, hfrees₁] at honce
    simp [List.nodup_append] at honce

end Pixelflut.Framebuffer.Race
