import Pixelflut.Lib.BlockHeap
import Pixelflut.Lib.PointerChain

/-!
# Walks that free what they stand on

`llist_for_each` reads `cursor->next` behind its body, and the entry is part of
the object that the body frees. An object is a block of one cell; the address of
an entry stands for that of the object around it (`container_of`). `prev` and
`list`, which no walk reads, are left out.

An access to an object that is freed ends the run with a `Fault`. `trace` is no
variable of the program: it records what was called and freed.

* `llistForEach_faults`: a walk whose body frees the cursor comes no further than
  its first object;
* `failFronts_cons`, `fbFreeAll_cons`: what is freed up to there, which for
  `fb_free_all` is no pixel buffer;
* `freeWalks_iff`: a list comes down as it should exactly when it is empty.
-/

namespace Pixelflut.FreeWalk

open Lib.BlockHeap Lib.PointerChain

abbrev Ptr := Nat

/-- What a library has given to a frontend. -/
abbrev Handle := Nat

/-! ## Objects -/

/-- The frontends by their `def`. -/
inductive Def where
  | sdl
  | vnc
  deriving DecidableEq

/-- A `struct frontend`; `next` is that of its list entry. -/
structure Frontend where
  definition : Def
  next : Option Ptr

inductive Object where
  /-- A `struct sdl`. -/
  | sdl (texture renderer window : Handle) (front : Frontend)
  /-- A `struct vnc`. -/
  | vnc (server : Handle) (front : Frontend)
  /-- A `struct fb`. -/
  | fb (pixels : Ptr) (next : Option Ptr)
  /-- The block that `fb->pixels` points to. -/
  | pixels (cells : List UInt32)

def Object.front : Object → Option Frontend
  | .sdl _ _ _ front | .vnc _ front => some front
  | _ => none

/-- `sdl->texture`, `sdl->renderer` and `sdl->window`. -/
def Object.sdlHandles : Object → Option (Handle × Handle × Handle)
  | .sdl texture renderer window _ => some (texture, renderer, window)
  | _ => none

/-- `vnc->server`. -/
def Object.server : Object → Option Handle
  | .vnc server _ => some server
  | _ => none

/-- The link of the embedded list entry. -/
def Object.next : Object → Option (Option Ptr)
  | .sdl _ _ _ front | .vnc _ front => some front.next
  | .fb _ next => some next
  | .pixels _ => none

inductive Event where
  /-- A call of `ops->free`. -/
  | freeOp (front : Ptr)
  | destroyTexture (texture : Handle)
  | destroyRenderer (renderer : Handle)
  | destroyWindow (window : Handle)
  | sdlQuit
  | shutdownServer (server : Handle)
  | screenCleanup (server : Handle)
  | free (p : Ptr)
  deriving DecidableEq

structure State where
  heap : Heap Object
  trace : List Event

/-- The access to `addr` in `state` was one to no live object of the kind expected. -/
structure Fault where
  addr : Ptr
  state : State

abbrev Outcome := Except Fault State

def State.record (s : State) (es : List Event) : State := { s with trace := s.trace ++ es }

/-- What `get` reads from the object at `p`. -/
def State.read {α : Type} (s : State) (p : Ptr) (get : Object → Option α) : Except Fault α :=
  match (s.heap.load p 0).bind get with
  | some a => .ok a
  | none => .error ⟨p, s⟩

/-- `free(p)`. -/
def State.free (s : State) (p : Ptr) : Outcome :=
  match s.heap.free p with
  | some heap => .ok ⟨heap, s.trace ++ [.free p]⟩
  | none => .error ⟨p, s⟩

/-! ## The free functions -/

def sdlFree (s : State) (front : Ptr) : Outcome := do
  let (texture, renderer, window) ← s.read front Object.sdlHandles
  (s.record [.destroyTexture texture, .destroyRenderer renderer, .destroyWindow window,
    .sdlQuit]).free front

def vncFree (s : State) (front : Ptr) : Outcome := do
  let server ← s.read front Object.server
  (s.record [.shutdownServer server, .screenCleanup server]).free front

/-- `frontend_free`. -/
def frontendFree (s : State) (front : Ptr) : Outcome := do
  let self ← s.read front Object.front
  match self.definition with
  | .sdl => sdlFree (s.record [.freeOp front]) front
  | .vnc => vncFree (s.record [.freeOp front]) front

/-! ## The walks -/

/-- `llist_for_each`; the outer `none` means that the fuel ran out. -/
def llistForEach (body : Ptr → State → Outcome) : Nat → Option Ptr → State → Option Outcome
  | _, none, s => some (.ok s)
  | 0, some _, _ => none
  | fuel + 1, some cursor, s =>
    match body cursor s with
    | .error fault => some (.error fault)
    | .ok s =>
      match s.read cursor Object.next with
      | .error fault => some (.error fault)
      | .ok next => llistForEach body fuel next s

/-- The loop at `fail_fronts`; its message reads `front->def` before the free. -/
def failFronts (fuel : Nat) (head : Option Ptr) (s : State) : Option Outcome :=
  llistForEach (fun cursor s => do
    let _ ← s.read cursor Object.front
    frontendFree s cursor) fuel head s

/-- `fb_free_all`. -/
def fbFreeAll (fuel : Nat) (head : Option Ptr) (s : State) : Option Outcome :=
  llistForEach (fun cursor s => s.free cursor) fuel head s

/-! ## Lists -/

def nextIn (h : Heap Object) (p : Ptr) : Option Ptr := ((h.load p 0).bind Object.next).join

/-- A frontend is at `p`, with the `def` of its kind. -/
def LiveFront (h : Heap Object) (p : Ptr) : Prop :=
  (∃ texture renderer window next,
    h.load p 0 = some (.sdl texture renderer window ⟨.sdl, next⟩)) ∨
  ∃ server next, h.load p 0 = some (.vnc server ⟨.vnc, next⟩)

theorem LiveFront.load {h : Heap Object} {p : Ptr} (hp : LiveFront h p) :
    ∃ o front, h.load p 0 = some o ∧ o.front = some front := by
  rcases hp with ⟨texture, renderer, window, next, hload⟩ | ⟨server, next, hload⟩
  · exact ⟨_, _, hload, rfl⟩
  · exact ⟨_, _, hload, rfl⟩

/-- The objects at `l` are frontends, linked in this order. -/
structure Fronts (h : Heap Object) (head : Option Ptr) (l : List Ptr) : Prop where
  chain : Chain (nextIn h) head l
  live : ∀ p ∈ l, LiveFront h p

/-- The objects at `l` are framebuffers, linked in this order, and those at `pixels`
are their pixel buffers. -/
structure Fbs (h : Heap Object) (head : Option Ptr) (l pixels : List Ptr) : Prop where
  chain : Chain (nextIn h) head l
  live : List.Forall₂ (fun p q => ∃ next cells, h.load p 0 = some (.fb q next) ∧
    h.load q 0 = some (.pixels cells)) l pixels

/-- The frontends whose free operation was called, in this order. -/
def freedFronts (trace : List Event) : List Ptr :=
  trace.filterMap fun
    | .freeOp front => some front
    | _ => none

/-- The walk comes to its end, and has called the free operation of each frontend,
in order. -/
def FrontsFreed (l : List Ptr) (r : Option Outcome) : Prop :=
  ∃ s, r = some (.ok s) ∧ freedFronts s.trace = l

/-- The walk comes to its end, and has freed each framebuffer and each pixel
buffer once. -/
def FbsFreed (l pixels : List Ptr) (r : Option Outcome) : Prop :=
  ∃ s, r = some (.ok s) ∧ ∀ p ∈ l ++ pixels, s.trace.count (.free p) = 1

/-! ## The first object -/

theorem read_of_load {α : Type} {s : State} {p : Ptr} {o : Object} {a : α} (get : Object → Option α)
    (hload : s.heap.load p 0 = some o) (hget : get o = some a) : s.read p get = .ok a := by
  simp only [State.read, hload, Option.bind_some, hget]

theorem read_of_dead {α : Type} {s : State} {p : Ptr} (get : Object → Option α)
    (hdead : s.heap.block p = none) : s.read p get = .error ⟨p, s⟩ := by
  simp only [State.read, Heap.load_of_dead hdead, Option.bind_none]

/-- What a successful free does to the object at `p`, and to the calls made so far. -/
structure Gone (s : State) (p : Ptr) (s' : State) : Prop where
  dead : s'.heap.block p = none
  fronts : freedFronts s'.trace = freedFronts s.trace

theorem free_of_load {s : State} {p : Ptr} {o : Object} (hload : s.heap.load p 0 = some o) :
    ∃ s', s.free p = .ok s' ∧ s'.trace = s.trace ++ [.free p] ∧ Gone s p s' := by
  obtain ⟨b, hb, -⟩ := Option.bind_eq_some_iff.mp hload
  obtain ⟨heap, hfree, -, hself, -⟩ := Heap.free_spec hb
  refine ⟨⟨heap, s.trace ++ [.free p]⟩, by simp only [State.free, hfree], rfl, hself, ?_⟩
  simp [freedFronts]

/-- **A walk whose body frees the cursor faults** when it advances. -/
theorem llistForEach_faults {body : Ptr → State → Outcome} {p : Ptr} {s s' : State} (fuel : Nat)
    (hbody : body p s = .ok s') (hdead : s'.heap.block p = none) :
    llistForEach body (fuel + 1) (some p) s = some (.error ⟨p, s'⟩) := by
  simp only [llistForEach, hbody, read_of_dead _ hdead]

/-- A walk that faults in its first round does not come to its end. -/
theorem llistForEach_ne_ok {body : Ptr → State → Outcome} {head : Option Ptr} {p : Ptr}
    {s s' : State} (hhead : head = some p)
    (hfault : ∀ fuel, ∃ fault, llistForEach body (fuel + 1) head s = some (.error fault))
    (fuel : Nat) : llistForEach body fuel head s ≠ some (.ok s') := by
  intro hrun
  cases fuel with
  | zero =>
    rw [hhead] at hrun
    cases hrun
  | succ fuel =>
    obtain ⟨fault, h⟩ := hfault fuel
    rw [h] at hrun
    cases hrun

theorem sdlFree_spec {s : State} {p : Ptr} {texture renderer window : Handle} {front : Frontend}
    (hload : s.heap.load p 0 = some (.sdl texture renderer window front)) :
    ∃ s', sdlFree s p = .ok s' ∧ Gone s p s' := by
  obtain ⟨s', hfree, -, hgone⟩ := free_of_load (s := s.record [.destroyTexture texture,
    .destroyRenderer renderer, .destroyWindow window, .sdlQuit]) hload
  refine ⟨s', ?_, hgone.dead, ?_⟩
  · rw [sdlFree, read_of_load Object.sdlHandles hload rfl]
    exact hfree
  · rw [hgone.fronts]
    simp [freedFronts, State.record]

theorem vncFree_spec {s : State} {p : Ptr} {server : Handle} {front : Frontend}
    (hload : s.heap.load p 0 = some (.vnc server front)) :
    ∃ s', vncFree s p = .ok s' ∧ Gone s p s' := by
  obtain ⟨s', hfree, -, hgone⟩ :=
    free_of_load (s := s.record [.shutdownServer server, .screenCleanup server]) hload
  refine ⟨s', ?_, hgone.dead, ?_⟩
  · rw [vncFree, read_of_load Object.server hload rfl]
    exact hfree
  · rw [hgone.fronts]
    simp [freedFronts, State.record]

theorem frontendFree_spec {s : State} {p : Ptr} (h : LiveFront s.heap p) :
    ∃ s', frontendFree s p = .ok s' ∧ s'.heap.block p = none ∧
      freedFronts s'.trace = freedFronts s.trace ++ [p] := by
  have hcall : freedFronts (s.record [.freeOp p]).trace = freedFronts s.trace ++ [p] := by
    simp [freedFronts, State.record]
  rcases h with ⟨texture, renderer, window, next, hload⟩ | ⟨server, next, hload⟩
  · obtain ⟨s', hfree, hgone⟩ := sdlFree_spec (s := s.record [.freeOp p]) hload
    refine ⟨s', ?_, hgone.dead, hgone.fronts.trans hcall⟩
    rw [frontendFree, read_of_load Object.front hload rfl]
    exact hfree
  · obtain ⟨s', hfree, hgone⟩ := vncFree_spec (s := s.record [.freeOp p]) hload
    refine ⟨s', ?_, hgone.dead, hgone.fronts.trans hcall⟩
    rw [frontendFree, read_of_load Object.front hload rfl]
    exact hfree

/-- The free operation of the first frontend is called, and then its link is read. -/
theorem failFronts_cons {h : Heap Object} {head : Option Ptr} {p : Ptr} {l : List Ptr} (fuel : Nat)
    (trace : List Event) (hl : Fronts h head (p :: l)) :
    ∃ s, failFronts (fuel + 1) head ⟨h, trace⟩ = some (.error ⟨p, s⟩) ∧
      freedFronts s.trace = freedFronts trace ++ [p] := by
  have hlive := hl.live p (.head _)
  obtain ⟨s, hfree, hdead, htrace⟩ := frontendFree_spec (s := ⟨h, trace⟩) hlive
  refine ⟨s, ?_, htrace⟩
  rw [hl.chain.1, failFronts]
  refine llistForEach_faults fuel ?_ hdead
  obtain ⟨o, front, hload, hfront⟩ := hlive.load
  rw [read_of_load (s := ⟨h, trace⟩) Object.front hload hfront]
  exact hfree

/-- The first framebuffer is freed, its pixel buffer is not, and then its link is read. -/
theorem fbFreeAll_cons {h : Heap Object} {head : Option Ptr} {p q : Ptr} {l pixels : List Ptr}
    (fuel : Nat) (trace : List Event) (hl : Fbs h head (p :: l) (q :: pixels)) :
    ∃ s, fbFreeAll (fuel + 1) head ⟨h, trace⟩ = some (.error ⟨p, s⟩) ∧
      s.trace = trace ++ [.free p] := by
  obtain ⟨⟨next, cells, hload, -⟩, -⟩ := List.forall₂_cons.mp hl.live
  obtain ⟨s, hfree, htrace, hgone⟩ := free_of_load (s := ⟨h, trace⟩) hload
  refine ⟨s, ?_, htrace⟩
  rw [hl.chain.1, fbFreeAll]
  exact llistForEach_faults fuel hfree hgone.dead

/-! ## Whole lists -/

theorem frontsFreed_iff {h : Heap Object} {head : Option Ptr} {l : List Ptr} (fuel : Nat)
    (hl : Fronts h head l) : FrontsFreed l (failFronts fuel head ⟨h, []⟩) ↔ l = [] := by
  cases l with
  | nil =>
    have hhead : head = none := hl.chain
    subst hhead
    refine iff_of_true ⟨⟨h, []⟩, ?_, rfl⟩ rfl
    cases fuel <;> rfl
  | cons p l =>
    refine iff_of_false ?_ (List.cons_ne_nil p l)
    rintro ⟨s, hrun, -⟩
    refine llistForEach_ne_ok hl.chain.1 (fun fuel => ?_) fuel hrun
    obtain ⟨s', hfault, -⟩ := failFronts_cons fuel [] hl
    exact ⟨_, hfault⟩

theorem fbsFreed_iff {h : Heap Object} {head : Option Ptr} {l pixels : List Ptr} (fuel : Nat)
    (hl : Fbs h head l pixels) : FbsFreed l pixels (fbFreeAll fuel head ⟨h, []⟩) ↔ l = [] := by
  cases l with
  | nil =>
    have hhead : head = none := hl.chain
    obtain rfl : pixels = [] := List.forall₂_nil_left_iff.mp hl.live
    subst hhead
    refine iff_of_true ⟨⟨h, []⟩, ?_, fun p hp => absurd hp List.not_mem_nil⟩ rfl
    cases fuel <;> rfl
  | cons p l =>
    refine iff_of_false ?_ (List.cons_ne_nil p l)
    rintro ⟨s, hrun, -⟩
    obtain ⟨q, pixels', -, -, rfl⟩ := List.forall₂_cons_left_iff.mp hl.live
    refine llistForEach_ne_ok hl.chain.1 (fun fuel => ?_) fuel hrun
    obtain ⟨s', hfault, -⟩ := fbFreeAll_cons fuel [] hl
    exact ⟨_, hfault⟩

/-- **The lists come down as they should exactly when they are empty.** -/
theorem freeWalks_iff (h : Heap Object) (head : Option Ptr) (l pixels : List Ptr) (fuel : Nat) :
    (Fronts h head l → (FrontsFreed l (failFronts fuel head ⟨h, []⟩) ↔ l = [])) ∧
      (Fbs h head l pixels → (FbsFreed l pixels (fbFreeAll fuel head ⟨h, []⟩) ↔ l = [])) :=
  ⟨frontsFreed_iff fuel, fbsFreed_iff fuel⟩

/-- A VNC frontend in front of an SDL frontend. -/
def twoFronts : Heap Object := ⟨[some [.sdl 7 8 9 ⟨.sdl, none⟩], some [.vnc 6 ⟨.vnc, some 0⟩]]⟩

/-- A framebuffer of one pixel. -/
def oneFb : Heap Object := ⟨[some [.pixels [0]], some [.fb 0 none]]⟩

theorem twoFronts_wellFormed : Fronts twoFronts (some 1) [1, 0] := by
  refine ⟨⟨rfl, rfl, rfl⟩, fun p hp => ?_⟩
  rcases List.mem_pair.mp hp with rfl | rfl
  · exact .inr ⟨6, some 0, rfl⟩
  · exact .inl ⟨7, 8, 9, none, rfl⟩

theorem oneFb_wellFormed : Fbs oneFb (some 1) [1] [0] :=
  ⟨⟨rfl, rfl⟩, .cons ⟨none, [0], rfl, rfl⟩ .nil⟩

theorem freeWalks_iff_examples :
    FrontsFreed [] (failFronts 0 none ⟨twoFronts, []⟩) ∧
      ¬FrontsFreed [1, 0] (failFronts 2 (some 1) ⟨twoFronts, []⟩) ∧
      ¬FbsFreed [1] [0] (fbFreeAll 1 (some 1) ⟨oneFb, []⟩) := by
  have hnone : Fronts twoFronts none [] := ⟨rfl, fun p hp => absurd hp List.not_mem_nil⟩
  refine ⟨((freeWalks_iff twoFronts none [] [] 0).1 hnone).mpr rfl, fun h => ?_, fun h => ?_⟩
  · cases ((freeWalks_iff twoFronts (some 1) [1, 0] [] 2).1 twoFronts_wellFormed).mp h
  · cases ((freeWalks_iff oneFb (some 1) [1] [0] 1).2 oneFb_wellFormed).mp h

/-- The second frontend is not even reached, and the link of the first is read
behind its free. -/
theorem use_after_free_of_two_fronts :
    ∃ s, failFronts 2 (some 1) ⟨twoFronts, []⟩ = some (.error ⟨1, s⟩) ∧ freedFronts s.trace = [1] ∧
      ¬∀ (h : Heap Object) (head : Option Ptr) (l : List Ptr), Fronts h head l →
        ∃ fuel, FrontsFreed l (failFronts fuel head ⟨h, []⟩) := by
  obtain ⟨s, hfault, htrace⟩ := failFronts_cons 1 [] twoFronts_wellFormed
  refine ⟨s, hfault, htrace, fun hclaim => ?_⟩
  obtain ⟨fuel, hfreed⟩ := hclaim _ _ _ twoFronts_wellFormed
  cases (frontsFreed_iff fuel twoFronts_wellFormed).mp hfreed

end Pixelflut.FreeWalk
