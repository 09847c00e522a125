import Pixelflut.Lib.Transition
import Pixelflut.Sdl.Basic

/-!
# The frontends of one framebuffer

`vnc_alloc` copies the pixel pointer and the size of the framebuffer into its
RFB server. `fb_resize`, called by an SDL frontend on the same list, gives the
framebuffer a new block and frees the one that the server serves.

* `frontends`: the system of all `vnc_alloc`, `sdl_alloc` and `sdl_update` on
  one framebuffer;
* `sdlUpdate_moves`: a call of `sdl_update` moves the pixels exactly when a
  resize in it succeeds;
* `attached_iff`: every server is attached to the current framebuffer exactly
  when no resize has succeeded with a VNC frontend on the list;
* `markedRect_inside`: what an attached server is told to mark lies on its
  screen.
-/

namespace Pixelflut.Vnc

open Lib.BlockHeap Lib.Transition Framebuffer Sdl

/-! ## Frontends -/

/-- What `vnc_alloc` puts into the `rfbScreenInfo`. -/
structure RfbScreen where
  size : FbSize
  frameBuffer : Nat
  deriving DecidableEq

inductive Frontend where
  | sdl (texture : FbSize)
  | vnc (server : RfbScreen)
  deriving DecidableEq

/-- `vnc_alloc`, with the answers of `calloc` and `rfbGetScreen`. -/
def vncAlloc (fb : Fb) (callocOk screenOk : Bool) : Except Int RfbScreen :=
  if !callocOk then .error (-ENOMEM)
  else if !screenOk then .error (-ENOMEM)
  else .ok ⟨fb.size, fb.pixels⟩

/-- The rectangle `(x1, y1, x2, y2)` that `vnc_update` marks as modified. -/
def markedRect (fb : Fb) : Nat × Nat × Nat × Nat :=
  (0, 0, fb.size.width.toNat, fb.size.height.toNat)

structure State where
  mem : Memory
  fb : Fb
  frontends : List Frontend

inductive Action where
  | vncAlloc (callocOk screenOk : Bool)
  | sdlAlloc (answers : AllocAnswers)
  /-- `sdl_update` of the frontend `i`. -/
  | sdlUpdate (i : Nat) (events : List SdlEvent)

/-- A frontend that could be allocated is appended to the list. -/
def register (s : State) {α : Type} (result : Except Int α) (frontend : α → Frontend) : State :=
  match result with
  | .ok a => { s with frontends := s.frontends ++ [frontend a] }
  | .error _ => s

def step (s : State) : Action → Option State
  | .vncAlloc callocOk screenOk => some (register s (vncAlloc s.fb callocOk screenOk) .vnc)
  | .sdlAlloc answers => some (register s (sdlAlloc s.fb answers) .sdl)
  | .sdlUpdate i events =>
    match s.frontends[i]? with
    | some (.sdl texture) =>
      (sdlUpdate none ⟨⟨s.mem, s.fb, texture⟩, []⟩ events).map fun r =>
        ⟨r.1.view.mem, r.1.view.fb, s.frontends.set i (.sdl r.1.view.texture)⟩
    | _ => none

/-- The frontends of the framebuffer `fb`. -/
def frontends (mem : Memory) (fb : Fb) : System State Action where
  init := ⟨mem, fb, []⟩
  step := step

/-! ## Being attached -/

/-- Every RFB server serves the pixels of the framebuffer, in its size. -/
def Attached (s : State) : Prop :=
  ∀ server, .vnc server ∈ s.frontends →
    server.frameBuffer = s.fb.pixels ∧ server.size = s.fb.size

/-- One of the resizes in front of a quit succeeds. -/
def resizes : List SdlEvent → Bool
  | [] => false
  | .resized _ _ textureOk mem :: events => textureOk && mem.isSome || resizes events
  | .quit :: _ => false
  | .other :: events => resizes events

def Frontend.isVnc : Frontend → Bool
  | .vnc _ => true
  | .sdl _ => false

/-- The step is not an `sdl_update` that resizes with a VNC frontend on the list. -/
def okResize (s : State) : Action → Bool
  | .sdlUpdate _ events => !(s.frontends.any Frontend.isVnc && resizes events)
  | _ => true

/-- The rectangle lies on the screen of an attached server. -/
theorem markedRect_inside {s : State} (h : Attached s) {server : RfbScreen}
    (hserver : .vnc server ∈ s.frontends) :
    (markedRect s.fb).2.2.1 ≤ server.size.width.toNat ∧
      (markedRect s.fb).2.2.2 ≤ server.size.height.toNat := by
  rw [(h server hserver).2]
  exact ⟨Nat.le_refl _, Nat.le_refl _⟩

/-! ## What a call moves -/

/-- Between `v` and `v'` the pixels have got a new address if `moved` holds, and
else nothing has happened to the framebuffer. -/
structure Moves (v v' : View) (moved : Bool) : Prop where
  live : (v'.mem.block v'.fb.pixels).isSome
  fresh : v.mem.fresh ≤ v'.mem.fresh
  pixels : moved = true → v.mem.fresh ≤ v'.fb.pixels
  kept : moved = false → v'.fb = v.fb

theorem Moves.trans {v v' v'' : View} {m m' : Bool} (h : Moves v v' m) (h' : Moves v' v'' m') :
    Moves v v'' (m || m') where
  live := h'.live
  fresh := Nat.le_trans h.fresh h'.fresh
  pixels hm := by
    cases hm' : m' with
    | true => exact Nat.le_trans h.fresh (h'.pixels hm')
    | false =>
      rw [hm', Bool.or_false] at hm
      rw [h'.kept hm']
      exact h.pixels hm
  kept hm := by
    rw [Bool.or_eq_false_iff] at hm
    rw [h'.kept hm.2, h.kept hm.1]

theorem resizeTo_moves {v v' : View} (hlive : (v.mem.block v.fb.pixels).isSome)
    {width height : UInt32} {textureOk : Bool} {mem : Malloc}
    (hresize : resizeTo v width height textureOk mem = some v') :
    Moves v v' (textureOk && mem.isSome) := by
  obtain ⟨cells, hcells⟩ := Option.isSome_iff_exists.mp hlive
  obtain ⟨v₁, hresize', hcase⟩ := resizeTo_cases hcells width height textureOk mem
  obtain rfl : v' = v₁ := Option.some.inj (hresize.symm.trans hresize')
  rcases hcase with ⟨rfl, rfl⟩ | ⟨rfl, rfl, rfl⟩ | ⟨rfl, hmem, -, hfb, hfresh, hblock⟩
  · exact ⟨hlive, Nat.le_refl _, nofun, fun _ => rfl⟩
  · exact ⟨hlive, Nat.le_refl _, nofun, fun _ => rfl⟩
  · refine ⟨?_, by omega, fun _ => ?_, fun hm => ?_⟩
    · rw [hfb]
      exact Option.isSome_iff_exists.mpr ⟨_, hblock⟩
    · rw [hfb]
    · simp [hmem] at hm

theorem pollEvents_moves (events : List SdlEvent) {s s' : Sdl.State} {ret : Option Int}
    (hlive : (s.view.mem.block s.view.fb.pixels).isSome)
    (hpoll : pollEvents none s events = some (s', ret)) : Moves s.view s'.view (resizes events) := by
  induction events generalizing s with
  | nil =>
    cases hpoll
    exact ⟨hlive, Nat.le_refl _, nofun, fun _ => rfl⟩
  | cons event events ih =>
    obtain ⟨⟨s₁, ret₁⟩, hevent, hrest⟩ := Option.bind_eq_some_iff.mp hpoll
    cases event with
    | quit =>
      cases hevent
      cases hrest
      exact ⟨hlive, Nat.le_refl _, nofun, fun _ => rfl⟩
    | other =>
      cases hevent
      exact ih hlive hrest
    | resized width height textureOk mem =>
      obtain ⟨rfl, v, hresize, rfl⟩ := handleEvent_resized_some hevent
      have hmoves := resizeTo_moves hlive hresize
      exact hmoves.trans (ih hmoves.live hrest)

/-- **A call of `sdl_update` moves the pixels exactly when a resize succeeds.** -/
theorem sdlUpdate_moves {s s' : Sdl.State} {events : List SdlEvent} {err : Int}
    (hlive : (s.view.mem.block s.view.fb.pixels).isSome)
    (hupdate : sdlUpdate none s events = some (s', err)) :
    Moves s.view s'.view (resizes events) := by
  obtain ⟨⟨s₁, ret⟩, hpoll, hret⟩ := Option.bind_eq_some_iff.mp hupdate
  have hmoves := pollEvents_moves events hlive hpoll
  cases ret <;> cases hret <;> exact hmoves

/-! ## Runs -/

/-- The pixel block is live, and what a server serves has been allocated. -/
structure Sound (s : State) : Prop where
  live : (s.mem.block s.fb.pixels).isSome
  copied : ∀ server, .vnc server ∈ s.frontends → server.frameBuffer < s.mem.fresh

theorem mem_register {α : Type} {s : State} {result : Except Int α} {frontend : α → Frontend}
    {f : Frontend} : f ∈ (register s result frontend).frontends ↔
      f ∈ s.frontends ∨ ∃ a, result = .ok a ∧ f = frontend a := by
  cases result <;> simp [register]

theorem register_mem_fb {α : Type} (s : State) (result : Except Int α) (frontend : α → Frontend) :
    (register s result frontend).mem = s.mem ∧ (register s result frontend).fb = s.fb := by
  cases result <;> exact ⟨rfl, rfl⟩

/-- The texture of an SDL frontend is of no interest to the servers. -/
theorem vnc_mem_set {l : List Frontend} {i : Nat} {texture texture' : FbSize} {server : RfbScreen}
    (hi : l[i]? = some (.sdl texture)) :
    .vnc server ∈ l.set i (.sdl texture') ↔ .vnc server ∈ l := by
  simp only [List.mem_iff_getElem?, List.getElem?_set]
  refine exists_congr fun j => ?_
  by_cases hij : i = j
  · subst hij
    rw [hi]
    by_cases hlt : i < l.length <;> simp [hlt]
  · simp [hij]

theorem vncAlloc_ok {fb : Fb} {callocOk screenOk : Bool} {server : RfbScreen}
    (h : vncAlloc fb callocOk screenOk = .ok server) : server = ⟨fb.size, fb.pixels⟩ := by
  unfold vncAlloc at h
  repeat' split at h
  all_goals cases h
  rfl

/-- A step of `sdl_update` is a call on one of the frontends. -/
theorem step_sdlUpdate {s s' : State} {i : Nat} {events : List SdlEvent}
    (hlive : (s.mem.block s.fb.pixels).isSome) (h : step s (.sdlUpdate i events) = some s') :
    ∃ texture texture', Moves ⟨s.mem, s.fb, texture⟩ ⟨s'.mem, s'.fb, texture'⟩ (resizes events) ∧
      ∀ server, .vnc server ∈ s'.frontends ↔ .vnc server ∈ s.frontends := by
  rw [Vnc.step] at h
  cases hi : s.frontends[i]? with
  | none => simp [hi] at h
  | some f =>
    rw [hi] at h
    cases f with
    | vnc server => cases h
    | sdl texture =>
      obtain ⟨⟨u, err⟩, hupdate, rfl⟩ := Option.map_eq_some_iff.mp h
      exact ⟨texture, u.view.texture,
        sdlUpdate_moves (s := ⟨⟨s.mem, s.fb, texture⟩, []⟩) hlive hupdate,
        fun server => vnc_mem_set hi⟩

theorem Sound.step {s s' : State} {a : Action} (hs : Sound s) (h : step s a = some s') :
    Sound s' := by
  obtain ⟨cells, hcells⟩ := Option.isSome_iff_exists.mp hs.live
  cases a with
  | vncAlloc callocOk screenOk =>
    cases h
    obtain ⟨hmem, hfb⟩ := register_mem_fb s (Vnc.vncAlloc s.fb callocOk screenOk) Frontend.vnc
    refine ⟨by rw [hmem, hfb]; exact hs.live, fun server hserver => ?_⟩
    rw [hmem]
    rcases mem_register.mp hserver with hold | ⟨_, hnew, heq⟩
    · exact hs.copied server hold
    · cases heq
      rw [vncAlloc_ok hnew]
      exact Heap.block_lt hcells
  | sdlAlloc answers =>
    cases h
    obtain ⟨hmem, hfb⟩ := register_mem_fb s (Sdl.sdlAlloc s.fb answers) Frontend.sdl
    refine ⟨by rw [hmem, hfb]; exact hs.live, fun server hserver => ?_⟩
    rw [hmem]
    rcases mem_register.mp hserver with hold | ⟨_, _, heq⟩
    · exact hs.copied server hold
    · cases heq
  | sdlUpdate i events =>
    obtain ⟨_, _, hmoves, hservers⟩ := step_sdlUpdate hs.live h
    exact ⟨hmoves.live, fun server hserver =>
      Nat.lt_of_lt_of_le (hs.copied server ((hservers server).mp hserver)) hmoves.fresh⟩

/-- **Step lemma.** -/
theorem attached_step_iff {s s' : State} {a : Action} (hs : Sound s) (h : step s a = some s') :
    Attached s' ↔ Attached s ∧ okResize s a = true := by
  cases a with
  | vncAlloc callocOk screenOk =>
    cases h
    obtain ⟨-, hfb⟩ := register_mem_fb s (Vnc.vncAlloc s.fb callocOk screenOk) Frontend.vnc
    simp only [Attached, hfb, okResize, and_true, mem_register]
    refine ⟨fun h server hserver => h server (.inl hserver), fun h server hserver => ?_⟩
    rcases hserver with hold | ⟨_, hnew, heq⟩
    · exact h server hold
    · cases heq
      rw [vncAlloc_ok hnew]
      exact ⟨rfl, rfl⟩
  | sdlAlloc answers =>
    cases h
    obtain ⟨-, hfb⟩ := register_mem_fb s (Sdl.sdlAlloc s.fb answers) Frontend.sdl
    simp [Attached, hfb, okResize, mem_register]
  | sdlUpdate i events =>
    obtain ⟨_, _, hmoves, hservers⟩ := step_sdlUpdate hs.live h
    simp only [Attached, hservers, okResize, Bool.not_eq_true', Bool.and_eq_false_iff]
    cases hresizes : resizes events with
    | false =>
      rw [show s'.fb = s.fb from hmoves.kept hresizes]
      simp
    | true =>
      cases hvnc : s.frontends.any Frontend.isVnc with
      | false =>
        -- nobody is there to be detached
        have hnone : ∀ server, Frontend.vnc server ∉ s.frontends := fun server hserver => by
          simpa [Frontend.isVnc] using List.any_eq_false.mp hvnc _ hserver
        simp [hnone]
      | true =>
        obtain ⟨f, hf, hf'⟩ := List.any_eq_true.mp hvnc
        cases f with
        | sdl texture => cases hf'
        | vnc server =>
          have hold := hs.copied server hf
          have hnew : s.mem.fresh ≤ s'.fb.pixels := hmoves.pixels hresizes
          refine ⟨fun hattached => ?_, fun h => by simp at h⟩
          have hsame := (hattached server hf).1
          omega

/-- **Every server is attached to the current framebuffer exactly when no resize
has succeeded with a VNC frontend on the list.** An initial part of a run is a
run, so this is about all states of it. -/
theorem attached_iff {mem : Memory} {fb : Fb} {cells : List UInt32}
    (hb : mem.block fb.pixels = some cells) {as : List Action} {s : State}
    (hrun : (frontends mem fb).run ⟨mem, fb, []⟩ as = some s) :
    Attached s ↔ ((frontends mem fb).restrict okResize).run ⟨mem, fb, []⟩ as = some s := by
  have hinit : Sound (frontends mem fb).init :=
    ⟨Option.isSome_iff_exists.mpr ⟨cells, hb⟩, fun server hserver => absurd hserver List.not_mem_nil⟩
  have hsound : ∀ {s}, (frontends mem fb).Reachable s → Sound s := fun hs =>
    hs.invariant hinit fun _ _ _ _ h _ hstep => h.step hstep
  have hempty : Attached (frontends mem fb).init := fun _ hserver => absurd hserver List.not_mem_nil
  exact System.run_restrict_iff (S := frontends mem fb) hempty
    (fun _ _ _ hs hstep => attached_step_iff (hsound hs) hstep) hrun

/-- A VNC frontend together with an SDL frontend that is not resized ... -/
theorem attached_iff_no_resize :
    ∃ s, (frontends ⟨[some [0]]⟩ onePixel).run ⟨⟨[some [0]]⟩, onePixel, []⟩
        [.vncAlloc true true, .sdlAlloc ⟨true, true, true, true, true⟩, .sdlUpdate 1 [.other]] =
          some s ∧ Attached s := by
  have hb : Heap.block (⟨[some [0]]⟩ : Memory) onePixel.pixels = some [0] := rfl
  have hrun : (frontends ⟨[some [0]]⟩ onePixel).run ⟨⟨[some [0]]⟩, onePixel, []⟩
      [.vncAlloc true true, .sdlAlloc ⟨true, true, true, true, true⟩, .sdlUpdate 1 [.other]] =
        some ⟨⟨[some [0]]⟩, onePixel, [.vnc ⟨⟨1, 1⟩, 0⟩, .sdl ⟨1, 1⟩]⟩ := rfl
  exact ⟨_, hrun, (attached_iff hb hrun).mpr rfl⟩

/-- ... and one that is: the server keeps the block that `fb_resize` has freed. -/
theorem detached_by_resize :
    ∃ s, (frontends ⟨[some [0]]⟩ onePixel).run ⟨⟨[some [0]]⟩, onePixel, []⟩
        [.vncAlloc true true, .sdlAlloc ⟨true, true, true, true, true⟩,
          .sdlUpdate 1 [.resized 2 1 true (some fun _ => 0)]] = some s ∧
      ¬Attached s ∧ ∃ server, .vnc server ∈ s.frontends ∧ s.mem.block server.frameBuffer = none := by
  refine ⟨_, rfl, fun h => ?_, ⟨⟨1, 1⟩, 0⟩, .head _, rfl⟩
  have hsame := (h ⟨⟨1, 1⟩, 0⟩ (.head _)).1
  revert hsame
  decide

end Pixelflut.Vnc
