import Mathlib.Data.UInt
import Pixelflut.Framebuffer.Basic

/-!
# The SDL frontend of `sdl.c`

A `View` is what `sdl_update` works on: the framebuffer and the texture of the
frontend. A texture is modelled by its size. What SDL and the allocations answer
is part of the event that makes the call. A function is `none` when it fails an
`assert`.

`trace` is no variable of the program: it records the resizes and the uploads.
`resizeTo_cases` is all that a resize event does to a view, and
`handleEvent_resized` and `handleEvent_resized_some` lead from the loop to it.
-/

namespace Pixelflut.Sdl

open Lib.BlockHeap Lib.RowMajor Framebuffer

/-- The answers in `sdl_alloc`, in the order of the calls. -/
structure AllocAnswers where
  mallocOk : Bool
  initOk : Bool
  windowOk : Bool
  rendererOk : Bool
  textureOk : Bool

/-- `sdl_alloc`: the size of its texture, or an error. -/
def sdlAlloc (fb : Fb) (answers : AllocAnswers) : Except Int FbSize :=
  if !answers.mallocOk then .error (-ENOMEM)
  else if !answers.initOk then .error (-1)
  else if !answers.windowOk then .error (-1)
  else if !answers.rendererOk then .error (-1)
  else if !answers.textureOk then .error (-1)
  else .ok fb.size

structure View where
  mem : Memory
  fb : Fb
  texture : FbSize

inductive Event where
  | resize (before after : View) (failed : Bool)
  /-- `SDL_UpdateTexture`. -/
  | upload (view : View)

structure State where
  view : View
  trace : List Event

/-- What `SDL_PollEvent` gives. -/
inductive SdlEvent where
  /-- `SDL_WINDOWEVENT_RESIZED`; `width` and `height` are the answer of
  `SDL_GetWindowSize`, `textureOk` is that of `SDL_CreateTexture`, `mem` that of
  the `malloc` in `fb_resize`. -/
  | resized (width height : Int32) (textureOk : Bool) (mem : Malloc)
  | quit
  | other

/-- `SDL_CreateTexture` and what follows it in `sdl_update`. The result of
`fb_resize` is not looked at. -/
def resizeTo (v : View) (width height : UInt32) (textureOk : Bool) (mem : Malloc) : Option View :=
  if textureOk then
    (fbResize v.mem v.fb width height mem).map fun r => ⟨r.1, r.2.1, ⟨width, height⟩⟩
  else some v

/-- The body of the loop of `sdl_update`; the second result is what the function
returns there. `resizeCb` is the result of `sdl->resize_cb`. -/
def handleEvent (resizeCb : Option (Int32 → Int32 → Int)) (s : State) :
    SdlEvent → Option (State × Option Int)
  | .resized width height textureOk mem =>
    if 0 ≤ width ∧ 0 ≤ height then
      let err := resizeCb.elim 0 fun cb => cb width height
      if err ≠ 0 then some (s, some err)
      else (resizeTo s.view width.toUInt32 height.toUInt32 textureOk mem).map fun v =>
        (⟨v, s.trace ++ [.resize s.view v (!textureOk || mem.isNone)]⟩, none)
    else none
  | .quit => some (s, some 1)
  | .other => some (s, none)

/-- The loop of `sdl_update` on the queue of events. -/
def pollEvents (resizeCb : Option (Int32 → Int32 → Int)) (s : State) :
    List SdlEvent → Option (State × Option Int)
  | [] => some (s, none)
  | event :: events => do
    let (s, ret) ← handleEvent resizeCb s event
    if ret.isSome then some (s, ret) else pollEvents resizeCb s events

def sdlUpdate (resizeCb : Option (Int32 → Int32 → Int)) (s : State) (events : List SdlEvent) :
    Option (State × Int) := do
  let (s, ret) ← pollEvents resizeCb s events
  match ret with
  | some err => some (s, err)
  | none => some (⟨s.view, s.trace ++ [.upload s.view]⟩, 0)

/-- Every cell that `SDL_UpdateTexture` reads is one of the pixel block: rows as
long and as many as those of the texture, `size->width` cells apart. -/
def View.Inside (v : View) : Prop :=
  ∀ x y, x < v.texture.width.toNat → y < v.texture.height.toNat →
    (v.mem.load v.fb.pixels (index v.fb.size.width.toNat x y)).isSome

/-- The texture starts with the size of the framebuffer. -/
theorem sdlAlloc_ok {fb : Fb} {answers : AllocAnswers} {texture : FbSize}
    (h : sdlAlloc fb answers = .ok texture) : texture = fb.size := by
  unfold sdlAlloc at h
  repeat' split at h
  all_goals cases h
  rfl

/-! ## What a resize does -/

/-- The texture fails, or the framebuffer alone does, or neither. -/
theorem resizeTo_cases {v : View} {cells : List UInt32}
    (hb : v.mem.block v.fb.pixels = some cells) (width height : UInt32) (textureOk : Bool)
    (mem : Malloc) :
    ∃ v', resizeTo v width height textureOk mem = some v' ∧
      ((textureOk = false ∧ v' = v) ∨
        (textureOk = true ∧ mem = none ∧ v' = { v with texture := ⟨width, height⟩ }) ∨
        (textureOk = true ∧ mem.isSome ∧ v'.texture = ⟨width, height⟩ ∧
          v'.fb = { v.fb with size := ⟨width, height⟩, pixels := v.mem.fresh } ∧
          v'.mem.fresh = v.mem.fresh + 1 ∧
          v'.mem.block v.mem.fresh = some (List.replicate (cellCount width height) 0))) := by
  cases textureOk with
  | false => exact ⟨v, rfl, .inl ⟨rfl, rfl⟩⟩
  | true =>
    cases mem with
    | none => exact ⟨_, rfl, .inr (.inl ⟨rfl, rfl, rfl⟩)⟩
    | some old =>
      obtain ⟨h', hresize, hfresh, hnew, -, -⟩ := fbResize_spec hb width height old
      refine ⟨⟨h', _, _⟩, by rw [resizeTo, if_pos rfl, hresize]; rfl, .inr (.inr ⟨rfl, rfl, rfl, ?_⟩)⟩
      exact ⟨rfl, hfresh, hnew⟩

theorem resizeTo_texture {v v' : View} {width height : UInt32} {textureOk : Bool} {mem : Malloc}
    (h : resizeTo v width height textureOk mem = some v') :
    v'.texture = if textureOk then ⟨width, height⟩ else v.texture := by
  cases textureOk with
  | false =>
    cases h
    rfl
  | true =>
    obtain ⟨r, -, rfl⟩ := Option.map_eq_some_iff.mp h
    rfl

/-- A resize event that passes the asserts, without a `resize_cb`. -/
theorem handleEvent_resized (s : State) {width height : Int32} (hwidth : 0 ≤ width)
    (hheight : 0 ≤ height) (textureOk : Bool) (mem : Malloc) :
    handleEvent none s (.resized width height textureOk mem) =
      (resizeTo s.view width.toUInt32 height.toUInt32 textureOk mem).map fun v =>
        (⟨v, s.trace ++ [.resize s.view v (!textureOk || mem.isNone)]⟩, none) := by
  rw [handleEvent, if_pos ⟨hwidth, hheight⟩]
  rfl

theorem handleEvent_resized_some {s s' : State} {width height : Int32} {textureOk : Bool}
    {mem : Malloc} {ret : Option Int}
    (h : handleEvent none s (.resized width height textureOk mem) = some (s', ret)) :
    ret = none ∧ ∃ v, resizeTo s.view width.toUInt32 height.toUInt32 textureOk mem = some v ∧
      s' = ⟨v, s.trace ++ [.resize s.view v (!textureOk || mem.isNone)]⟩ := by
  by_cases hsize : 0 ≤ width ∧ 0 ≤ height
  · rw [handleEvent_resized s hsize.1 hsize.2] at h
    obtain ⟨v, hv, hs'⟩ := Option.map_eq_some_iff.mp h
    cases hs'
    exact ⟨rfl, v, hv, rfl⟩
  · rw [handleEvent, if_neg hsize] at h
    cases h

/-- A view of the right size is read inside the block. -/
theorem inside_of_backed {v : View} {cells : List UInt32} (hb : Backed v.mem v.fb cells)
    (htexture : v.texture = v.fb.size) : v.Inside := by
  intro x y hx hy
  rw [htexture] at hx hy
  have hlt : index v.fb.size.width.toNat x y < cells.length := by
    rw [hb.length]
    exact index_lt hx hy
  rw [Heap.load_of_block hb.block, List.getElem?_eq_getElem hlt]
  rfl

/-- A framebuffer of one pixel. -/
def onePixel : Fb := ⟨⟨1, 1⟩, 0, 0, 0, 0⟩

end Pixelflut.Sdl
