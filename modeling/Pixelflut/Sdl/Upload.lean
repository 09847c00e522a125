import Pixelflut.Lib.Transition
import Pixelflut.Sdl.Basic

/-!
# What is uploaded

`sdl_update` replaces the texture first and the pixel block second, and goes on
when the second allocation fails.

* `Event.Good`: an upload reads a view whose texture has the size of the
  framebuffer, and a resize that fails changes no size;
* `harmless`: no `malloc` fails behind a successful `SDL_CreateTexture`, unless
  the window has kept its size;
* `pollEvents_backward`, `pollEvents_forward`: for the events of one call the
  one implies the other;
* `upload_agrees_iff`: so it is for every sequence of calls.
-/

namespace Pixelflut.Sdl

open Lib.BlockHeap Lib.Transition Framebuffer

def Event.Good : Event → Prop
  | .resize before after failed =>
    failed = true → after.texture = before.texture ∧ after.fb.size = before.fb.size
  | .upload view => view.texture = view.fb.size ∧ view.Inside

/-- No `malloc` fails behind a successful `SDL_CreateTexture`, unless it is for
the size that the texture has already. Events behind a quit stay in the queue. -/
def harmless (texture : FbSize) : List SdlEvent → Bool
  | [] => true
  | .resized width height textureOk mem :: events =>
    if textureOk then
      (mem.isSome || decide (⟨width.toUInt32, height.toUInt32⟩ = texture)) &&
        harmless ⟨width.toUInt32, height.toUInt32⟩ events
    else harmless texture events
  | .quit :: _ => true
  | .other :: events => harmless texture events

/-- The sizes that the window system may report. -/
def SdlEvent.Small : SdlEvent → Prop
  | .resized width height _ _ =>
    0 ≤ width ∧ 0 ≤ height ∧ width.toUInt32.toNat * height.toUInt32.toNat < 2 ^ 32
  | _ => True

/-- Calls of `sdl_update` without a `resize_cb`, each with its queue of events. -/
def updates (v : View) : System State (List SdlEvent) where
  init := ⟨v, []⟩
  step s events := (sdlUpdate none s events).map Prod.fst

/-! ## From the trace back to the events -/

theorem pollEvents_backward (events : List SdlEvent) {s s' : State} {ret : Option Int}
    (hpoll : pollEvents none s events = some (s', ret)) (hgood : ∀ e ∈ s'.trace, e.Good) :
    (∀ e ∈ s.trace, e.Good) ∧ harmless s.view.texture events = true := by
  induction events generalizing s with
  | nil =>
    cases hpoll
    exact ⟨hgood, rfl⟩
  | cons event events ih =>
    obtain ⟨⟨s₁, ret₁⟩, hevent, hrest⟩ := Option.bind_eq_some_iff.mp hpoll
    cases event with
    | quit =>
      cases hevent
      cases hrest
      exact ⟨hgood, rfl⟩
    | other =>
      cases hevent
      exact ih hrest
    | resized width height textureOk mem =>
      obtain ⟨rfl, v, hresize, rfl⟩ := handleEvent_resized_some hevent
      obtain ⟨hbefore, hharmless⟩ := ih hrest
      refine ⟨fun e he => hbefore e (List.mem_append_left _ he), ?_⟩
      have hthis := hbefore (.resize s.view v (!textureOk || mem.isNone)) (by simp)
      have htexture := resizeTo_texture hresize
      cases textureOk with
      | false =>
        rw [htexture] at hharmless
        exact hharmless
      | true =>
        simp only [↓reduceIte] at htexture
        simp only [htexture] at hharmless
        have hkept : mem.isSome = true ∨ ⟨width.toUInt32, height.toUInt32⟩ = s.view.texture := by
          cases mem with
          | some old => exact .inl rfl
          | none => exact .inr (htexture ▸ (hthis rfl).1)
        simp [harmless, hharmless, hkept]

/-! ## From the events to the trace -/

theorem resizeTo_backed {v : View} (hb : ∃ cells, Backed v.mem v.fb cells) {width height : UInt32}
    (hsmall : width.toNat * height.toNat < 2 ^ 32) (textureOk : Bool) (mem : Malloc) :
    ∃ v', resizeTo v width height textureOk mem = some v' ∧
      (∃ cells, Backed v'.mem v'.fb cells) ∧
      (v'.texture = if textureOk then ⟨width, height⟩ else v.texture) ∧
      v'.fb.size = if textureOk && mem.isSome then ⟨width, height⟩ else v.fb.size := by
  obtain ⟨cells, hcells⟩ := hb
  obtain ⟨v', hresize, hcase⟩ := resizeTo_cases hcells.block width height textureOk mem
  refine ⟨v', hresize, ?_, resizeTo_texture hresize, ?_⟩ <;>
    rcases hcase with ⟨rfl, rfl⟩ | ⟨rfl, rfl, rfl⟩ | ⟨rfl, hmem, -, hfb, -, hblock⟩
  · exact ⟨cells, hcells⟩
  · exact ⟨cells, hcells⟩
  · refine ⟨List.replicate (cellCount width height) 0, ?_, ?_⟩
    · rw [hfb]
      exact hblock
    · rw [hfb, List.length_replicate]
      exact cellCount_eq hsmall
  · rfl
  · rfl
  · simp [hfb, hmem]

/-- A harmless resize event keeps the sizes together. -/
theorem agree_of_harmless {s : State} {v : View} {width height : Int32} {textureOk : Bool}
    {mem : Malloc} {events : List SdlEvent}
    (htexture : v.texture =
      if textureOk then ⟨width.toUInt32, height.toUInt32⟩ else s.view.texture)
    (hsize : v.fb.size =
      if textureOk && mem.isSome then ⟨width.toUInt32, height.toUInt32⟩ else s.view.fb.size)
    (hharmless : harmless s.view.texture (.resized width height textureOk mem :: events) = true)
    (hagree : s.view.texture = s.view.fb.size) :
    harmless v.texture events = true ∧ v.texture = v.fb.size ∧
      (Event.resize s.view v (!textureOk || mem.isNone)).Good := by
  cases textureOk with
  | false =>
    simp only [Bool.false_eq_true, ↓reduceIte, Bool.false_and] at htexture hsize
    rw [htexture, hsize]
    exact ⟨hharmless, hagree, fun _ => ⟨htexture, hsize⟩⟩
  | true =>
    simp only [harmless, ↓reduceIte, Bool.and_eq_true, Bool.or_eq_true, decide_eq_true_eq]
      at hharmless
    simp only [↓reduceIte, Bool.true_and] at htexture hsize
    rw [htexture, hsize]
    cases mem with
    | some old => exact ⟨hharmless.2, rfl, nofun⟩
    | none =>
      have hkept := hharmless.1.resolve_left (by simp)
      exact ⟨hharmless.2, hkept.trans hagree, fun _ => ⟨htexture.trans hkept, hsize⟩⟩

theorem pollEvents_forward (events : List SdlEvent) {s : State}
    (hb : ∃ cells, Backed s.view.mem s.view.fb cells) (hsmall : ∀ e ∈ events, e.Small) :
    ∃ s' ret, pollEvents none s events = some (s', ret) ∧
      (∃ cells, Backed s'.view.mem s'.view.fb cells) ∧
      (harmless s.view.texture events = true → s.view.texture = s.view.fb.size →
        (∀ e ∈ s.trace, e.Good) →
          s'.view.texture = s'.view.fb.size ∧ ∀ e ∈ s'.trace, e.Good) := by
  induction events generalizing s with
  | nil => exact ⟨s, none, rfl, hb, fun _ hagree hgood => ⟨hagree, hgood⟩⟩
  | cons event events ih =>
    have hrest : ∀ e ∈ events, e.Small := fun e he => hsmall e (List.mem_cons_of_mem _ he)
    cases event with
    | quit => exact ⟨s, some 1, rfl, hb, fun _ hagree hgood => ⟨hagree, hgood⟩⟩
    | other => exact ih hb hrest
    | resized width height textureOk mem =>
      obtain ⟨hwidth, hheight, harea⟩ := hsmall _ (List.mem_cons_self ..)
      obtain ⟨v, hresize, hbv, htexture, hsize⟩ := resizeTo_backed hb harea textureOk mem
      obtain ⟨s', ret, hpoll, hb', hkeep⟩ :=
        ih (s := ⟨v, s.trace ++ [.resize s.view v (!textureOk || mem.isNone)]⟩) hbv hrest
      refine ⟨s', ret, ?_, hb', fun hharmless hagree hgood => ?_⟩
      · rw [pollEvents, handleEvent_resized s hwidth hheight, hresize]
        exact hpoll
      · obtain ⟨hharmless', hagree', hthis⟩ := agree_of_harmless htexture hsize hharmless hagree
        refine hkeep hharmless' hagree' fun e he => ?_
        rcases List.mem_append.mp he with hold | hnew
        · exact hgood e hold
        · rw [List.mem_singleton.mp hnew]
          exact hthis

/-! ## Calls -/

theorem sdlUpdate_backward {s s' : State} {events : List SdlEvent} {err : Int}
    (hupdate : sdlUpdate none s events = some (s', err)) (hgood : ∀ e ∈ s'.trace, e.Good) :
    (∀ e ∈ s.trace, e.Good) ∧ harmless s.view.texture events = true := by
  obtain ⟨⟨s₁, ret⟩, hpoll, hret⟩ := Option.bind_eq_some_iff.mp hupdate
  refine pollEvents_backward events hpoll fun e he => hgood e ?_
  cases ret <;> cases hret
  · exact List.mem_append_left _ he
  · exact he

theorem sdlUpdate_forward {s : State} {events : List SdlEvent}
    (hb : ∃ cells, Backed s.view.mem s.view.fb cells) (hsmall : ∀ e ∈ events, e.Small) :
    ∃ s' err, sdlUpdate none s events = some (s', err) ∧
      (∃ cells, Backed s'.view.mem s'.view.fb cells) ∧
      (harmless s.view.texture events = true → s.view.texture = s.view.fb.size →
        (∀ e ∈ s.trace, e.Good) →
          s'.view.texture = s'.view.fb.size ∧ ∀ e ∈ s'.trace, e.Good) := by
  obtain ⟨s₁, ret, hpoll, hb₁, hkeep⟩ := pollEvents_forward events hb hsmall
  cases ret with
  | some err => exact ⟨s₁, err, by rw [sdlUpdate, hpoll]; rfl, hb₁, hkeep⟩
  | none =>
    refine ⟨⟨s₁.view, s₁.trace ++ [.upload s₁.view]⟩, 0, by rw [sdlUpdate, hpoll]; rfl, hb₁,
      fun hharmless hagree hgood => ?_⟩
    obtain ⟨hagree', hgood'⟩ := hkeep hharmless hagree hgood
    refine ⟨hagree', fun e he => ?_⟩
    rcases List.mem_append.mp he with hold | hnew
    · exact hgood' e hold
    · obtain ⟨cells, hcells⟩ := hb₁
      rw [List.mem_singleton.mp hnew]
      exact ⟨hagree', inside_of_backed hcells hagree'⟩

/-- The system that takes harmless calls only. -/
abbrev harmlessUpdates (v : View) : System State (List SdlEvent) :=
  (updates v).restrict fun s events => harmless s.view.texture events

theorem run_forward {v : View} (calls : List (List SdlEvent)) {s : State}
    (hb : ∃ cells, Backed s.view.mem s.view.fb cells)
    (hsmall : ∀ events ∈ calls, ∀ e ∈ events, e.Small) :
    ∃ s', (updates v).run s calls = some s' ∧
      ((harmlessUpdates v).run s calls = some s' → s.view.texture = s.view.fb.size →
        (∀ e ∈ s.trace, e.Good) → ∀ e ∈ s'.trace, e.Good) := by
  induction calls generalizing s with
  | nil => exact ⟨s, rfl, fun _ _ hgood => hgood⟩
  | cons events calls ih =>
    obtain ⟨s₁, err, hupdate, hb₁, hkeep⟩ := sdlUpdate_forward hb (hsmall _ (List.mem_cons_self ..))
    have hstep : (updates v).step s events = some s₁ := by
      simp only [updates, hupdate, Option.map_some]
    obtain ⟨s', hrun, hrest⟩ := ih hb₁ fun es hes => hsmall es (List.mem_cons_of_mem _ hes)
    refine ⟨s', (System.run_cons hstep calls).trans hrun, fun hrun' hagree hgood => ?_⟩
    obtain ⟨t, hstep', hrun''⟩ := Option.bind_eq_some_iff.mp hrun'
    cases hharmless : harmless s.view.texture events
    · simp [System.restrict, hharmless] at hstep'
    · simp only [System.restrict, hharmless, ↓reduceIte, hstep, Option.some.injEq] at hstep'
      obtain ⟨hagree₁, hgood₁⟩ := hkeep hharmless hagree hgood
      exact hrest (hstep' ▸ hrun'') hagree₁ hgood₁

/-- **What is uploaded agrees with the framebuffer, and a failed resize changes
no size, exactly when every call is harmless.** -/
theorem upload_agrees_iff {mem : Memory} {fb : Fb} {cells : List UInt32} (hb : Backed mem fb cells)
    {answers : AllocAnswers} {texture : FbSize} (halloc : sdlAlloc fb answers = .ok texture)
    (calls : List (List SdlEvent)) (hsmall : ∀ events ∈ calls, ∀ e ∈ events, e.Small) :
    ∃ s, (updates ⟨mem, fb, texture⟩).run ⟨⟨mem, fb, texture⟩, []⟩ calls = some s ∧
      ((∀ e ∈ s.trace, e.Good) ↔
        (harmlessUpdates ⟨mem, fb, texture⟩).run ⟨⟨mem, fb, texture⟩, []⟩ calls = some s) := by
  obtain ⟨s, hrun, hgood⟩ :=
    run_forward (v := ⟨mem, fb, texture⟩) (s := ⟨⟨mem, fb, texture⟩, []⟩) calls ⟨cells, hb⟩ hsmall
  refine ⟨s, hrun, fun hall => ?_, fun hrun' => hgood hrun' (sdlAlloc_ok halloc) fun e he => ?_⟩
  · refine (System.run_restrict_of_backward (S := updates ⟨mem, fb, texture⟩)
      (Q := fun s => ∀ e ∈ s.trace, e.Good) ?_ calls .init hrun hall).2
    intro s events s' _ hstep hall'
    obtain ⟨⟨s₁, err⟩, hupdate, rfl⟩ := Option.map_eq_some_iff.mp hstep
    exact sdlUpdate_backward hupdate hall'
  · cases he

/-- The window is widened, and then reported once more with the same size, where
the `malloc` fails. -/
theorem upload_agrees_iff_same_size :
    ∃ s, (updates ⟨⟨[some [0]]⟩, onePixel, ⟨1, 1⟩⟩).run ⟨⟨⟨[some [0]]⟩, onePixel, ⟨1, 1⟩⟩, []⟩
        [[.resized 2 1 true (some fun _ => 0)], [.resized 2 1 true none, .other]] = some s ∧
      ∀ e ∈ s.trace, e.Good := by
  have hsmall : ∀ events ∈ [[SdlEvent.resized 2 1 true (some fun _ => 0)],
      [.resized 2 1 true none, .other]], ∀ e ∈ events, e.Small := by
    simp only [List.forall_mem_cons, List.not_mem_nil, false_implies, implies_true, and_true]
    exact ⟨⟨by decide, by decide, by decide⟩, ⟨by decide, by decide, by decide⟩, trivial⟩
  have hb : Backed ⟨[some [0]]⟩ onePixel [0] := ⟨rfl, rfl⟩
  have halloc : sdlAlloc onePixel ⟨true, true, true, true, true⟩ = .ok ⟨1, 1⟩ := rfl
  obtain ⟨s, hrun, hiff⟩ := upload_agrees_iff hb halloc _ hsmall
  exact ⟨s, hrun, hiff.mpr hrun⟩

/-- The window is widened, and the `malloc` fails: the upload reads two pixels of
a block that has one. -/
theorem upload_disagrees_when_malloc_fails :
    ∃ s view, (updates ⟨⟨[some [0]]⟩, onePixel, ⟨1, 1⟩⟩).run ⟨⟨⟨[some [0]]⟩, onePixel, ⟨1, 1⟩⟩, []⟩
        [[.resized 2 1 true none]] = some s ∧
      .upload view ∈ s.trace ∧ view.texture ≠ view.fb.size ∧ ¬view.Inside := by
  refine ⟨_, _, rfl, .tail _ (.head _), by decide, fun hinside => ?_⟩
  have hsecond := hinside 1 0 (by decide) (by decide)
  revert hsecond
  decide

end Pixelflut.Sdl
