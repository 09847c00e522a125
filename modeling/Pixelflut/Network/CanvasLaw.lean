import Pixelflut.Network.Basic

/-!
# The canvas after a run of the server

The server processes frames and resizes, one after another. `Op.event` is what
an operation means for the picture, read off the received frame; `serve_shows`
is the run lemma, and `canvas_law` states what it gives for the pixels and the
pixel counter.
-/

namespace Pixelflut.Network

open Wire Framebuffer Lib.Drawing

inductive Op where
  /-- The loop body of `dpdk_thread` on one packet buffer. -/
  | frame (m : RteMbuf)
  /-- A call of `fb_resize`; `mem` is the answer of its `malloc`. -/
  | resize (width height : UInt32) (mem : Malloc)

def Op.exec (op : Op) (s : Memory × Fb) : Option (Memory × Fb) :=
  match op with
  | .frame m => dpdkThreadBody s.1 s.2 m
  | .resize width height mem => (fbResize s.1 s.2 width height mem).map fun r => (r.1, r.2.1)

def Op.Legal : Op → Prop
  | .frame m => m.frame.HasHeaders
  | .resize width height _ => width.toNat * height.toNat < 2 ^ 32

instance : DecidablePred Op.Legal
  | .frame m => inferInstanceAs (Decidable m.frame.HasHeaders)
  | .resize width height _ => inferInstanceAs (Decidable (width.toNat * height.toNat < 2 ^ 32))

/-- The drawing of a frame: one pixel when it is IPv6. -/
def frameEvent (f : Frame) : Option (Event UInt32) :=
  if IsIPv6 f.byte then some (.draw (column f.byte) (row f.byte) (colour f.byte)) else none

/-- A resize clears the picture when its `malloc` succeeds. -/
def Op.event : Op → Option (Event UInt32)
  | .frame m => frameEvent m.frame
  | .resize width height mem => if mem.isSome then some (.clear width.toNat height.toNat) else none

def events (ops : List Op) : List (Event UInt32) := ops.filterMap Op.event

/-- Process the operations in order. -/
def serve (s : Memory × Fb) (ops : List Op) : Option (Memory × Fb) :=
  ops.foldlM (fun s op => op.exec s) s

/-- A frame with its headers draws what it says. -/
theorem dpdkThreadBody_shows {h : Memory} {fb : Fb} {r : Raster UInt32} (hs : Shows h fb r)
    {m : RteMbuf} (hm : m.frame.HasHeaders) :
    ∃ h' fb', dpdkThreadBody h fb m = some (h', fb') ∧
      Shows h' fb' ((frameEvent m.frame).elim r r.apply) := by
  obtain ⟨htype, hdecode⟩ := m.decode_frame hm
  rw [dpdkThreadBody_eq, frameEvent]
  by_cases h6 : IsIPv6 m.data
  · obtain ⟨hcolumn, hrow, hcolour⟩ := hdecode h6
    obtain ⟨h', fb', hset, hs'⟩ :=
      fbSetPixel_shows hs (.ofNat (column m.data)) (.ofNat (row m.data)) (colour m.data)
    rw [if_pos h6, if_pos (htype.mp h6)]
    refine ⟨h', fb', hset, ?_⟩
    rw [column_toNat, row_toNat, hcolumn, hrow, hcolour] at hs'
    exact hs'
  · rw [if_neg h6, if_neg (fun h => h6 (htype.mpr h))]
    exact ⟨h, fb, rfl, hs⟩

/-- **Step lemma.** -/
theorem Op.exec_shows {h : Memory} {fb : Fb} {r : Raster UInt32} (hs : Shows h fb r) {op : Op}
    (hop : op.Legal) :
    ∃ h' fb', op.exec (h, fb) = some (h', fb') ∧ Shows h' fb' (op.event.elim r r.apply) := by
  cases op with
  | frame m => exact dpdkThreadBody_shows hs hop
  | resize width height mem =>
    obtain ⟨h', fb', err, hresize, hs'⟩ := fbResize_shows hs hop mem
    refine ⟨h', fb', by simp only [Op.exec, hresize, Option.map_some], ?_⟩
    cases mem <;> exact hs'

/-- **Run lemma.** -/
theorem serve_shows {h : Memory} {fb : Fb} {r : Raster UInt32} (hs : Shows h fb r) (ops : List Op)
    (hlegal : ∀ op ∈ ops, op.Legal) :
    ∃ h' fb', serve (h, fb) ops = some (h', fb') ∧
      Shows h' fb' ((events ops).foldl Raster.apply r) := by
  induction ops generalizing h fb r with
  | nil => exact ⟨h, fb, rfl, hs⟩
  | cons op ops ih =>
    obtain ⟨h₁, fb₁, hexec, hs₁⟩ := op.exec_shows hs (hlegal op List.mem_cons_self)
    obtain ⟨h₂, fb₂, hserve, hs₂⟩ := ih hs₁ fun o ho => hlegal o (List.mem_cons_of_mem op ho)
    refine ⟨h₂, fb₂, ?_, ?_⟩
    · rw [serve, List.foldlM_cons, hexec]
      exact hserve
    · rw [events, List.filterMap_cons]
      cases hev : op.event with
      | none => rwa [hev] at hs₂
      | some ev => rwa [hev] at hs₂

/-- **The canvas law.** From a successful `fb_alloc` on, no operation leaves
the pixel block, which always has one cell for each pixel. Every pixel shows
the last IPv6 frame since the last successful resize that has its coordinates,
and `pixelCounter` counts the frames inside the size of their time. -/
theorem canvas_law {h₀ h₁ : Memory} {fb₁ : Fb} {width height : UInt32} {fbOk pixelsOk : Bool}
    {numaNode : UInt32} (hsmall : width.toNat * height.toNat < 2 ^ 32)
    (halloc : fbAlloc h₀ width height fbOk pixelsOk numaNode = (h₁, .ok fb₁))
    (ops : List Op) (hlegal : ∀ op ∈ ops, op.Legal) :
    ∃ h fb, serve (h₁, fb₁) ops = some (h, fb) ∧
      (∃ cells, Backed h fb cells) ∧
      (∀ x y, x < fb.size.width → y < fb.size.height →
        fbGetPixel h fb x y = some (lastAt (sinceClear (events ops)) x.toNat y.toNat)) ∧
      fb.pixelCounter = UInt64.ofNat (hits width.toNat height.toNat (events ops)) := by
  obtain ⟨h, fb, hserve, hs⟩ := serve_shows (fbAlloc_shows hsmall halloc) ops hlegal
  refine ⟨h, fb, hserve, ?_, ?_, ?_⟩
  · obtain ⟨cells, hb, -⟩ := hs.cells
    exact ⟨cells, hb⟩
  · intro x y hx hy
    rw [fbGetPixel_shows hs hx hy, colour_foldl]
    · rw [hs.width]
      exact UInt32.lt_iff_toNat_lt.mp hx
    · rw [hs.height]
      exact UInt32.lt_iff_toNat_lt.mp hy
  · rw [hs.counter, drawn_foldl]
    simp only [blank, Nat.zero_add]

/-- A drawing that the resize forgets, and one at the border of the new size. -/
def drawResizeDraw : List Op :=
  [.frame (.ofFrame (ipv6Frame [0, 1, 0, 1, 0xFF, 0x80, 0x01, 0])), .resize 3 1 (some fun _ => 7),
    .frame (.ofFrame (ipv6Frame [0, 2, 0, 0, 0xFF, 0, 0, 0]))]

theorem canvas_law_draw_resize_draw :
    ∃ h fb, serve (calloc ⟨[]⟩ 4, ⟨⟨2, 2⟩, 0, 0, 0, 0⟩) drawResizeDraw = some (h, fb) ∧
      (∃ cells, Backed h fb cells) ∧
      (∀ x y, x < fb.size.width → y < fb.size.height →
        fbGetPixel h fb x y = some (lastAt (sinceClear (events drawResizeDraw)) x.toNat y.toNat)) ∧
      fb.pixelCounter = UInt64.ofNat (hits 2 2 (events drawResizeDraw)) :=
  @canvas_law ⟨[]⟩ _ _ 2 2 true true 0 (by decide) rfl drawResizeDraw (by decide)

end Pixelflut.Network
