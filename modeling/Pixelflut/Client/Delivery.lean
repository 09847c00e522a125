import Pixelflut.Lib.Painting
import Pixelflut.Network.CanvasLaw
import Pixelflut.Client.Frame
import Pixelflut.Client.Coverage

/-!
# From the client to the canvas

The network may lose, repeat and reorder what the DPDK client sends; the server
processes what it receives. `sweep_delivered` is what the canvas shows then.
-/

namespace Pixelflut.Client.Delivery

open Wire Network Framebuffer Lib.Drawing Lib.RowMajor
open Pixelflut.Client.Frame (Carries)
open Pixelflut.Client.Mbufs

/-- What a frame to an address draws. -/
def dotOf (dst : Address) : Dot UInt32 :=
  ((Receiver.dpdk.decode dst).x.toNat, (Receiver.dpdk.decode dst).y.toNat,
    (Receiver.dpdk.decode dst).rgb)

theorem frameEvent_of_carries {f : Frame} {dst : Address} (h : Carries f dst) :
    frameEvent f = some (.draw (dotOf dst).1 (dotOf dst).2.1 (dotOf dst).2.2) := by
  obtain ⟨-, hx, hy, hrgb⟩ := h.pixel .dpdk
  rw [frameEvent, if_pos h.ipv6, hx, hy, hrgb]
  rfl

/-- Frames that were received, with the addresses that they were sent to. -/
def Received (fs : List (Address × RteMbuf)) : Prop := ∀ x ∈ fs, Carries x.2.frame x.1

def ops (fs : List (Address × RteMbuf)) : List Op := fs.map fun x => .frame x.2

theorem events_ops {fs : List (Address × RteMbuf)} (h : Received fs) :
    events (ops fs) = (fs.map fun x => dotOf x.1).map fun d => .draw d.1 d.2.1 d.2.2 := by
  induction fs with
  | nil => rfl
  | cons x fs ih =>
    have hx : Op.event (.frame x.2) = _ := frameEvent_of_carries (h x List.mem_cons_self)
    rw [ops, List.map_cons, events, List.filterMap_cons_some hx]
    exact congrArg _ (ih fun y hy => h y (List.mem_cons_of_mem x hy))

/-- The server paints what it receives. -/
theorem serve_received {h : Memory} {fb : Fb} {r : Raster UInt32} (hs : Shows h fb r)
    {fs : List (Address × RteMbuf)} (hfs : Received fs) :
    ∃ h' fb', serve (h, fb) (ops fs) = some (h', fb') ∧
      Shows h' fb' (r.paint (fs.map fun x => dotOf x.1)) := by
  obtain ⟨h', fb', hserve, hs'⟩ := serve_shows hs (ops fs) (by
    intro op hop
    obtain ⟨x, hx, rfl⟩ := List.mem_map.mp hop
    exact ((hfs x hx).pixel .dpdk).1)
  rw [events_ops hfs, foldl_draw] at hs'
  exact ⟨h', fb', hserve, hs'⟩

/-- A framebuffer shows what its cells hold. -/
theorem shows_of_backed {h : Memory} {fb : Fb} {cells : List UInt32} (hb : Backed h fb cells)
    (hsmall : fb.size.width.toNat * fb.size.height.toNat < 2 ^ 32) :
    ∃ r, Shows h fb r ∧ r.width = fb.size.width.toNat ∧ r.height = fb.size.height.toNat ∧
      r.drawn = fb.pixelCounter.toNat := by
  refine ⟨⟨fb.size.width.toNat, fb.size.height.toNat,
    fun x y => cells.getD (index fb.size.width.toNat x y) 0, fb.pixelCounter.toNat⟩,
    ⟨rfl, rfl, hsmall, ⟨cells, hb, ?_⟩, ?_⟩, rfl, rfl, rfl⟩
  · intro x y hx hy
    have hlt : index fb.size.width.toNat x y < cells.length := hb.length ▸ index_lt hx hy
    simp [List.getElem?_eq_getElem hlt]
  · simp

/-- Two rasters of one size are shown by framebuffers of one size. -/
theorem size_of_shows {h h' : Memory} {fb fb' : Fb} {r r' : Raster UInt32} (hs : Shows h fb r)
    (hs' : Shows h' fb' r') (hw : r'.width = r.width) (hh : r'.height = r.height) :
    fb'.size = fb.size := by
  have hwidth : fb'.size.width = fb.size.width := by
    rw [← UInt32.toNat_inj, ← hs'.width, hw, hs.width]
  have hheight : fb'.size.height = fb.size.height := by
    rw [← UInt32.toNat_inj, ← hs'.height, hh, hs.height]
  rw [show fb'.size = ⟨fb'.size.width, fb'.size.height⟩ from rfl, hwidth, hheight]

/-- What the server has done with the frames, in terms of the framebuffer before. -/
theorem serve_agreeing {h : Memory} {fb : Fb} {cells : List UInt32} (hb : Backed h fb cells)
    (hsmall : fb.size.width.toNat * fb.size.height.toNat < 2 ^ 32)
    {fs : List (Address × RteMbuf)} (hfs : Received fs) (rgb : UInt32)
    (hrgb : ∀ x ∈ fs, (dotOf x.1).2.2 = rgb) :
    ∃ h' fb', serve (h, fb) (ops fs) = some (h', fb') ∧ fb'.size = fb.size ∧
      (∀ x y, x < fb.size.width → y < fb.size.height → fbGetPixel h' fb' x y =
        if (x.toNat, y.toNat) ∈ places (fs.map fun x => dotOf x.1) then some rgb
        else fbGetPixel h fb x y) ∧
      ((∀ x ∈ fs, (dotOf x.1).1 < fb.size.width.toNat ∧ (dotOf x.1).2.1 < fb.size.height.toNat) →
        fb'.pixelCounter = fb.pixelCounter + .ofNat fs.length) := by
  obtain ⟨r, hs, hw, hh, hdrawn⟩ := shows_of_backed hb hsmall
  obtain ⟨h', fb', hserve, hs'⟩ := serve_received hs hfs
  obtain ⟨hw', hh'⟩ := paint_size r (fs.map fun x => dotOf x.1)
  have hsize := size_of_shows hs hs' hw' hh'
  refine ⟨h', fb', hserve, hsize, ?_, ?_⟩
  · intro x y hx hy
    have hxr : x.toNat < r.width := hw ▸ UInt32.lt_iff_toNat_lt.mp hx
    have hyr : y.toNat < r.height := hh ▸ UInt32.lt_iff_toNat_lt.mp hy
    rw [fbGetPixel_shows hs' (hsize ▸ hx) (hsize ▸ hy), fbGetPixel_shows hs hx hy,
      colour_paint (c := fun _ _ => rgb) _ hxr hyr, apply_ite some]
    intro d hd
    obtain ⟨x, hx, rfl⟩ := List.mem_map.mp hd
    exact hrgb x hx
  · intro hin
    rw [hs'.counter, drawn_paint, hdrawn, List.length_map, UInt64.ofNat_add, UInt64.ofNat_toNat]
    intro d hd
    obtain ⟨x, hx, rfl⟩ := List.mem_map.mp hd
    rw [hw, hh]
    exact hin x hx

/-! ## A sweep of the DPDK client -/

/-- The pixel of packet `k`. -/
def pixelOf (k : Nat) : Nat × Nat := (100 + k % 801, 100 + k / 801 % 601)

/-- The frames carry packets of sweep `j`, each the packet with its number. -/
def FromSweep (packets : List Address) (j : Nat) (fs : List (Nat × RteMbuf)) : Prop :=
  ∀ f ∈ fs, f.1 / sweepSize = j ∧ ∃ dst, packets[f.1]? = some dst ∧ Carries f.2.frame dst

variable {mHead : Vector Mbuf BURST_SIZE} {rgb : UInt32}
  {owner : Lib.Ownership.Owners Mbuf Owner} {as : List Action} {s : State}

/-- **A sweep on its way**, to a server with a canvas wider than 900 and higher than 700
and all its cells. Of the packets of one sweep any may be lost, repeated or overtaken:
the server shows the colour of the sweep at the pixels of those that it has received,
and what it has shown before everywhere else; once all of them have been received, the
whole rectangle has this colour. -/
theorem sweep_delivered
    (hrun : (lcoreMain mHead rgb owner).run (lcoreMain mHead rgb owner).init as = some s)
    {h : Memory} {fb : Fb} {cells : List UInt32} (hb : Backed h fb cells)
    (hsmall : fb.size.width.toNat * fb.size.height.toNat < 2 ^ 32)
    (hwidth : 900 < fb.size.width.toNat) (hheight : 700 < fb.size.height.toNat) {j : Nat}
    {fs : List (Nat × RteMbuf)} (hfs : FromSweep (built s.trace) j fs) :
    ∃ h' fb', serve (h, fb) (fs.map fun f => .frame f.2) = some (h', fb') ∧
      fb'.size = fb.size ∧ fb'.pixelCounter = fb.pixelCounter + .ofNat fs.length ∧
      (∀ x y, x < fb.size.width → y < fb.size.height → fbGetPixel h' fb' x y =
        if (x.toNat, y.toNat) ∈ fs.map fun f => pixelOf f.1 then
          some (sweepColour rgb (rands as) j &&& (0xFFFFFF00 : UInt32))
        else fbGetPixel h fb x y) ∧
      ((∀ k, k / sweepSize = j → k ∈ fs.map Prod.fst) → ∀ x y : UInt32,
        100 ≤ x.toNat → x.toNat ≤ 900 → 100 ≤ y.toNat → y.toNat ≤ 700 → fbGetPixel h' fb' x y =
          some (sweepColour rgb (rands as) j &&& (0xFFFFFF00 : UInt32))) := by
  have hpackets := (covers_of_run hrun).packets
  have hpacket : ∀ f ∈ fs, f.1 / sweepSize = j ∧ Carries f.2.frame (packet rgb (rands as) f.1) := by
    intro f hf
    obtain ⟨hj, dst, hdst, hcarries⟩ := hfs f hf
    rw [hpackets, List.getElem?_map] at hdst
    obtain ⟨i, hi, rfl⟩ := Option.map_eq_some_iff.mp hdst
    obtain ⟨hk, rfl⟩ := List.getElem?_eq_some_iff.mp hi
    rw [List.getElem_range] at hcarries
    exact ⟨hj, hcarries⟩
  have hdot : ∀ k, dotOf (packet rgb (rands as) k) = (100 + k % 801, 100 + k / 801 % 601,
      sweepColour rgb (rands as) (k / sweepSize) &&& (0xFFFFFF00 : UInt32)) := by
    intro k
    obtain ⟨hx, hy, hrgb⟩ := decode_packet rgb (rands as) .dpdk k
    rw [dotOf, hx, hy, hrgb]
  have hreceived : Received (fs.map fun f => (packet rgb (rands as) f.1, f.2)) := by
    intro x hx
    obtain ⟨f, hf, rfl⟩ := List.mem_map.mp hx
    exact (hpacket f hf).2
  obtain ⟨h', fb', hserve, hsize, hpixel, hcounter⟩ := serve_agreeing hb hsmall hreceived
    (sweepColour rgb (rands as) j &&& (0xFFFFFF00 : UInt32)) (by
      intro x hx
      obtain ⟨f, hf, rfl⟩ := List.mem_map.mp hx
      rw [hdot, (hpacket f hf).1])
  have hplaces : places ((fs.map fun f => (packet rgb (rands as) f.1, f.2)).map fun x => dotOf x.1) =
      fs.map fun f => pixelOf f.1 := by
    simp [places, pixelOf, hdot, Function.comp_def]
  rw [hplaces] at hpixel
  rw [ops, List.map_map] at hserve
  refine ⟨h', fb', hserve, hsize, ?_, hpixel, ?_⟩
  · rw [hcounter, List.length_map]
    intro x hx
    obtain ⟨f, -, rfl⟩ := List.mem_map.mp hx
    rw [hdot]
    have h801 := Nat.mod_lt f.1 (show 0 < 801 by decide)
    have h601 := Nat.mod_lt (f.1 / 801) (show 0 < 601 by decide)
    dsimp only
    omega
  · intro hall x y hx hx' hy hy'
    obtain ⟨k, ⟨hkj, hkx, hky⟩, -⟩ := existsUnique_scan
      (show x.toNat - 100 < 801 by omega) (show y.toNat - 100 < 601 by omega) j
    have hxw : x < fb.size.width := UInt32.lt_iff_toNat_lt.mpr (by omega)
    have hyh : y < fb.size.height := UInt32.lt_iff_toNat_lt.mpr (by omega)
    rw [hpixel x y hxw hyh, if_pos]
    obtain ⟨f, hf, rfl⟩ := List.mem_map.mp (hall k hkj)
    apply List.mem_map.mpr
    refine ⟨f, hf, ?_⟩
    rw [pixelOf, hkx, hky, Prod.mk.injEq]
    omega

/-! A burst of 32 packets, of which the server receives two, one of them twice. -/

theorem frame_ofFrame (f : Frame) : (RteMbuf.ofFrame f).frame = f := by
  apply List.ext_getElem
  · simp [RteMbuf.ofFrame, RteMbuf.frame]
  · intro i _ hi
    simp [RteMbuf.ofFrame, RteMbuf.frame, Frame.byte, hi]

def outOfOrder : List (Nat × RteMbuf) := [3, 0, 3].map fun k =>
  (k, .ofFrame (Frame.frameTo (List.replicate 20 0xAA) (packet 0 (rands partialBurst) k)))

def largeFb : Fb := ⟨⟨1024, 768⟩, 0, 0, 0, 0⟩

theorem largeFb_backed : Backed (calloc ⟨[]⟩ (1024 * 768 : UInt32).toUInt64) largeFb
    (List.replicate (cellCount 1024 768) 0) :=
  ⟨(fbAlloc_spec (show fbAlloc ⟨[]⟩ 1024 768 true true 0 = (_, .ok largeFb) from rfl)).2.1,
    List.length_replicate⟩

theorem outOfOrder_fromSweep {s : State}
    (hrun : atStart.run atStart.init partialBurst = some s) :
    FromSweep (built s.trace) 0 outOfOrder := by
  intro f hf
  obtain ⟨k, hk, rfl⟩ := List.mem_map.mp hf
  have hlt : k < (rands partialBurst).length := by
    simp only [List.mem_cons, List.not_mem_nil, or_false] at hk
    rcases hk with rfl | rfl | rfl <;> decide
  refine ⟨Nat.div_eq_of_lt (Nat.lt_trans hlt (by decide)), packet 0 (rands partialBurst) k, ?_, ?_⟩
  · rw [(covers_of_run hrun).packets, List.getElem?_map, List.getElem?_range hlt]
    rfl
  · rw [frame_ofFrame]
    exact Frame.frameTo_carries rfl _

theorem sweep_delivered_out_of_order :
    ∃ s, atStart.run atStart.init partialBurst = some s ∧
      ∃ h' fb', serve (calloc ⟨[]⟩ (1024 * 768 : UInt32).toUInt64, largeFb)
          (outOfOrder.map fun f => .frame f.2) = some (h', fb') ∧
        fb'.size = largeFb.size ∧ fb'.pixelCounter = largeFb.pixelCounter + .ofNat 3 := by
  obtain ⟨s, hrun⟩ : ∃ s, atStart.run atStart.init partialBurst = some s :=
    Option.isSome_iff_exists.mp rfl
  obtain ⟨h', fb', hserve, hsize, hcounter, -⟩ := sweep_delivered hrun largeFb_backed (by decide)
    (by decide) (by decide) (outOfOrder_fromSweep hrun)
  exact ⟨s, hrun, h', fb', hserve, hsize, hcounter⟩

end Pixelflut.Client.Delivery
