import Pixelflut.Network.Basic

/-!
# Stale bytes behind a short frame

The receive loop reads up to byte 52 of a packet buffer without a look at
`data_len`, so a short frame is completed by what the buffer held before.
`stale_bytes_iff` says for which frames this matters: exactly for those shorter
than 53 bytes that some content of the buffer completes to a drawing inside
the canvas. `leastBuffer` is the completion with the least coordinates, which
decides that.
-/

namespace Pixelflut.Network

open Wire Framebuffer Lib.BlockHeap

/-- The pixels and `pixelCounter` after the loop body. -/
def canvas (h : Memory) (fb : Fb) (m : RteMbuf) : Option (List UInt32 × UInt64) :=
  (dpdkThreadBody h fb m).bind fun s =>
    (s.1.block s.2.pixels).map fun cells => (cells, s.2.pixelCounter)

/-- The frame `f` in a buffer that held zeros, but for the EtherType of IPv6
and the byte `blue` of the colour. -/
def leastBuffer (f : Frame) (blue : UInt8) : RteMbuf where
  data i :=
    if i < f.length then f.byte i
    else if i = etherTypeOffset then 0x86
    else if i = etherTypeOffset + 1 then 0xDD
    else if i = 52 then blue
    else 0
  dataLen := f.length

/-- Some content of the buffer makes the frame draw inside the canvas. -/
def MayDraw (fb : Fb) (f : Frame) : Prop :=
  IsIPv6 (leastBuffer f 0).data ∧ column (leastBuffer f 0).data < fb.size.width.toNat ∧
    row (leastBuffer f 0).data < fb.size.height.toNat

instance (fb : Fb) (f : Frame) : Decidable (MayDraw fb f) := inferInstanceAs (Decidable (_ ∧ _))

theorem data_of_frame {m : RteMbuf} {f : Frame} (hm : m.frame = f) {i : Nat} (hi : i < f.length) :
    m.data i = f.byte i := by
  subst hm
  exact RteMbuf.data_eq_byte hi

theorem leastBuffer_frame (f : Frame) (blue : UInt8) : (leastBuffer f blue).frame = f := by
  apply List.ext_getElem
  · exact RteMbuf.frame_length _
  · intro i hi hf
    simp [RteMbuf.frame, leastBuffer, Frame.byte, hf]

/-- The byte `blue` is behind the coordinates. -/
theorem leastBuffer_congr (f : Frame) (blue : UInt8) {i : Nat} (hi : i ≠ 52) :
    (leastBuffer f blue).data i = (leastBuffer f 0).data i := by
  simp only [leastBuffer, if_neg hi]

theorem leastBuffer_decode (f : Frame) (blue : UInt8) :
    (IsIPv6 (leastBuffer f blue).data ↔ IsIPv6 (leastBuffer f 0).data) ∧
      column (leastBuffer f blue).data = column (leastBuffer f 0).data ∧
      row (leastBuffer f blue).data = row (leastBuffer f 0).data := by
  refine ⟨?_, ?_, ?_⟩
  · rw [IsIPv6, IsIPv6, leastBuffer_congr f blue (by decide), leastBuffer_congr f blue (by decide)]
  · rw [column, column, dst, dst, leastBuffer_congr f blue (by decide),
      leastBuffer_congr f blue (by decide), dst, dst]
  · rw [row, row, dst, dst, leastBuffer_congr f blue (by decide),
      leastBuffer_congr f blue (by decide), dst, dst]

/-- No other content of the buffer gives smaller bytes of a coordinate. -/
theorem leastBuffer_dst_le {m : RteMbuf} {f : Frame} (hm : m.frame = f) {i : Nat} (hi : i < 14) :
    (dst (leastBuffer f 0).data i).toNat ≤ (dst m.data i).toNat := by
  by_cases hlt : etherHdrLen + dstOffset + i < f.length
  · rw [dst, dst, data_of_frame (leastBuffer_frame f 0) hlt, data_of_frame hm hlt]
  · have hzero : dst (leastBuffer f 0).data i = 0 := by
      simp only [dst, leastBuffer]
      rw [if_neg hlt, if_neg, if_neg, if_neg]
      all_goals simp only [etherHdrLen, dstOffset, etherTypeOffset]; omega
    rw [hzero]
    exact Nat.zero_le _

/-- A frame that draws from some buffer draws from the least one. -/
theorem mayDraw_of_draws {fb : Fb} {m : RteMbuf} {f : Frame} (hm : m.frame = f)
    (h6 : IsIPv6 m.data) (hx : column m.data < fb.size.width.toNat)
    (hy : row m.data < fb.size.height.toNat) : MayDraw fb f := by
  have hbyte : ∀ i, i < f.length → (leastBuffer f 0).data i = m.data i := fun i hi => by
    rw [data_of_frame (leastBuffer_frame f 0) hi, data_of_frame hm hi]
  refine ⟨⟨?_, ?_⟩, ?_, ?_⟩
  · by_cases hlt : etherTypeOffset < f.length
    · rw [hbyte _ hlt, h6.1]
    · simp only [leastBuffer, if_neg hlt, ↓reduceIte]
  · by_cases hlt : etherTypeOffset + 1 < f.length
    · rw [hbyte _ hlt, h6.2]
    · rw [leastBuffer]
      simp only [if_neg hlt]
      rfl
  · refine Nat.lt_of_le_of_lt (Nat.add_le_add (Nat.mul_le_mul_right _ ?_) ?_) hx
    · exact leastBuffer_dst_le hm (by decide)
    · exact leastBuffer_dst_le hm (by decide)
  · refine Nat.lt_of_le_of_lt (Nat.add_le_add (Nat.mul_le_mul_right _ ?_) ?_) hy
    · exact leastBuffer_dst_le hm (by decide)
    · exact leastBuffer_dst_le hm (by decide)

/-- Without a drawing the loop body does nothing. -/
theorem dpdkThreadBody_of_not_mayDraw (h : Memory) {fb : Fb} {m : RteMbuf} {f : Frame}
    (hm : m.frame = f) (hf : ¬MayDraw fb f) : dpdkThreadBody h fb m = some (h, fb) := by
  rw [dpdkThreadBody_eq]
  split
  case isTrue h6 =>
    apply fbSetPixel_outside
    rintro ⟨hx, hy⟩
    rw [UInt32.lt_iff_toNat_lt, column_toNat] at hx
    rw [UInt32.lt_iff_toNat_lt, row_toNat] at hy
    exact hf (mayDraw_of_draws hm h6 hx hy)
  case isFalse => rfl

/-- A drawing writes the colour into one cell of the block. -/
theorem canvas_of_draws {h : Memory} {fb : Fb} {cells : List UInt32} (hb : Backed h fb cells)
    {m : RteMbuf} (h6 : IsIPv6 m.data) (hx : column m.data < fb.size.width.toNat)
    (hy : row m.data < fb.size.height.toNat) :
    (UInt32.ofNat (row m.data) * fb.size.width + .ofNat (column m.data)).toNat < cells.length ∧
      canvas h fb m = some
        (cells.set (UInt32.ofNat (row m.data) * fb.size.width + .ofNat (column m.data)).toNat
          (colour m.data), fb.pixelCounter + 1) := by
  have hx' : UInt32.ofNat (column m.data) < fb.size.width := by
    rw [UInt32.lt_iff_toNat_lt, column_toNat]
    exact hx
  have hy' : UInt32.ofNat (row m.data) < fb.size.height := by
    rw [UInt32.lt_iff_toNat_lt, row_toNat]
    exact hy
  obtain ⟨h', hset, -, hblock, -⟩ := hb.fbSetPixel (colour m.data) hx' hy'
  refine ⟨hb.index_lt hx' hy', ?_⟩
  rw [canvas, dpdkThreadBody_eq, if_pos h6, hset]
  simp only [Option.bind_some, hblock, Option.map_some]

/-- The byte `blue` shows in the colour when it is behind the frame. -/
theorem leastBuffer_colour_ne {f : Frame} (hf : f.length ≤ 52) :
    colour (leastBuffer f 0).data ≠ colour (leastBuffer f 1).data := by
  have hblue : ∀ blue, dst (leastBuffer f blue).data 14 = blue := fun blue => by
    show (leastBuffer f blue).data 52 = blue
    simp only [leastBuffer, if_neg (Nat.not_lt.mpr hf)]
    rfl
  have hred : dst (leastBuffer f 1).data 12 = dst (leastBuffer f 0).data 12 :=
    leastBuffer_congr f 1 (by decide)
  have hgreen : dst (leastBuffer f 1).data 13 = dst (leastBuffer f 0).data 13 :=
    leastBuffer_congr f 1 (by decide)
  intro heq
  have hnat := congrArg UInt32.toNat heq
  rw [colour_toNat, colour_toNat, hred, hgreen, hblue, hblue] at hnat
  exact absurd (Nat.add_left_cancel hnat) (by decide)

/-- **When stale bytes cannot matter.** -/
theorem stale_bytes_iff {h : Memory} {fb : Fb} {cells : List UInt32} (hb : Backed h fb cells)
    (f : Frame) :
    (∀ m m' : RteMbuf, m.frame = f → m'.frame = f → canvas h fb m = canvas h fb m') ↔
      53 ≤ f.length ∨ ¬MayDraw fb f := by
  constructor
  · intro hsame
    by_contra hcond
    obtain ⟨hshort, hmay⟩ := not_or.mp hcond
    obtain ⟨h6, hx, hy⟩ := not_not.mp hmay
    obtain ⟨h6₁, hx₁, hy₁⟩ := leastBuffer_decode f 1
    obtain ⟨hlt, hc⟩ := canvas_of_draws hb h6 hx hy
    obtain ⟨-, hc₁⟩ := canvas_of_draws hb (h6₁.mpr h6) (hx₁ ▸ hx) (hy₁ ▸ hy)
    -- both buffers draw the same pixel, in different colours
    have heq := hsame _ _ (leastBuffer_frame f 0) (leastBuffer_frame f 1)
    rw [hc, hc₁, hx₁, hy₁, Option.some.injEq, Prod.mk.injEq] at heq
    have hcell := congrArg (fun l => l[(UInt32.ofNat (row (leastBuffer f 0).data) *
      fb.size.width + .ofNat (column (leastBuffer f 0).data)).toNat]?) heq.1
    simp only [List.getElem?_set_self hlt, Option.some.injEq] at hcell
    exact leastBuffer_colour_ne (by omega) hcell
  · rintro (hlong | hnot) m m' hm hm'
    · have hdata : ∀ i < 53, m.data i = m'.data i := fun i hi => by
        rw [data_of_frame hm (by omega), data_of_frame hm' (by omega)]
      obtain ⟨h6, hcolumn, hrow, hcolour⟩ := header_congr hdata
      rw [canvas, canvas, dpdkThreadBody_eq, dpdkThreadBody_eq, hcolumn, hrow, hcolour]
      simp only [h6]
    · rw [canvas, canvas, dpdkThreadBody_of_not_mayDraw h hm hnot,
        dpdkThreadBody_of_not_mayDraw h hm' hnot]

/-- A 1×1 canvas and its memory. -/
def unitMemory : Memory := ⟨[some [0]]⟩

def unitFb : Fb := ⟨⟨1, 1⟩, 0, 0, 0, 0⟩

/-- A frame that is an Ethernet header for IPv6 and nothing else. -/
def bareHeader : Frame := List.replicate 12 0 ++ [0x86, 0xDD]

theorem stale_bytes_iff_of_full_header :
    53 ≤ (bareHeader ++ List.replicate 40 0).length ∧
      ∀ m m' : RteMbuf, m.frame = bareHeader ++ List.replicate 40 0 →
        m'.frame = bareHeader ++ List.replicate 40 0 →
        canvas unitMemory unitFb m = canvas unitMemory unitFb m' :=
  ⟨by decide, (@stale_bytes_iff _ _ [0] ⟨rfl, rfl⟩ _).mpr (.inl (by decide))⟩

/-- The bare header draws a pixel whose colour was in the buffer before. -/
theorem stale_bytes_of_bare_header :
    ¬∀ (h : Memory) (fb : Fb) (cells : List UInt32), Backed h fb cells →
      ∀ m m' : RteMbuf, m.dataLen = m'.dataLen → (∀ i < m.dataLen, m.data i = m'.data i) →
        canvas h fb m = canvas h fb m' := by
  intro hclaim
  have heq := hclaim unitMemory unitFb [0] ⟨rfl, rfl⟩ (leastBuffer bareHeader 0)
    (leastBuffer bareHeader 1) rfl (by decide)
  exact absurd heq (by decide)

end Pixelflut.Network
