import Pixelflut.Wire
import Pixelflut.Framebuffer.Basic

/-!
# The receive loop of `network.c`

`dpdkThreadBody` is what `dpdk_thread` does with one received packet buffer.
It looks at fixed offsets of the buffer only, never at `data_len`: the bytes
behind the frame are whatever the buffer held before.

`dpdkThreadBody_eq` states the body in terms of the protocol; the coordinates
and the colour are computed there with promoted bytes, where `dst[12] << 24`
is taken to wrap into the sign bit.
-/

namespace Pixelflut.Network

open Lib.Bytes Wire Framebuffer

def RX_BURST_SIZE : Nat := 2048

/-- `nr_queues`. -/
def nrQueues : UInt16 := 1

def SIGINT : Int := 2

def SIGTERM : Int := 15

/-- What `signal_handler` leaves in `force_quit`. -/
def signalHandler (signum : Int) (forceQuit : Bool) : Bool :=
  if signum = SIGINT ∨ signum = SIGTERM then true else forceQuit

/-- A packet buffer as `dpdk_thread` reads it: `data` from `rte_pktmbuf_mtod` on,
`dataLen` bytes of it received. The other fields of `struct rte_mbuf` are in the
`RteMbuf` of `Pixelflut.Dpdk.Mbuf`; `Client.Frame.received` makes the one of the other. -/
structure RteMbuf where
  data : Nat → UInt8
  dataLen : Nat

/-- The received bytes. -/
def RteMbuf.frame (m : RteMbuf) : Frame := (List.range m.dataLen).map m.data

/-- A buffer that holds the frame `f` and zeros behind it. -/
def RteMbuf.ofFrame (f : Frame) : RteMbuf := ⟨f.byte, f.length⟩

/-- `eth_hdr->ether_type`. -/
def etherType (m : RteMbuf) : UInt16 :=
  load16 (m.data etherTypeOffset) (m.data (etherTypeOffset + 1))

/-- `(dst[8] << 8) + dst[9]`, as the `uint16_t` that it is assigned to. -/
def dpdkX (dst : Nat → UInt8) : UInt16 := ((promote (dst 8) <<< 8) + promote (dst 9)).toUInt32.toUInt16

/-- `(dst[10] << 8) + dst[11]`. -/
def dpdkY (dst : Nat → UInt8) : UInt16 := ((promote (dst 10) <<< 8) + promote (dst 11)).toUInt32.toUInt16

/-- `(dst[12] << 24) + (dst[13] << 16) + (dst[14] << 8)`. -/
def dpdkRgb (dst : Nat → UInt8) : UInt32 :=
  ((promote (dst 12) <<< 24) + (promote (dst 13) <<< 16) + (promote (dst 14) <<< 8)).toUInt32

/-- The loop body of `dpdk_thread`. -/
def dpdkThreadBody (h : Memory) (fb : Fb) (m : RteMbuf) : Option (Memory × Fb) :=
  if etherType m = bswap16 ETHER_TYPE_IPv6 then
    let dst := fun i => m.data (etherHdrLen + dstOffset + i)
    let x := dpdkX dst
    let y := dpdkY dst
    let rgb := dpdkRgb dst
    fbSetPixel h fb x.toUInt32 y.toUInt32 rgb
  else
    -- An IPv4 header is located but not read; any other type is printed.
    some (h, fb)

/-! ## Decoding -/

theorem coord_toNat (a b : UInt8) :
    ((promote a <<< 8) + promote b).toUInt32.toUInt16.toUInt32.toNat =
      a.toNat * 2 ^ 8 + b.toNat := by
  have ha := a.toNat_lt
  have hb := b.toNat_lt
  rw [UInt16.toNat_toUInt32, UInt32.toNat_toUInt16, sum16_toNat]
  exact Nat.mod_eq_of_lt (by omega)

theorem dpdkX_toNat (b : Nat → UInt8) : (dpdkX (dst b)).toUInt32.toNat = column b :=
  coord_toNat (dst b 8) (dst b 9)

theorem dpdkY_toNat (b : Nat → UInt8) : (dpdkY (dst b)).toUInt32.toNat = row b :=
  coord_toNat (dst b 10) (dst b 11)

theorem dpdkRgb_eq (b : Nat → UInt8) : dpdkRgb (dst b) = colour b := by
  rw [← UInt32.toNat_inj, colour_toNat]
  exact sum32_toNat (dst b 12) (dst b 13) (dst b 14)

/-- **The loop body, in terms of the protocol.** -/
theorem dpdkThreadBody_eq (h : Memory) (fb : Fb) (m : RteMbuf) :
    dpdkThreadBody h fb m =
      if IsIPv6 m.data then
        fbSetPixel h fb (.ofNat (column m.data)) (.ofNat (row m.data)) (colour m.data)
      else some (h, fb) := by
  have hx : (dpdkX (dst m.data)).toUInt32 = .ofNat (column m.data) := by
    rw [← dpdkX_toNat, UInt32.ofNat_toNat]
  have hy : (dpdkY (dst m.data)).toUInt32 = .ofNat (row m.data) := by
    rw [← dpdkY_toNat, UInt32.ofNat_toNat]
  rw [← hx, ← hy, ← dpdkRgb_eq]
  exact ite_congr (propext (etherType_eq_iff _ _)) (fun _ => rfl) fun _ => rfl

theorem column_toNat (b : Nat → UInt8) : (UInt32.ofNat (column b)).toNat = column b := by
  rw [← dpdkX_toNat, UInt32.ofNat_toNat]

theorem row_toNat (b : Nat → UInt8) : (UInt32.ofNat (row b)).toNat = row b := by
  rw [← dpdkY_toNat, UInt32.ofNat_toNat]

/-! ## The frame in its buffer -/

theorem RteMbuf.frame_length (m : RteMbuf) : m.frame.length = m.dataLen := by
  simp [frame]

/-- The buffer holds the frame. -/
theorem RteMbuf.data_eq_byte {m : RteMbuf} {i : Nat} (hi : i < m.frame.length) :
    m.data i = m.frame.byte i := by
  rw [frame_length] at hi
  simp [frame, Frame.byte, hi]

/-- When the frame has its headers, the buffer decodes as the frame does. -/
theorem RteMbuf.decode_frame {m : RteMbuf} (hm : m.frame.HasHeaders) :
    (IsIPv6 m.data ↔ IsIPv6 m.frame.byte) ∧
      (IsIPv6 m.data → column m.data = column m.frame.byte ∧ row m.data = row m.frame.byte ∧
        colour m.data = colour m.frame.byte) := by
  obtain ⟨heth, hip⟩ := hm
  have htype : IsIPv6 m.data ↔ IsIPv6 m.frame.byte := by
    rw [IsIPv6, IsIPv6, data_eq_byte (Nat.lt_of_lt_of_le (by decide) heth),
      data_eq_byte (Nat.lt_of_lt_of_le (by decide) heth)]
  refine ⟨htype, fun h6 => ?_⟩
  have hlen : 54 ≤ m.frame.length := hip (htype.mp h6)
  exact (header_congr fun i hi => data_eq_byte (by omega)).2

end Pixelflut.Network
