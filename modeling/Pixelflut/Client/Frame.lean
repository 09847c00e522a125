import Mathlib.Data.List.GetD
import Pixelflut.Dpdk.Mbuf
import Pixelflut.Client.Mbufs

/-!
# The frames of the DPDK client

The stores that `lcore_main` makes into a packet buffer, and the frame that is sent
then. The payload length, the next header, the hop limit and the source address are not
written: the frame has there what the buffer held before.

* `buildPacket_eq`: the whole frame;
* `Carries`: a frame to an address, and what either server makes of it;
* `burst_frames`: the frames of a burst, from its allocation on.
-/

namespace Pixelflut.Client.Frame

open Lib.Batch Lib.Store
open Wire Network Framebuffer
open Pixelflut.Dpdk.Mbuf (Mbufs Addr rtePktmbufAppend rtePktmbufMtodOffset rtePktmbufAllocBulk)
open Pixelflut.Client.Mbufs (Sweep)

abbrev Mbuf := Dpdk.Mbuf.RteMbuf

/-- `htonl` on a little-endian machine. -/
def bswap32 (v : UInt32) : UInt32 :=
  (v &&& 0xFF) <<< 24 ||| (v &&& 0xFF00) <<< 8 ||| (v &&& 0xFF0000) >>> 8 ||| v >>> 24

/-- The bytes of a `uint16_t` as a little-endian machine stores it. -/
def bytes16 (v : UInt16) : List UInt8 := [v.toUInt8, (v >>> 8).toUInt8]

def bytes32 (v : UInt32) : List UInt8 :=
  [v.toUInt8, (v >>> 8).toUInt8, (v >>> 16).toUInt8, (v >>> 24).toUInt8]

def daddr : List UInt8 := [0xf8, 0xb1, 0x56, 0xc0, 0x37, 0xba]

def saddr : List UInt8 := [0x28, 0xf1, 0x0e, 0x26, 0x3d, 0xc7]

/-- The stores of the loop body, with the offset that `rte_pktmbuf_append` returned. -/
def writeHeaders (m : Mbuf) (ethHdr : Nat) (v : Sweep) : Mbuf :=
  let buf := store m.buf (ethHdr + etherTypeOffset) (bytes16 (bswap16 ETHER_TYPE_IPv6))
  let buf := store buf (ethHdr + 6) saddr
  let buf := store buf ethHdr daddr
  let ipv6Hdr := rtePktmbufMtodOffset m etherHdrLen
  let buf := store buf ipv6Hdr (bytes32 (bswap32 ((6 : UInt32) <<< 28)))
  let buf := store buf (ipv6Hdr + dstOffset) (lcoreMainAddr v.x v.y v.rgb).toList
  { m with buf }

/-- The loop body on a packet of one segment; `none` when it writes through a null
pointer. -/
def buildPacket (v : Sweep) (m : Mbuf) : Option Mbuf :=
  (rtePktmbufAppend m (.ofNat (etherHdrLen + ipv6HdrLen))).map fun r => writeHeaders r.1 r.2 v

/-- The frame to `dst`; `stale` is what is between the two addresses. -/
def frameTo (stale : List UInt8) (dst : Address) : Frame :=
  daddr ++ saddr ++ [0x86, 0xDD] ++ [0x60, 0, 0, 0] ++ stale ++ dst.toList

theorem read_headers (b : Nat → UInt8) {addr : List UInt8} (haddr : addr.length = 16) :
    read (store (store (store (store (store b 140 [0x86, 0xDD]) 134 saddr) 128 daddr) 142
      [0x60, 0, 0, 0]) 166 addr) 128 54 =
        daddr ++ saddr ++ [0x86, 0xDD] ++ [0x60, 0, 0, 0] ++ read b 146 20 ++ addr := by
  have hd : daddr.length = 6 := rfl
  have hs : saddr.length = 6 := rfl
  rw [show 54 = 6 + 6 + 2 + 4 + 20 + 16 from rfl, read_add, read_add, read_add, read_add, read_add,
    read_store _ _ 166 haddr]
  simp (disch := simp [hd, hs]) only [read_store_apart, read_store, Nat.reduceAdd]

/-- **The whole frame.** -/
theorem buildPacket_eq {m : Mbuf} (h : m.Ready) (hroom : 182 ≤ m.bufLen.toNat) (v : Sweep) :
    ∃ m', buildPacket v m = some m' ∧
      m'.data = frameTo (read m.buf 146 20) (lcoreMainAddr v.x v.y v.rgb) := by
  obtain ⟨hoff, happend⟩ := h.append (.ofNat (etherHdrLen + ipv6HdrLen)) hroom
  refine ⟨_, by rw [buildPacket, happend]; rfl, ?_⟩
  rw [Dpdk.Mbuf.RteMbuf.data]
  simp only [writeHeaders, rtePktmbufMtodOffset, hoff]
  exact read_headers m.buf Vector.length_toList

/-! ## What a server makes of it -/

/-- The frame is sent to `dst`, whatever else it holds. -/
structure Carries (f : Frame) (dst : Address) : Prop where
  length : etherHdrLen + ipv6HdrLen ≤ f.length
  ipv6 : IsIPv6 f.byte
  byte : ∀ i < 16, Wire.dst f.byte i = dst.byte i

theorem frameTo_carries {stale : List UInt8} (hstale : stale.length = 20) (dst : Address) :
    Carries (frameTo stale dst) dst := by
  have hfront : (daddr ++ saddr ++ [0x86, 0xDD] ++ [0x60, 0, 0, 0] ++ stale).length = 38 := by
    simp [daddr, saddr, hstale]
  refine ⟨?_, ⟨rfl, rfl⟩, ?_⟩
  · simp [frameTo, daddr, saddr, hstale, etherHdrLen, ipv6HdrLen]
  · intro i hi
    show (frameTo stale dst).getD (38 + i) 0 = dst.byte i
    rw [frameTo, List.getD_append_right _ _ _ _ (by rw [hfront]; omega), hfront,
      Nat.add_sub_cancel_left]
    simp [Address.byte, Vector.getD, Array.getD, hi]

/-- The pixel is that of the address. -/
theorem Carries.pixel {f : Frame} {dst : Address} (h : Carries f dst) (r : Receiver) :
    f.HasHeaders ∧ column f.byte = (r.decode dst).x.toNat ∧ row f.byte = (r.decode dst).y.toNat ∧
      colour f.byte = (r.decode dst).rgb := by
  have hlen := h.length
  refine ⟨⟨Nat.le_trans (by decide) hlen, fun _ => hlen⟩, ?_, ?_, ?_⟩
  · rw [decode_x, column, h.byte 8 (by decide), h.byte 9 (by decide)]
  · rw [decode_y, row, h.byte 10 (by decide), h.byte 11 (by decide)]
  · rw [← UInt32.toNat_inj, decode_rgb, colour_toNat, h.byte 12 (by decide),
      h.byte 13 (by decide), h.byte 14 (by decide)]

/-- What a frame says of the pixel that it was built for. -/
structure Says (f : Frame) (v : Sweep) : Prop where
  headers : f.HasHeaders
  ipv6 : IsIPv6 f.byte
  column : (column f.byte : Int) = v.x.toInt % 2 ^ 16
  row : (row f.byte : Int) = v.y.toInt % 2 ^ 16
  colour : colour f.byte = v.rgb &&& (0xFFFFFF00 : UInt32)

theorem Carries.says {f : Frame} {v : Sweep} (h : Carries f (lcoreMainAddr v.x v.y v.rgb)) :
    Says f v := by
  obtain ⟨hheaders, hcolumn, hrow, hcolour⟩ := h.pixel .dpdk
  obtain ⟨hx, hy, hrgb⟩ := decode_encode .dpdk .dpdk v.x v.y v.rgb
  exact ⟨hheaders, h.ipv6, hcolumn ▸ hx, hrow ▸ hy, hcolour.trans hrgb⟩

/-- A packet buffer of DPDK, as `dpdk_thread` reads it. -/
def received (m : Mbuf) : RteMbuf := ⟨fun i => m.buf (rtePktmbufMtodOffset m i), m.dataLen.toNat⟩

theorem received_frame (m : Mbuf) : (received m).frame = m.data := rfl

/-- **The loop body of the server** on a buffer that holds the frame of a pixel. -/
theorem Says.drawn {m : Mbuf} {v : Sweep} (h : Says m.data v) (mem : Memory) (fb : Fb) :
    dpdkThreadBody mem fb (received m) =
      fbSetPixel mem fb (.ofNat (v.x.toInt % 2 ^ 16).toNat) (.ofNat (v.y.toInt % 2 ^ 16).toNat)
        (v.rgb &&& (0xFFFFFF00 : UInt32)) := by
  obtain ⟨htype, hdecode⟩ := (received m).decode_frame h.headers
  have h6 : IsIPv6 (received m).data := htype.mpr h.ipv6
  obtain ⟨hcolumn, hrow, hcolour⟩ := hdecode h6
  rw [received_frame] at hcolumn hrow hcolour
  rw [dpdkThreadBody_eq, if_pos h6, hcolumn, hrow, hcolour, ← h.column, ← h.row, h.colour,
    Int.toNat_natCast, Int.toNat_natCast]

/-! ## A burst -/

/-- The loop over `m_head`; `rands` is what `rand()` answers after each packet, if it is
called. -/
def buildBurst (ms : Mbufs) (mHead : List Addr) (rands : List UInt32) (v : Sweep) :
    Option (Mbufs × Sweep) :=
  batch buildPacket Sweep.next (mHead.zip rands) (ms, v)

/-- The counters before the packet `k` of a burst. -/
def sweepBefore (v : Sweep) (rands : List UInt32) (k : Nat) : Sweep :=
  (rands.take k).foldl Sweep.next v

/-- Buffers that hold what the last packets left, as far as they were written. -/
def usedBefore : Mbufs := fun m => ⟨fun i => .ofNat (m + i), 2176, 0, 1, 1, 0, 60, 60, none⟩

theorem usedBefore_raw (m : Addr) (_ : m ∈ [7, 5, 9]) :
    (usedBefore m).Raw ∧ 182 ≤ (usedBefore m).bufLen.toNat :=
  ⟨⟨rfl, rfl, rfl⟩, show 182 ≤ 2176 by decide⟩

end Pixelflut.Client.Frame
