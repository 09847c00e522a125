import Pixelflut.Wire
import Pixelflut.Lib.RowMajor

/-!
# The XDP program of `xdp_pixelflut.c`

A frame is the bytes between `data` and `data_end`. Reads are checked: the
program returns `none` when it would read a byte at or past `data_end`. The
BPF array map is not code of this repository; `BpfArrayMap` states what the
program relies on.

`xdpPixelflut_eq` is the whole program in one equation.
-/

namespace Pixelflut.Xdp

open Lib.Bytes Lib.RowMajor Wire

def WIDTH : UInt32 := 1280

def HEIGHT : UInt32 := 720

/-- `XDP_DROP` of `enum xdp_action`. -/
def XDP_DROP : Nat := 1

/-- `max_entries` of the map `framebuffer`. -/
def maxEntries : Nat := (WIDTH * HEIGHT).toNat

/-- An array map with `u32` keys and values: `bpf_map_update_elem` with
`BPF_ANY` stores at a key below `max_entries` and fails on any other key. -/
structure BpfArrayMap where
  Map : Type
  lookup : Map → UInt32 → Option UInt32
  bpfMapUpdateElem : Map → UInt32 → UInt32 → Map
  lookup_update : ∀ (map : Map) (k v k' : UInt32), k.toNat < maxEntries →
    lookup (bpfMapUpdateElem map k v) k' = if k' = k then some v else lookup map k'
  update_of_le : ∀ (map : Map) (k v : UInt32), maxEntries ≤ k.toNat → bpfMapUpdateElem map k v = map

/-- The `n` bytes at offset `off`, when they lie before `data_end`. -/
def read (frame : Frame) (off n : Nat) : Option (Nat → UInt8) :=
  if off + n ≤ frame.length then some fun i => frame.byte (off + i) else none

/-- The disjunction of bytes 8 and 9, as the `u32` that it is assigned to. -/
def xdpX (dst : Nat → UInt8) : UInt32 := ((promote (dst 8) <<< 8) ||| promote (dst 9)).toUInt32

def xdpY (dst : Nat → UInt8) : UInt32 := ((promote (dst 10) <<< 8) ||| promote (dst 11)).toUInt32

def xdpRgb (dst : Nat → UInt8) : UInt32 :=
  ((promote (dst 12) <<< 24) ||| (promote (dst 13) <<< 16) ||| (promote (dst 14) <<< 8)).toUInt32

/-- `xdp_pixelflut`: the map afterwards and the action. -/
def xdpPixelflut (A : BpfArrayMap) (framebuffer : A.Map) (frame : Frame) : Option (A.Map × Nat) :=
  let nhOff := etherHdrLen
  if nhOff > frame.length then some (framebuffer, XDP_DROP)
  else (read frame etherTypeOffset 2).bind fun hProto =>
    if load16 (hProto 0) (hProto 1) = bswap16 ETHER_TYPE_IPv6 then
      if nhOff + ipv6HdrLen > frame.length then some (framebuffer, XDP_DROP)
      else (read frame (nhOff + dstOffset) 16).bind fun dst =>
        let x := xdpX dst
        let y := xdpY dst
        let rgb := xdpRgb dst
        if x ≥ WIDTH || y ≥ HEIGHT then some (framebuffer, XDP_DROP)
        else
          let index := x + y * WIDTH
          some (A.bpfMapUpdateElem framebuffer index rgb, XDP_DROP)
    else some (framebuffer, XDP_DROP)

/-! ## What the program does -/

theorem xdpX_eq (b : Nat → UInt8) : xdpX (dst b) = .ofNat (column b) := by
  rw [← UInt32.ofNat_toNat (x := xdpX (dst b))]
  exact congrArg UInt32.ofNat (or16_toNat (dst b 8) (dst b 9))

theorem xdpY_eq (b : Nat → UInt8) : xdpY (dst b) = .ofNat (row b) := by
  rw [← UInt32.ofNat_toNat (x := xdpY (dst b))]
  exact congrArg UInt32.ofNat (or16_toNat (dst b 10) (dst b 11))

theorem xdpRgb_eq (b : Nat → UInt8) : xdpRgb (dst b) = colour b := rfl

/-- The frame draws a pixel of the map. -/
def Draws (f : Frame) : Prop :=
  f.HasHeaders ∧ IsIPv6 f.byte ∧ UInt32.ofNat (column f.byte) < WIDTH ∧
    UInt32.ofNat (row f.byte) < HEIGHT

instance (f : Frame) : Decidable (Draws f) := inferInstanceAs (Decidable (_ ∧ _))

/-- The key of the pixel that the frame draws. -/
def key (f : Frame) : UInt32 := .ofNat (column f.byte) + .ofNat (row f.byte) * WIDTH

theorem read_eq {frame : Frame} {off n : Nat} (h : off + n ≤ frame.length) :
    read frame off n = some fun i => frame.byte (off + i) :=
  if_pos h

/-- **The program, in terms of the protocol.** -/
theorem xdpPixelflut_eq (A : BpfArrayMap) (framebuffer : A.Map) (frame : Frame) :
    xdpPixelflut A framebuffer frame =
      some (if Draws frame then A.bpfMapUpdateElem framebuffer (key frame) (colour frame.byte)
        else framebuffer, XDP_DROP) := by
  unfold xdpPixelflut
  by_cases heth : etherHdrLen ≤ frame.length
  case neg =>
    rw [if_pos (Nat.not_le.mp heth), if_neg fun hd => heth hd.1.1]
  have hproto : etherTypeOffset + 2 ≤ frame.length := heth
  rw [if_neg (Nat.not_lt.mpr heth), read_eq hproto, Option.bind_some]
  beta_reduce
  have htype := etherType_eq_iff (frame.byte (etherTypeOffset + 0)) (frame.byte (etherTypeOffset + 1))
  by_cases h6 : IsIPv6 frame.byte
  case neg =>
    rw [if_neg fun h => h6 (htype.mp h), if_neg fun hd => h6 hd.2.1]
  rw [if_pos (htype.mpr h6)]
  by_cases hip : etherHdrLen + ipv6HdrLen ≤ frame.length
  case neg =>
    rw [if_pos (Nat.not_le.mp hip), if_neg fun hd => hip (hd.1.2 h6)]
  have haddr : etherHdrLen + dstOffset + 16 ≤ frame.length := hip
  rw [if_neg (Nat.not_lt.mpr hip), read_eq haddr, Option.bind_some]
  show (if xdpX (dst frame.byte) ≥ WIDTH || xdpY (dst frame.byte) ≥ HEIGHT then
    some (framebuffer, XDP_DROP) else some (A.bpfMapUpdateElem framebuffer
      (xdpX (dst frame.byte) + xdpY (dst frame.byte) * WIDTH) (xdpRgb (dst frame.byte)),
        XDP_DROP)) = _
  rw [xdpX_eq, xdpY_eq, xdpRgb_eq]
  by_cases hin : UInt32.ofNat (column frame.byte) < WIDTH ∧ UInt32.ofNat (row frame.byte) < HEIGHT
  case neg =>
    rw [if_pos ((outside_iff _ _ _ _).mpr hin), if_neg fun hd => hin hd.2.2]
  rw [if_neg fun hout => (outside_iff _ _ _ _).mp hout hin, if_pos ⟨⟨heth, fun _ => hip⟩, h6, hin⟩]
  rfl

/-- The key of a drawing is the row-major index of its pixel. -/
theorem key_toNat {f : Frame} (hf : Draws f) :
    (key f).toNat = index WIDTH.toNat (UInt32.ofNat (column f.byte)).toNat
      (UInt32.ofNat (row f.byte)).toNat := by
  rw [key, UInt32.add_comm]
  exact index_toNat_of_lt (by decide) hf.2.2.1 hf.2.2.2

theorem key_lt {f : Frame} (hf : Draws f) : (key f).toNat < maxEntries := by
  rw [key_toNat hf]
  exact index_lt (UInt32.lt_iff_toNat_lt.mp hf.2.2.1) (UInt32.lt_iff_toNat_lt.mp hf.2.2.2)

end Pixelflut.Xdp
