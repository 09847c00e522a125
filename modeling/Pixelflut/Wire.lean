import Pixelflut.Lib.Bytes
import Mathlib.Data.List.Basic

/-!
# Frames on the wire

What both servers are sent, in terms of the protocol: an Ethernet frame whose
IPv6 destination address holds two big-endian coordinates and a colour. The
byte order of the machine is little-endian, as `load16` and `bswap16` have it.

`etherType_eq_iff` turns the comparison that both servers make into one of
wire bytes.
-/

namespace Pixelflut.Wire

open Lib.Bytes

def ETHER_TYPE_IPv6 : UInt16 := 0x86DD

/-- `sizeof(struct ether_hdr)`. -/
def etherHdrLen : Nat := 14

/-- `sizeof(struct ipv6_hdr)`. -/
def ipv6HdrLen : Nat := 40

/-- The offset of `ether_type` in the Ethernet header. -/
def etherTypeOffset : Nat := 12

/-- The offset of the destination address in the IPv6 header. -/
def dstOffset : Nat := 24

/-- A `uint16_t` as a little-endian machine loads it. -/
def load16 (b₀ b₁ : UInt8) : UInt16 := b₀.toUInt16 ||| b₁.toUInt16 <<< 8

/-- `rte_be_to_cpu_16` and `htons` on a little-endian machine. -/
def bswap16 (v : UInt16) : UInt16 := (v &&& 0xFF) <<< 8 ||| (v &&& 0xFF00) >>> 8

theorem load16_toNat (b₀ b₁ : UInt8) : (load16 b₀ b₁).toNat = b₁.toNat * 2 ^ 8 + b₀.toNat := by
  have h₀ := b₀.toNat_lt
  have h₁ := b₁.toNat_lt
  have hshift : b₁.toNat * 2 ^ 8 % 2 ^ 16 = b₁.toNat * 2 ^ 8 := Nat.mod_eq_of_lt (by omega)
  rw [load16, UInt16.toNat_or, UInt16.toNat_shiftLeft, UInt8.toNat_toUInt16, UInt8.toNat_toUInt16]
  show b₀.toNat ||| b₁.toNat <<< 8 % 2 ^ 16 = _
  rw [Nat.shiftLeft_eq, hshift, Nat.or_comm, or_eq_add h₀]

/-- The test of the EtherType is one of the two bytes in wire order. -/
theorem etherType_eq_iff (b₀ b₁ : UInt8) :
    load16 b₀ b₁ = bswap16 ETHER_TYPE_IPv6 ↔ b₀ = 0x86 ∧ b₁ = 0xDD := by
  have h₀ := b₀.toNat_lt
  have hswap : (bswap16 ETHER_TYPE_IPv6).toNat = 0xDD * 2 ^ 8 + 0x86 := by decide
  rw [← UInt16.toNat_inj, load16_toNat, hswap, ← UInt8.toNat_inj, ← UInt8.toNat_inj]
  show _ ↔ b₀.toNat = 0x86 ∧ b₁.toNat = 0xDD
  omega

/-! ## Reading a frame

The functions read any sequence of bytes, so that they apply to a frame and to
the buffer that holds it.
-/

/-- The EtherType in wire order is `0x86DD`. -/
def IsIPv6 (b : Nat → UInt8) : Prop := b etherTypeOffset = 0x86 ∧ b (etherTypeOffset + 1) = 0xDD

instance (b : Nat → UInt8) : Decidable (IsIPv6 b) := inferInstanceAs (Decidable (_ ∧ _))

/-- The byte `i` of the IPv6 destination address. -/
def dst (b : Nat → UInt8) (i : Nat) : UInt8 := b (etherHdrLen + dstOffset + i)

/-- The big-endian coordinate in `dst[8..9]`. -/
def column (b : Nat → UInt8) : Nat := (dst b 8).toNat * 2 ^ 8 + (dst b 9).toNat

/-- The big-endian coordinate in `dst[10..11]`. -/
def row (b : Nat → UInt8) : Nat := (dst b 10).toNat * 2 ^ 8 + (dst b 11).toNat

/-- The colour word in `dst[12..14]`. -/
def colour (b : Nat → UInt8) : UInt32 :=
  (dst b 12).toUInt32 <<< 24 ||| (dst b 13).toUInt32 <<< 16 ||| (dst b 14).toUInt32 <<< 8

theorem colour_toNat (b : Nat → UInt8) :
    (colour b).toNat =
      (dst b 12).toNat * 2 ^ 24 + (dst b 13).toNat * 2 ^ 16 + (dst b 14).toNat * 2 ^ 8 :=
  or32_toNat (dst b 12) (dst b 13) (dst b 14)

/-- The first 53 bytes of an IPv6 frame decide what it draws. -/
theorem header_congr {b b' : Nat → UInt8} (h : ∀ i < 53, b i = b' i) :
    (IsIPv6 b ↔ IsIPv6 b') ∧ column b = column b' ∧ row b = row b' ∧ colour b = colour b' := by
  have hdst : ∀ i < 15, dst b i = dst b' i := fun i hi =>
    h _ (by simp only [etherHdrLen, dstOffset]; omega)
  refine ⟨?_, ?_, ?_, ?_⟩
  · rw [IsIPv6, IsIPv6, h _ (by decide), h _ (by decide)]
  · rw [column, column, hdst 8 (by decide), hdst 9 (by decide)]
  · rw [row, row, hdst 10 (by decide), hdst 11 (by decide)]
  · rw [colour, colour, hdst 12 (by decide), hdst 13 (by decide), hdst 14 (by decide)]

/-! ## Frames -/

/-- The bytes of a frame, as received. -/
abbrev Frame := List UInt8

/-- The byte at offset `i`. -/
def Frame.byte (f : Frame) (i : Nat) : UInt8 := f.getD i 0

/-- The frame has an Ethernet header, and an IPv6 header where it announces one. -/
def Frame.HasHeaders (f : Frame) : Prop :=
  etherHdrLen ≤ f.length ∧ (IsIPv6 f.byte → etherHdrLen + ipv6HdrLen ≤ f.length)

instance (f : Frame) : Decidable f.HasHeaders := inferInstanceAs (Decidable (_ ∧ _))

/-- The IPv6 frame without payload whose address ends in the eight bytes `dst`. -/
def ipv6Frame (dst : List UInt8) : Frame :=
  List.replicate 12 0 ++ [0x86, 0xDD] ++ List.replicate 32 0 ++ dst

end Pixelflut.Wire
