import Pixelflut.Network.Basic
import Pixelflut.Xdp.Basic

/-!
# The addresses that the clients write

Both clients put a pixel into the last eight bytes of an IPv6 destination
address: `colorPixel` of the UDP client and `lcore_main` of the DPDK client.
Both servers read it back. `decode_x`, `decode_y` and `decode_rgb` say what
either server reads, `encode_bytes` what either client writes, and
`address_format` puts them together.
-/

namespace Pixelflut.Client

open Lib.Bytes Network Xdp

/-- A `struct in6_addr`. -/
abbrev Address := Vector UInt8 16

def Address.byte (A : Address) (i : Nat) : UInt8 := A.getD i 0

/-! ## The clients -/

/-- The address that `colorPixel` sends to. -/
def colorPixelAddr (x y : Int32) (rgb : UInt32) : Address :=
  #v[0x40, 0x00, 0x00, 0x42, 0, 0, 0, 0, lowByte (x >>> 8), lowByte x, lowByte (y >>> 8), lowByte y,
    (rgb >>> 24).toUInt8, (rgb >>> 16).toUInt8, (rgb >>> 8).toUInt8, rgb.toUInt8]

/-- The address that `lcore_main` writes into a packet. -/
def lcoreMainAddr (x y : Int32) (rgb : UInt32) : Address :=
  #v[0x40, 0x00, 0x42, 0x00, 0, 0, 0, 0, lowByte (x >>> 8), lowByte x, lowByte (y >>> 8), lowByte y,
    (rgb >>> 24).toUInt8, (rgb >>> 16).toUInt8, (rgb >>> 8).toUInt8, 0]

inductive Sender where
  | udp
  | dpdk

def Sender.encode : Sender → Int32 → Int32 → UInt32 → Address
  | .udp => colorPixelAddr
  | .dpdk => lcoreMainAddr

/-! ## The servers -/

/-- What a server draws; a coordinate of `dpdk_thread` is a `uint16_t` until
it is an argument of `fb_set_pixel`. -/
@[ext]
structure Pixel where
  x : UInt32
  y : UInt32
  rgb : UInt32
  deriving DecidableEq

inductive Receiver where
  | dpdk
  | xdp

def Receiver.decode (A : Address) : Receiver → Pixel
  | .dpdk => ⟨(dpdkX A.byte).toUInt32, (dpdkY A.byte).toUInt32, dpdkRgb A.byte⟩
  | .xdp => ⟨xdpX A.byte, xdpY A.byte, xdpRgb A.byte⟩

theorem decode_x (s : Receiver) (A : Address) :
    (s.decode A).x.toNat = (A.byte 8).toNat * 2 ^ 8 + (A.byte 9).toNat := by
  cases s with
  | dpdk => exact coord_toNat (A.byte 8) (A.byte 9)
  | xdp => exact or16_toNat (A.byte 8) (A.byte 9)

theorem decode_y (s : Receiver) (A : Address) :
    (s.decode A).y.toNat = (A.byte 10).toNat * 2 ^ 8 + (A.byte 11).toNat := by
  cases s with
  | dpdk => exact coord_toNat (A.byte 10) (A.byte 11)
  | xdp => exact or16_toNat (A.byte 10) (A.byte 11)

theorem decode_rgb (s : Receiver) (A : Address) :
    (s.decode A).rgb.toNat =
      (A.byte 12).toNat * 2 ^ 24 + (A.byte 13).toNat * 2 ^ 16 + (A.byte 14).toNat * 2 ^ 8 := by
  cases s with
  | dpdk => exact sum32_toNat (A.byte 12) (A.byte 13) (A.byte 14)
  | xdp => exact or32_toNat (A.byte 12) (A.byte 13) (A.byte 14)

/-- Bytes 8 to 14 decide what is read, and are decided by it. -/
theorem decode_eq_iff (s : Receiver) (A B : Address) :
    s.decode A = s.decode B ↔ ∀ i, 8 ≤ i → i ≤ 14 → A.byte i = B.byte i := by
  simp only [Pixel.ext_iff, ← UInt32.toNat_inj]
  rw [decode_x, decode_x, decode_y, decode_y, decode_rgb, decode_rgb]
  constructor
  · rintro ⟨hx, hy, hrgb⟩ i hlo hhi
    have hA := fun i => (A.byte i).toNat_lt
    have hB := fun i => (B.byte i).toNat_lt
    apply UInt8.toNat_inj.mp
    have h9 := hA 9; have h9' := hB 9; have h11 := hA 11; have h11' := hB 11
    have h13 := hA 13; have h13' := hB 13; have h14 := hA 14; have h14' := hB 14
    have hi : i = 8 ∨ i = 9 ∨ i = 10 ∨ i = 11 ∨ i = 12 ∨ i = 13 ∨ i = 14 := by omega
    rcases hi with rfl | rfl | rfl | rfl | rfl | rfl | rfl <;> omega
  · intro hbytes
    simp only [hbytes 8 (by decide) (by decide), hbytes 9 (by decide) (by decide),
      hbytes 10 (by decide) (by decide), hbytes 11 (by decide) (by decide),
      hbytes 12 (by decide) (by decide), hbytes 13 (by decide) (by decide),
      hbytes 14 (by decide) (by decide), and_self]

/-! ## What is written -/

/-- The clients differ outside bytes 8 to 14 only. -/
theorem encode_bytes (c : Sender) (x y : Int32) (rgb : UInt32) :
    (c.encode x y rgb).byte 8 = lowByte (x >>> 8) ∧ (c.encode x y rgb).byte 9 = lowByte x ∧
      (c.encode x y rgb).byte 10 = lowByte (y >>> 8) ∧ (c.encode x y rgb).byte 11 = lowByte y ∧
      (c.encode x y rgb).byte 12 = (rgb >>> 24).toUInt8 ∧
      (c.encode x y rgb).byte 13 = (rgb >>> 16).toUInt8 ∧
      (c.encode x y rgb).byte 14 = (rgb >>> 8).toUInt8 := by
  cases c <;> exact ⟨rfl, rfl, rfl, rfl, rfl, rfl, rfl⟩

/-- A coordinate survives modulo `2 ^ 16`, its sign included. -/
theorem coord_roundtrip (v : Int32) :
    (((lowByte (v >>> 8)).toNat * 2 ^ 8 + (lowByte v).toNat : Nat) : Int) = v.toInt % 2 ^ 16 := by
  have hhigh := lowByte_shiftRight_toNat v
  have hlow := lowByte_toNat v
  omega

theorem byte_toNat (rgb : UInt32) {s : UInt32} (i : Nat) (hs : s.toNat = i) (hi : i < 32) :
    (rgb >>> s).toUInt8.toNat = rgb.toNat / 2 ^ i % 2 ^ 8 := by
  rw [UInt32.toNat_toUInt8, UInt32.toNat_shiftRight, hs, Nat.mod_eq_of_lt hi,
    Nat.shiftRight_eq_div_pow]

/-- The colour survives without its low byte. -/
theorem rgb_roundtrip (rgb : UInt32) :
    (rgb >>> 24).toUInt8.toNat * 2 ^ 24 + (rgb >>> 16).toUInt8.toNat * 2 ^ 16 +
      (rgb >>> 8).toUInt8.toNat * 2 ^ 8 = rgb.toNat / 2 ^ 8 * 2 ^ 8 := by
  have hlt := rgb.toNat_lt
  rw [byte_toNat rgb 24 rfl (by decide), byte_toNat rgb 16 rfl (by decide),
    byte_toNat rgb 8 rfl (by decide)]
  omega

/-- What either server reads from the address of either client. -/
theorem decode_encode (s : Receiver) (c : Sender) (x y : Int32) (rgb : UInt32) :
    ((s.decode (c.encode x y rgb)).x.toNat : Int) = x.toInt % 2 ^ 16 ∧
      ((s.decode (c.encode x y rgb)).y.toNat : Int) = y.toInt % 2 ^ 16 ∧
      (s.decode (c.encode x y rgb)).rgb = rgb &&& (0xFFFFFF00 : UInt32) := by
  obtain ⟨h8, h9, h10, h11, h12, h13, h14⟩ := encode_bytes c x y rgb
  refine ⟨?_, ?_, ?_⟩
  · rw [decode_x, h8, h9]
    exact coord_roundtrip x
  · rw [decode_y, h10, h11]
    exact coord_roundtrip y
  · rw [← UInt32.toNat_inj, decode_rgb, h12, h13, h14, clear_low_byte_toNat]
    exact rgb_roundtrip rgb

/-- Writing what was read: the second address reads like the first one. -/
theorem decode_encode_decode (s : Receiver) (c : Sender) (A : Address) :
    s.decode (c.encode (s.decode A).x.toInt32 (s.decode A).y.toInt32 (s.decode A).rgb) =
      s.decode A := by
  obtain ⟨hx, hy, hrgb⟩ :=
    decode_encode s c (s.decode A).x.toInt32 (s.decode A).y.toInt32 (s.decode A).rgb
  have hA := fun i => (A.byte i).toNat_lt
  rw [toInt_emod _ (by decide), UInt32.toUInt32_toInt32] at hx hy
  ext1
  · have hlt : (s.decode A).x.toNat < 2 ^ 16 := by
      rw [decode_x]
      have h8 := hA 8
      have h9 := hA 9
      omega
    apply UInt32.toNat_inj.mp
    omega
  · have hlt : (s.decode A).y.toNat < 2 ^ 16 := by
      rw [decode_y]
      have h10 := hA 10
      have h11 := hA 11
      omega
    apply UInt32.toNat_inj.mp
    omega
  · have hclear : (s.decode A).rgb.toNat / 2 ^ 8 * 2 ^ 8 = (s.decode A).rgb.toNat := by
      rw [decode_rgb]
      omega
    rw [hrgb, ← UInt32.toNat_inj, clear_low_byte_toNat, hclear]

/-- **One address format.** Either server reads the coordinates modulo `2 ^ 16`
and the colour without its low byte from what either client writes; writing
what was read gives bytes 8 to 14 again; and these bytes alone are read. -/
theorem address_format :
    (∀ (s : Receiver) (c : Sender) (x y : Int32) (rgb : UInt32),
      ((s.decode (c.encode x y rgb)).x.toNat : Int) = x.toInt % 2 ^ 16 ∧
        ((s.decode (c.encode x y rgb)).y.toNat : Int) = y.toInt % 2 ^ 16 ∧
        (s.decode (c.encode x y rgb)).rgb = rgb &&& (0xFFFFFF00 : UInt32)) ∧
    (∀ (s : Receiver) (c : Sender) (A : Address) (i : Nat), 8 ≤ i → i ≤ 14 →
      (c.encode (s.decode A).x.toInt32 (s.decode A).y.toInt32 (s.decode A).rgb).byte i =
        A.byte i) ∧
    (∀ (s : Receiver) (A B : Address),
      s.decode A = s.decode B ↔ ∀ i, 8 ≤ i → i ≤ 14 → A.byte i = B.byte i) := by
  refine ⟨decode_encode, fun s c A => ?_, decode_eq_iff⟩
  exact (decode_eq_iff s _ A).mp (decode_encode_decode s c A)

end Pixelflut.Client
