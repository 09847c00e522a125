import Pixelflut.Lib.Loop
import Pixelflut.Client.Delivery

/-!
# The squares of the UDP client

`main` of the UDP client fills one square after the other, column by column. The
system puts the address of a datagram into the frame that it sends.

* `square_eq`: the datagrams of a square;
* `squares_drawn`: the canvas after some squares, the datagrams of each in any order.
-/

namespace Pixelflut.Client.Squares

open Lib.Loop Lib.Drawing
open Wire Network Framebuffer
open Pixelflut.Client.Delivery
open Pixelflut.Client.Mbufs (ofNat_gt)

/-- What `rand()` answers for a square; it is never negative. -/
structure Answers where
  x : Int32
  y : Int32
  rgb : Int32
  x_nonneg : 0 ≤ x.toInt
  y_nonneg : 0 ≤ y.toInt

/-- The counters of the two loops, and the addresses that were sent to. -/
structure Brush where
  x : Int32
  y : Int32
  sent : List Address

def Brush.pixel (rgb : UInt32) (b : Brush) : Brush :=
  ⟨b.x, b.y + 1, b.sent ++ [colorPixelAddr b.x b.y rgb]⟩

def Brush.column (startY : Int32) (rgb : UInt32) (b : Brush) : Brush :=
  let b := loop (fun b : Brush => b.y < startY + 50) (Brush.pixel rgb) 50 { b with y := startY }
  { b with x := b.x + 1 }

/-- The two loops in `main`. -/
def fill (startX startY : Int32) (rgb : UInt32) : Brush :=
  loop (fun b => b.x < startX + 50) (Brush.column startY rgb) 50 ⟨startX, 0, []⟩

/-- One turn of the outer loop of `main`. -/
def square (a : Answers) : List Address := (fill (a.x % 700) (a.y % 500) a.rgb.toUInt32).sent

def Answers.left (a : Answers) : Nat := a.x.toInt.toNat % 700

def Answers.top (a : Answers) : Nat := a.y.toInt.toNat % 500

/-! ## The loops -/

theorem mod_eq_ofNat {v m : Int32} {k : Nat} (hv : 0 ≤ v.toInt) (hm : m.toInt = k) (hk : 0 < k) :
    v % m = .ofNat (v.toInt.toNat % k) := by
  have hlt := Nat.mod_lt v.toInt.toNat hk
  have hle := m.toInt_lt
  apply Int32.toInt_inj.mp
  rw [Int32.toInt_mod, hm, Int.tmod_eq_emod_of_nonneg hv, Int32.toInt_ofNat_of_lt (by omega),
    Int.natCast_emod, Int.toNat_of_nonneg hv]

theorem add_lt_iff {start k : Nat} (hstart : start < 2 ^ 30) (hk : k < 2 ^ 30) :
    Int32.ofNat start + .ofNat k < .ofNat start + 50 ↔ k < 50 := by
  have h50 : Int32.ofNat start + 50 = .ofNat (start + 50) := (Int32.ofNat_add start 50).symm
  rw [← Int32.ofNat_add, h50]
  exact (ofNat_gt (start + 50) (start + k) (by omega) (by omega)).trans (by omega)

theorem pixel_iterate (rgb : UInt32) (b : Brush) (k : Nat) :
    (Brush.pixel rgb)^[k] b = ⟨b.x, b.y + .ofNat k,
      b.sent ++ (List.range k).map fun j => colorPixelAddr b.x (b.y + .ofNat j) rgb⟩ := by
  have hkey : ∀ (b' : Brush) j, (b'.x, b'.y) = (b.x, b.y + .ofNat j) →
      ((b'.pixel rgb).x, (b'.pixel rgb).y) = (b.x, b.y + .ofNat (j + 1)) := by
    rintro ⟨x, y, sent⟩ j h
    obtain ⟨rfl, rfl⟩ := Prod.mk.inj h
    simp [Brush.pixel, Int32.ofNat_add, Int32.add_assoc]
  obtain ⟨hcount, hsent⟩ := iterate_collect (fun b : Brush => (b.x, b.y)) Brush.sent
    (fun key => [colorPixelAddr key.1 key.2 rgb]) (fun j => (b.x, b.y + .ofNat j)) hkey
    (fun _ => rfl) b (by simp) k
  obtain ⟨hx, hy⟩ := Prod.mk.inj hcount
  rw [← List.map_eq_flatMap] at hsent
  cases hb : (Brush.pixel rgb)^[k] b
  rw [hb] at hx hy hsent
  subst hx hy hsent
  rfl

/-- A loop of 50 turns. -/
theorem loop_fifty {σ : Type} (key : σ → Int32) {next : σ → σ} {s : σ} {start : Nat}
    (hstart : start < 2 ^ 30) (hkey : ∀ k, key (next^[k] s) = .ofNat start + .ofNat k) :
    loop (fun s => key s < .ofNat start + 50) next 50 s = next^[50] s := by
  apply loop_eq_iterate (Nat.le_refl 50)
  · intro j hj
    rw [hkey, decide_eq_true_iff, add_lt_iff hstart (by omega)]
    exact hj
  · rw [hkey, decide_eq_false_iff_not, add_lt_iff hstart (by decide)]
    decide

theorem column_eq {top : Nat} (htop : top < 2 ^ 30) (rgb : UInt32) (b : Brush) :
    b.column (.ofNat top) rgb = ⟨b.x + 1, .ofNat top + 50, b.sent ++ (List.range 50).map fun j =>
      colorPixelAddr b.x (.ofNat top + .ofNat j) rgb⟩ := by
  rw [Brush.column, loop_fifty Brush.y htop fun k => by rw [pixel_iterate],
    pixel_iterate]
  rfl

theorem column_iterate {top : Nat} (htop : top < 2 ^ 30) (rgb : UInt32) (b : Brush) (k : Nat) :
    ((Brush.column (.ofNat top) rgb)^[k] b).x = b.x + .ofNat k ∧
      ((Brush.column (.ofNat top) rgb)^[k] b).sent = b.sent ++ (List.range k).flatMap fun i =>
        (List.range 50).map fun j =>
          colorPixelAddr (b.x + .ofNat i) (.ofNat top + .ofNat j) rgb := by
  refine iterate_collect Brush.x Brush.sent (fun x => (List.range 50).map fun j =>
    colorPixelAddr x (.ofNat top + .ofNat j) rgb) (fun i => b.x + .ofNat i) ?_ ?_ b (by simp) k
  · intro b' i h
    rw [column_eq htop, h, Int32.ofNat_add, ← Int32.add_assoc]
    rfl
  · intro b'
    rw [column_eq htop]

theorem fill_sent {left top : Nat} (hleft : left < 2 ^ 30) (htop : top < 2 ^ 30) (rgb : UInt32) :
    (fill (.ofNat left) (.ofNat top) rgb).sent = (List.range 50).flatMap fun i =>
      (List.range 50).map fun j => colorPixelAddr (.ofNat (left + i)) (.ofNat (top + j)) rgb := by
  have hloop : fill (.ofNat left) (.ofNat top) rgb =
      (Brush.column (.ofNat top) rgb)^[50] ⟨.ofNat left, 0, []⟩ :=
    loop_fifty Brush.x hleft fun k => (column_iterate htop rgb _ k).1
  rw [hloop, (column_iterate htop rgb _ 50).2, List.nil_append]
  simp only [Int32.ofNat_add]

/-- **The datagrams of a square.** -/
theorem square_eq (a : Answers) :
    square a = (List.range 50).flatMap fun i => (List.range 50).map fun j =>
      colorPixelAddr (.ofNat (a.left + i)) (.ofNat (a.top + j)) a.rgb.toUInt32 := by
  have hleft : a.left < 700 := Nat.mod_lt _ (by decide)
  have htop : a.top < 500 := Nat.mod_lt _ (by decide)
  have hx : a.x % 700 = .ofNat a.left := mod_eq_ofNat a.x_nonneg (by decide) (by decide)
  have hy : a.y % 500 = .ofNat a.top := mod_eq_ofNat a.y_nonneg (by decide) (by decide)
  rw [square, hx, hy, fill_sent (by omega) (by omega)]

/-! ## The canvas -/

/-- The pixel lies in the square. -/
def Answers.Covers (a : Answers) (x y : Nat) : Prop :=
  a.left ≤ x ∧ x < a.left + 50 ∧ a.top ≤ y ∧ y < a.top + 50

instance (a : Answers) (x y : Nat) : Decidable (a.Covers x y) := inferInstanceAs (Decidable (_ ∧ _))

/-- What the servers show of the colour of the square. -/
def Answers.shown (a : Answers) : UInt32 := a.rgb.toUInt32 &&& (0xFFFFFF00 : UInt32)

theorem dotOf_colorPixel {x y : Nat} (hx : x < 2 ^ 16) (hy : y < 2 ^ 16) (rgb : UInt32) :
    dotOf (colorPixelAddr (.ofNat x) (.ofNat y) rgb) = (x, y, rgb &&& (0xFFFFFF00 : UInt32)) := by
  obtain ⟨hdx, hdy, hrgb⟩ := decode_encode .dpdk .udp (.ofNat x) (.ofNat y) rgb
  rw [Int32.toInt_ofNat_of_lt (by omega)] at hdx hdy
  rw [dotOf, Prod.mk.injEq, Prod.mk.injEq]
  refine ⟨?_, ?_, hrgb⟩
  · exact Int.ofNat.inj (hdx.trans (Int.emod_eq_of_lt (by omega) (by omega)))
  · exact Int.ofNat.inj (hdy.trans (Int.emod_eq_of_lt (by omega) (by omega)))

/-- A datagram of a square draws one of its pixels, and each pixel is drawn by one. -/
theorem mem_square {a : Answers} :
    (∀ dst ∈ square a, (dotOf dst).2.2 = a.shown ∧ a.Covers (dotOf dst).1 (dotOf dst).2.1) ∧
      ∀ x y, a.Covers x y → ∃ dst ∈ square a, dotOf dst = (x, y, a.shown) := by
  have hleft : a.left < 700 := Nat.mod_lt _ (by decide)
  have htop : a.top < 500 := Nat.mod_lt _ (by decide)
  have hmem : ∀ dst, dst ∈ square a ↔ ∃ i < 50, ∃ j < 50,
      colorPixelAddr (.ofNat (a.left + i)) (.ofNat (a.top + j)) a.rgb.toUInt32 = dst := by
    simp [square_eq]
  constructor
  · intro dst hdst
    obtain ⟨i, hi, j, hj, rfl⟩ := (hmem dst).mp hdst
    rw [dotOf_colorPixel (by omega) (by omega), Answers.Covers]
    exact ⟨rfl, by dsimp only; omega⟩
  · rintro x y ⟨hx, hx', hy, hy'⟩
    have hx_eq : a.left + (x - a.left) = x := by omega
    have hy_eq : a.top + (y - a.top) = y := by omega
    refine ⟨_, (hmem _).mpr ⟨x - a.left, by omega, y - a.top, by omega, rfl⟩, ?_⟩
    rw [hx_eq, hy_eq, dotOf_colorPixel (by omega) (by omega)]
    rfl

/-- A square with the frames of its datagrams, in any order and each at least once. -/
structure Group where
  answers : Answers
  frames : List (Address × RteMbuf)
  received : Received frames
  complete : ∀ dst, dst ∈ frames.map Prod.fst ↔ dst ∈ square answers

/-- The frames of some squares, one square after the other. -/
def framesOf (groups : List Group) : List (Address × RteMbuf) := groups.flatMap Group.frames

def Group.dots (g : Group) : List (Dot UInt32) := g.frames.map fun f => dotOf f.1

theorem Group.places_dots (g : Group) (x y : Nat) :
    (x, y) ∈ places g.dots ↔ g.answers.Covers x y := by
  simp only [places, dots, List.map_map, List.mem_map, Function.comp_apply, Prod.mk.injEq]
  constructor
  · rintro ⟨f, hf, rfl, rfl⟩
    exact (mem_square.1 f.1 ((g.complete f.1).mp (List.mem_map_of_mem hf))).2
  · intro hcovers
    obtain ⟨dst, hdst, hdot⟩ := mem_square.2 x y hcovers
    obtain ⟨f, hf, rfl⟩ := List.mem_map.mp ((g.complete dst).mpr hdst)
    exact ⟨f, hf, by rw [hdot], by rw [hdot]⟩

/-- The last square that covers a pixel gives it its colour. -/
theorem colour_groups {r : Raster UInt32} (groups : List Group) {x y : Nat} (hx : x < r.width)
    (hy : y < r.height) :
    (r.paint ((framesOf groups).map fun f => dotOf f.1)).colour x y =
      (((groups.filter fun g => g.answers.Covers x y).getLast?).map
        fun g => g.answers.shown).getD (r.colour x y) := by
  induction groups using List.reverseRecOn with
  | nil => rfl
  | append_singleton groups g ih =>
    obtain ⟨hw, hh⟩ := paint_size r ((framesOf groups).map fun f => dotOf f.1)
    have hdots : (framesOf (groups ++ [g])).map (fun f => dotOf f.1) =
        (framesOf groups).map (fun f => dotOf f.1) ++ g.dots := by
      simp [framesOf, Group.dots]
    have hshown : ∀ d ∈ g.dots, d.2.2 = g.answers.shown := by
      intro d hd
      obtain ⟨f, hf, rfl⟩ := List.mem_map.mp hd
      exact (mem_square.1 f.1 ((g.complete f.1).mp (List.mem_map_of_mem hf))).1
    rw [hdots, paint_append, colour_paint (c := fun _ _ => g.answers.shown) hshown (hw ▸ hx)
      (hh ▸ hy), ih]
    by_cases hcovers : g.answers.Covers x y
    · rw [if_pos ((g.places_dots x y).mpr hcovers)]
      simp [hcovers]
    · rw [if_neg fun h => hcovers ((g.places_dots x y).mp h)]
      simp [hcovers]

/-- The datagrams of a square, last to first. -/
def backward (a : Answers) : Group where
  answers := a
  frames := (square a).reverse.map fun dst =>
    (dst, .ofFrame (Frame.frameTo (List.replicate 20 0) dst))
  received := by
    intro f hf
    obtain ⟨dst, -, rfl⟩ := List.mem_map.mp hf
    rw [frame_ofFrame]
    exact Frame.frameTo_carries rfl dst
  complete := by simp

/-- Two squares of which the second one covers a part of the first one. -/
def overlapping : List Group :=
  [backward ⟨100, 20, 0x11223344, by decide, by decide⟩,
    backward ⟨840, 550, 0x55667788, by decide, by decide⟩]

end Pixelflut.Client.Squares
