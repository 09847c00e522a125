import Pixelflut.Lib.Signed
import Pixelflut.Framebuffer.Size
import Pixelflut.Vnc.Configure

/-!
# The text overlay

Once a frame `main` makes the VNC frontend draw four texts, each on a black
rectangle that is as wide as the text. Neither function looks at the size of the
framebuffer, and `rfbFillRect` does not clip.

* `vncDrawString_inside_iff`: when the rectangle of one text is inside;
* `overlay_inside_iff`: when all four are, and that they are then filled inside
  the pixel block.
-/

namespace Pixelflut.Vnc.Overlay

open Lib.Signed Pixelflut.Frontend Framebuffer Configure

/-! ## Drawing -/

/-- The corners that `rfbFillRect` gets; `x2` and `y2` are outside. -/
structure Rect where
  x1 : Int32
  y1 : Int32
  x2 : Int32
  y2 : Int32
  deriving DecidableEq

inductive RfbCall where
  | fillRect (rect : Rect) (colour : UInt32)
  | drawString (x y : Int32) (str : Text) (colour : UInt32)
  deriving DecidableEq

def VNC_FONT_HEIGHT : UInt32 := 16

variable {Font : Type}

/-- `vnc_draw_string`; undefined when `2 * space` overflows. -/
def vncDrawString (rfbWidthOfString : Font → Text → Int32) (vnc : Vnc Font) (x y : UInt32)
    (str : Text) : Option (List RfbCall) :=
  match vnc.font with
  | some font => do
    let space := rfbWidthOfString font (ascii [' '])
    let width := rfbWidthOfString font str
    let padding ← mulInt 2 space
    return [.fillRect ⟨x.toInt32, (y + 8).toInt32,
        (x + width.toUInt32 + padding.toUInt32).toInt32, (y + VNC_FONT_HEIGHT + 6).toInt32⟩ 0,
      .drawString (x + space.toUInt32).toInt32 (y + VNC_FONT_HEIGHT + 2).toInt32 str 0xffffffff]
  | none => some []

/-- Several calls of `frontend_draw_string`. -/
def drawStrings (rfbWidthOfString : Font → Text → Int32) (vnc : Vnc Font) :
    List (UInt32 × UInt32 × Text) → Option (List RfbCall)
  | [] => some []
  | (x, y, str) :: rest => do
    let calls ← vncDrawString rfbWidthOfString vnc x y str
    let more ← drawStrings rfbWidthOfString vnc rest
    return calls ++ more

def banner : Text :=
  ascii ['P', 'I', 'X', 'E', 'L', 'F', 'L', 'U', 'T', ':', ' ', '1', '2', '7', '.', '0', '.', '0',
    '.', '1', ':', '1', '2', '3', '4', ' ', 'D', 'E', 'C', 'T', ' ', '1', '2', '3', '4']

/-- The texts of an iteration of the main loop, in the order of their calls. -/
def overlay (textualInfo1 textualInfo2 textualInfo3 : Text) : List (UInt32 × UInt32 × Text) :=
  [(10, 45, textualInfo3), (10, 30, textualInfo2), (10, 15, textualInfo1), (10, 0, banner)]

/-! ## Inside the framebuffer -/

structure Rect.Inside (r : Rect) (size : FbSize) : Prop where
  x1_nonneg : 0 ≤ r.x1.toInt
  x_le : r.x1.toInt ≤ r.x2.toInt
  x2_le : r.x2.toInt ≤ size.width.toNat
  y1_nonneg : 0 ≤ r.y1.toInt
  y_le : r.y1.toInt ≤ r.y2.toInt
  y2_le : r.y2.toInt ≤ size.height.toNat

/-- A pixel that `rfbFillRect` writes. -/
structure Rect.Fills (r : Rect) (x y : Nat) : Prop where
  x1_le : r.x1.toInt ≤ x
  lt_x2 : (x : Int) < r.x2.toInt
  y1_le : r.y1.toInt ≤ y
  lt_y2 : (y : Int) < r.y2.toInt

/-- All rectangles that are filled are inside. -/
def AllInside (size : FbSize) (result : Option (List RfbCall)) : Prop :=
  ∃ calls, result = some calls ∧ ∀ r colour, .fillRect r colour ∈ calls → r.Inside size

/-- A rectangle inside is filled in the pixel block. -/
theorem Rect.Inside.index_lt {r : Rect} {size : FbSize} (h : r.Inside size)
    (hsmall : size.width.toNat * size.height.toNat < 2 ^ 32) {x y : Nat} (hxy : r.Fills x y) :
    Lib.RowMajor.index size.width.toNat x y < cellCount size.width size.height := by
  rw [cellCount_eq hsmall]
  have hx := hxy.lt_x2
  have hy := hxy.lt_y2
  have hx' := h.x2_le
  have hy' := h.y2_le
  exact Lib.RowMajor.index_lt (by omega) (by omega)

/-- What a text takes: the rectangle is as wide as the text and two blanks. -/
def textWidth (rfbWidthOfString : Font → Text → Int32) (font : Font) (str : Text) : Int :=
  (rfbWidthOfString font str).toInt + 2 * (rfbWidthOfString font (ascii [' '])).toInt

variable {rfbWidthOfString : Font → Text → Int32} {vnc : Vnc Font} {font : Font} {size : FbSize}

/-- **One text.** A right edge that overflows is left of the left one. -/
theorem vncDrawString_inside_iff (hfont : vnc.font = some font)
    (hnonneg : ∀ str, 0 ≤ (rfbWidthOfString font str).toInt)
    (hsize : size.width.toNat < 2 ^ 31) {x y : UInt32} (hx : x.toNat < 2 ^ 31)
    (hy : y.toNat + 22 < 2 ^ 31) (str : Text) :
    AllInside size (vncDrawString rfbWidthOfString vnc x y str) ↔
      x.toNat + textWidth rfbWidthOfString font str ≤ size.width.toNat ∧
        y.toNat + 22 ≤ size.height.toNat := by
  have hspace := hnonneg (ascii [' '])
  have hwidth := hnonneg str
  have hspaceLt := (rfbWidthOfString font (ascii [' '])).toInt_lt
  have hwidthLt := (rfbWidthOfString font str).toInt_lt
  simp only [vncDrawString, hfont, textWidth]
  generalize rfbWidthOfString font (ascii [' ']) = space at *
  generalize rfbWidthOfString font str = width at *
  cases hmul : mulInt 2 space with
  | none =>
    have hover : ¬2 * space.toInt < 2 ^ 31 := by
      intro hlt
      rw [mulInt, if_pos ⟨by rw [show (2 : Int32).toInt = 2 from rfl]; omega, hlt⟩] at hmul
      cases hmul
    constructor
    · rintro ⟨calls, hcalls, -⟩
      cases hcalls
    · rintro ⟨hle, -⟩
      omega
  | some padding =>
    obtain ⟨hpadding, -, hpaddingLt⟩ := mulInt_eq_some hmul
    rw [show (2 : Int32).toInt = 2 from rfl] at hpadding hpaddingLt
    have hw := toUInt32_toNat hwidth
    have hp := toUInt32_toNat (v := padding) (by omega)
    have hx1 : x.toInt32.toInt = x.toNat := by rw [toInt32_toInt, if_pos hx]
    have hy1 : (y + 8).toInt32.toInt = y.toNat + 8 := by
      have hsum : (y + 8).toNat = y.toNat + 8 := by
        rw [UInt32.toNat_add, show (8 : UInt32).toNat = 8 from rfl]
        omega
      rw [toInt32_toInt, if_pos (by omega), hsum]
      rfl
    have hy2 : (y + VNC_FONT_HEIGHT + 6).toInt32.toInt = y.toNat + 22 := by
      have hsum : (y + VNC_FONT_HEIGHT + 6).toNat = y.toNat + 22 := by
        rw [UInt32.toNat_add, UInt32.toNat_add, show VNC_FONT_HEIGHT.toNat = 16 from rfl,
          show (6 : UInt32).toNat = 6 from rfl]
        omega
      rw [toInt32_toInt, if_pos (by omega), hsum]
      rfl
    have hx2 : (x + width.toUInt32 + padding.toUInt32).toNat =
        (x.toNat + width.toUInt32.toNat + padding.toUInt32.toNat) % 2 ^ 32 := by
      rw [UInt32.toNat_add, UInt32.toNat_add, Nat.mod_add_mod]
    have hx2' := toInt32_toInt (x + width.toUInt32 + padding.toUInt32)
    constructor
    · rintro ⟨calls, hcalls, hinside⟩
      cases hcalls
      obtain ⟨-, hxle, hxin, -, -, hyin⟩ := hinside _ _ (.head _)
      simp only [hx1, hy2] at hxle hyin
      rw [hx2'] at hxle hxin
      split at hxle <;> omega
    · rintro ⟨hxle, hyle⟩
      refine ⟨_, rfl, fun r colour hr => ?_⟩
      simp only [List.mem_cons, RfbCall.fillRect.injEq, reduceCtorEq, List.not_mem_nil, or_false]
        at hr
      obtain ⟨rfl, -⟩ := hr
      rw [if_pos (by omega)] at hx2'
      constructor <;> simp only [hx1, hy1, hy2, hx2'] <;> omega

theorem drawStrings_inside_iff (texts : List (UInt32 × UInt32 × Text)) :
    AllInside size (drawStrings rfbWidthOfString vnc texts) ↔
      ∀ t ∈ texts, AllInside size (vncDrawString rfbWidthOfString vnc t.1 t.2.1 t.2.2) := by
  induction texts with
  | nil =>
    refine ⟨fun _ t ht => absurd ht List.not_mem_nil, fun _ => ⟨[], rfl, fun r colour hr => ?_⟩⟩
    cases hr
  | cons t rest ih =>
    obtain ⟨x, y, str⟩ := t
    rw [List.forall_mem_cons, ← ih, drawStrings]
    constructor
    · rintro ⟨calls, hcalls, hinside⟩
      obtain ⟨first, hfirst, hcalls⟩ := Option.bind_eq_some_iff.mp hcalls
      obtain ⟨more, hmore, hcalls⟩ := Option.bind_eq_some_iff.mp hcalls
      cases hcalls
      exact ⟨⟨first, hfirst, fun r c hr => hinside r c (List.mem_append_left _ hr)⟩,
        ⟨more, hmore, fun r c hr => hinside r c (List.mem_append_right _ hr)⟩⟩
    · rintro ⟨⟨first, hfirst, hin⟩, more, hmore, hin'⟩
      refine ⟨first ++ more, by rw [hfirst, hmore]; rfl, fun r colour hr => ?_⟩
      rcases List.mem_append.mp hr with hr | hr
      · exact hin r colour hr
      · exact hin' r colour hr

/-- **The overlay is inside exactly when it fits.** For every accepted size, font
and texts: the four rectangles are inside iff the framebuffer has 67 rows, and
each text with its margin and two blanks is no wider than the framebuffer. They
are then filled inside the pixel block. -/
theorem overlay_inside_iff (width height : Int32) (hwidth : mainAccepts width)
    (hheight : mainAccepts height)
    (hsmall : width.toUInt32.toNat * height.toUInt32.toNat < 2 ^ 32)
    (hfont : vnc.font = some font) (hnonneg : ∀ str, 0 ≤ (rfbWidthOfString font str).toInt)
    (textualInfo1 textualInfo2 textualInfo3 : Text) :
    (AllInside ⟨width.toUInt32, height.toUInt32⟩ (drawStrings rfbWidthOfString vnc
        (overlay textualInfo1 textualInfo2 textualInfo3)) ↔
      67 ≤ height.toInt ∧ ∀ str ∈ [textualInfo3, textualInfo2, textualInfo1, banner],
        10 + textWidth rfbWidthOfString font str ≤ width.toInt) ∧
    ∀ r : Rect, r.Inside ⟨width.toUInt32, height.toUInt32⟩ → ∀ x y, r.Fills x y →
      Lib.RowMajor.index width.toUInt32.toNat x y < cellCount width.toUInt32 height.toUInt32 := by
  have hpos : ∀ {v : Int32}, mainAccepts v → 0 ≤ v.toInt := by
    intro v hv
    simp only [mainAccepts, Bool.not_eq_true', decide_eq_false_iff_not, Int32.not_le,
      Int32.lt_iff_toInt_lt, Int32.toInt_zero] at hv
    omega
  have hw := toUInt32_toNat (hpos hwidth)
  have hh := toUInt32_toNat (hpos hheight)
  have hwlt := width.toInt_lt
  constructor
  · have hone : ∀ (y : UInt32) (str : Text), y.toNat ≤ 45 →
        (AllInside ⟨width.toUInt32, height.toUInt32⟩
            (vncDrawString rfbWidthOfString vnc 10 y str) ↔
          10 + textWidth rfbWidthOfString font str ≤ width.toInt ∧
            (y.toNat : Int) + 22 ≤ height.toInt) := by
      intro y str hy
      rw [vncDrawString_inside_iff hfont hnonneg (by simp only; omega) (by decide) (by omega),
        show (10 : UInt32).toNat = 10 from rfl]
      simp only
      omega
    rw [drawStrings_inside_iff]
    simp only [overlay, List.forall_mem_cons, List.not_mem_nil, false_imp_iff, forall_const,
      and_true]
    rw [hone 45 _ (by decide), hone 30 _ (by decide), hone 15 _ (by decide), hone 0 _ (by decide),
      show (45 : UInt32).toNat = 45 from rfl, show (30 : UInt32).toNat = 30 from rfl,
      show (15 : UInt32).toNat = 15 from rfl, show (0 : UInt32).toNat = 0 from rfl]
    omega
  · exact fun r hr x y hxy => hr.index_lt hsmall hxy

/-- A font with eight columns to a character, for texts of a sensible length. -/
def eightWide (_ : Unit) (str : Text) : Int32 :=
  if str.length < 2 ^ 24 then .ofNat (8 * str.length) else 0

theorem eightWide_nonneg (str : Text) : 0 ≤ (eightWide () str).toInt := by
  rw [eightWide]
  split
  · rw [Int32.toInt_ofNat_of_lt (by omega)]
    omega
  · exact Int.le_refl 0

/-- A frontend with this font. -/
def eightWideVnc : Vnc Unit := ⟨⟨5900, 5900, false⟩, some ()⟩

/-- The default size. -/
theorem overlay_inside_iff_default :
    AllInside ⟨1024, 768⟩
      (drawStrings eightWide eightWideVnc (overlay (ascii ['F', 'P', 'S']) [] [])) :=
  (overlay_inside_iff 1024 768 (by decide) (by decide) (by decide) rfl eightWide_nonneg _ _ _).1.mpr
    (by decide)

/-- A framebuffer of one pixel. -/
theorem overlay_outside_of_one_pixel :
    mainAccepts 1 ∧ ¬AllInside ⟨1, 1⟩ (drawStrings eightWide eightWideVnc (overlay [] [] [])) := by
  refine ⟨rfl, fun h => ?_⟩
  have hfirst := (drawStrings_inside_iff _).mp h (10, 45, []) (.head _)
  have hfits := (vncDrawString_inside_iff rfl eightWide_nonneg (by decide) (by decide) (by decide)
    []).mp hfirst
  exact absurd hfits (by decide)

end Pixelflut.Vnc.Overlay
