import Pixelflut.Lib.Signed
import Pixelflut.Framebuffer.Size

/-!
# Frame pacing

The end of an iteration of the main loop: the statistics, once a second, and the
`usleep` for the rest of the frame. `long` and `long long` are 64 bits wide, and
so are the unsigned constants they are combined with.

* `getTimespecDiff_toInt`: the difference of two timestamps is exact, and none
  of its operations overflows;
* `frameEnd_exact`: so are the comparisons and the argument of `usleep`.
-/

namespace Pixelflut.Main

open Lib.Signed Framebuffer

structure Timespec where
  tvSec : Int64
  tvNsec : Int64
  deriving DecidableEq

/-- The time in nanoseconds. -/
def Timespec.nanos (t : Timespec) : Int := t.tvSec.toInt * 10 ^ 9 + t.tvNsec.toInt

structure Timespec.Normalised (t : Timespec) : Prop where
  nonneg : 0 ≤ t.tvNsec.toInt
  lt : t.tvNsec.toInt < 10 ^ 9

def getTimespecDiff (a b : Timespec) : Int64 :=
  (a.tvSec - b.tvSec) * 1000000000 + (a.tvNsec - b.tvNsec)

/-- What the loop remembers for the statistics. -/
structure Stats where
  fpsSnapshot : Timespec
  fpsCounter : UInt32
  actualFps : UInt32
  pixelCounterPreviousSecond : UInt64
  actualPixelPerS : UInt64
  bytesCounterPreviousSecond : UInt64
  actualBytesPerS : UInt64
  deriving DecidableEq

/-- `fpsCounter++`. -/
def Stats.countFrame (s : Stats) : Stats := { s with fpsCounter := s.fpsCounter + 1 }

/-- The statistics branch. -/
def Stats.report (s : Stats) (fb : Fb) (after : Timespec) : Stats where
  fpsSnapshot := after
  fpsCounter := 0
  actualFps := s.fpsCounter
  pixelCounterPreviousSecond := fb.pixelCounter
  actualPixelPerS := fb.pixelCounter - s.pixelCounterPreviousSecond
  bytesCounterPreviousSecond := fb.bytesCounter
  actualBytesPerS := fb.bytesCounter - s.bytesCounterPreviousSecond

/-- `1000000000UL / screen_update_rate - time_delta`, as a `long long` again. -/
def timeLeft (screenUpdateRate : Int32) (timeDelta : Int64) : Int64 :=
  (1000000000 / screenUpdateRate.toInt64.toUInt64 - timeDelta.toUInt64).toInt64

/-- From the second `clock_gettime` on; the argument of `usleep`, if it is
called, is a `useconds_t`. -/
def frameEnd (screenUpdateRate : Int32) (fb : Fb) (before after : Timespec) (s : Stats) :
    Stats × Option UInt32 :=
  let s := s.countFrame
  let timeDeltaSinceLastFpsSnapshot := getTimespecDiff after s.fpsSnapshot
  let s' := if timeDeltaSinceLastFpsSnapshot.toUInt64 > 1000000000 then s.report fb after else s
  let timeDelta := timeLeft screenUpdateRate (getTimespecDiff after before)
  (s', if timeDelta > 0 then some (timeDelta.toUInt64 / 1000).toUInt32 else none)

/-! ## Exactness -/

/-- **Differences are exact.** -/
theorem getTimespecDiff_toInt {a b : Timespec} (ha : a.Normalised) (hb : b.Normalised)
    (hle : b.nanos ≤ a.nanos) (hlt : a.nanos - b.nanos < 2 ^ 62) :
    (getTimespecDiff a b).toInt = a.nanos - b.nanos := by
  have haLo := ha.nonneg
  have haHi := ha.lt
  have hbLo := hb.nonneg
  have hbHi := hb.lt
  unfold Timespec.nanos at *
  -- a difference of the seconds is less than a second away from the whole
  have hsec : (a.tvSec - b.tvSec).toInt = a.tvSec.toInt - b.tvSec.toInt :=
    sub_toInt (by omega) (by omega)
  have hnsec : (a.tvNsec - b.tvNsec).toInt = a.tvNsec.toInt - b.tvNsec.toInt :=
    sub_toInt (by omega) (by omega)
  have hbillion : (1000000000 : Int64).toInt = 10 ^ 9 := rfl
  have hmul : ((a.tvSec - b.tvSec) * 1000000000).toInt =
      (a.tvSec.toInt - b.tvSec.toInt) * 10 ^ 9 := by
    rw [mul_toInt (by rw [hsec, hbillion]; omega) (by rw [hsec, hbillion]; omega), hsec, hbillion]
  calc
    (getTimespecDiff a b).toInt =
        ((a.tvSec - b.tvSec) * 1000000000).toInt + (a.tvNsec - b.tvNsec).toInt :=
      add_toInt (by rw [hmul, hnsec]; omega) (by rw [hmul, hnsec]; omega)
    _ = a.tvSec.toInt * 10 ^ 9 + a.tvNsec.toInt - (b.tvSec.toInt * 10 ^ 9 + b.tvNsec.toInt) := by
      rw [hmul, hnsec]
      omega

/-- A difference compared with an unsigned second. -/
theorem moreThanSecond_iff {d : Int64} (h : 0 ≤ d.toInt) :
    d.toUInt64 > 1000000000 ↔ 10 ^ 9 < d.toInt := by
  have hd := toUInt64_toNat h
  rw [gt_iff_lt, UInt64.lt_iff_toNat_lt, show (1000000000 : UInt64).toNat = 10 ^ 9 from rfl]
  omega

variable {rate : Int32}

/-- The length of a frame, in unsigned arithmetic. -/
theorem frameLength_toNat (hrate : 1 ≤ rate.toInt) :
    (((1000000000 / rate.toInt64.toUInt64 : UInt64).toNat : Nat) : Int) = 10 ^ 9 / rate.toInt := by
  have hconv : (rate.toInt64.toUInt64.toNat : Int) = rate.toInt := by
    rw [toUInt64_toNat (by rw [Int32.toInt_toInt64]; omega), Int32.toInt_toInt64]
  rw [UInt64.toNat_div, Int.natCast_ediv, hconv]
  rfl

theorem frameLength_le (hrate : 1 ≤ rate.toInt) :
    0 ≤ 10 ^ 9 / rate.toInt ∧ 10 ^ 9 / rate.toInt ≤ 10 ^ 9 :=
  ⟨Int.ediv_nonneg (by decide) (by omega), Int.ediv_le_self _ (by decide)⟩

/-- **The wrapped difference comes back.** -/
theorem timeLeft_toInt (hrate : 1 ≤ rate.toInt) {d : Int64} (hlo : 0 ≤ d.toInt)
    (hhi : d.toInt < 2 ^ 62) : (timeLeft rate d).toInt = 10 ^ 9 / rate.toInt - d.toInt := by
  have hlength := frameLength_toNat hrate
  obtain ⟨hnonneg, hle⟩ := frameLength_le hrate
  rw [timeLeft, toInt64_sub (by omega) (by omega) (by omega), hlength]

/-- The argument of `usleep` fits into a `useconds_t`. -/
theorem usleepArg_toNat {d : Int64} (hlo : 0 ≤ d.toInt) (hhi : d.toInt ≤ 10 ^ 9) :
    ((d.toUInt64 / 1000).toUInt32.toNat : Int) = d.toInt / 1000 := by
  have hd := toUInt64_toNat hlo
  rw [UInt64.toNat_toUInt32, UInt64.toNat_div, show (1000 : UInt64).toNat = 1000 from rfl]
  omega

/-- **Frame pacing is exact.** For every rate and all normalised timestamps less
than `2 ^ 62` nanoseconds apart: the differences are exact; the statistics branch
is taken iff more than a second has passed since the snapshot; `usleep` is called
iff the frame was shorter than it should be, for what is left of it. -/
theorem frameEnd_exact (rate : Int32) (fb : Fb) (before after : Timespec) (s : Stats)
    (hrate : 1 ≤ rate.toInt) (hbefore : before.Normalised) (hafter : after.Normalised)
    (hsnapshot : s.fpsSnapshot.Normalised) (hle : before.nanos ≤ after.nanos)
    (hle' : s.fpsSnapshot.nanos ≤ after.nanos) (hlt : after.nanos - before.nanos < 2 ^ 62)
    (hlt' : after.nanos - s.fpsSnapshot.nanos < 2 ^ 62) :
    (getTimespecDiff after before).toInt = after.nanos - before.nanos ∧
    (getTimespecDiff after s.fpsSnapshot).toInt = after.nanos - s.fpsSnapshot.nanos ∧
    (frameEnd rate fb before after s).1 =
      (if 10 ^ 9 < after.nanos - s.fpsSnapshot.nanos then s.countFrame.report fb after
        else s.countFrame) ∧
    ((frameEnd rate fb before after s).2.isSome ↔
      after.nanos - before.nanos < 10 ^ 9 / rate.toInt) ∧
    ∀ arg, (frameEnd rate fb before after s).2 = some arg →
      (arg.toNat : Int) = (10 ^ 9 / rate.toInt - (after.nanos - before.nanos)) / 1000 ∧
        arg.toNat ≤ 10 ^ 6 := by
  have hdiff := getTimespecDiff_toInt hafter hbefore hle hlt
  have hdiff' := getTimespecDiff_toInt hafter hsnapshot hle' hlt'
  have hleft := timeLeft_toInt hrate (show 0 ≤ (getTimespecDiff after before).toInt by omega)
    (by omega)
  obtain ⟨-, hlength⟩ := frameLength_le hrate
  have hsleep : timeLeft rate (getTimespecDiff after before) > 0 ↔
      after.nanos - before.nanos < 10 ^ 9 / rate.toInt := by
    rw [gt_iff_lt, Int64.lt_iff_toInt_lt, hleft, hdiff, Int64.toInt_zero]
    omega
  refine ⟨hdiff, hdiff', ?_, ?_, ?_⟩
  · have hsecond := moreThanSecond_iff (show 0 ≤ (getTimespecDiff after s.fpsSnapshot).toInt by omega)
    rw [hdiff'] at hsecond
    simp only [frameEnd, show s.countFrame.fpsSnapshot = s.fpsSnapshot from rfl, hsecond]
  · simp only [frameEnd, Option.isSome_ite, hsleep]
  · intro arg harg
    simp only [frameEnd, Option.ite_none_right_eq_some, Option.some.injEq] at harg
    obtain ⟨hpos, rfl⟩ := harg
    have hshort := hsleep.mp hpos
    have harg := usleepArg_toNat (d := timeLeft rate (getTimespecDiff after before)) (by omega)
      (by omega)
    rw [hleft, hdiff] at harg
    constructor
    · exact harg
    · omega

/-- At 60 frames a second: a frame that has taken half of its time, a second
and a bit after the snapshot. -/
theorem frameEnd_exact_half_frame :
    let fb : Fb := ⟨⟨1, 1⟩, 0, 0, 70, 700⟩
    let s : Stats := ⟨⟨5, 999999999⟩, 59, 0, 10, 0, 100, 0⟩
    (getTimespecDiff ⟨7, 8333333⟩ ⟨7, 0⟩).toInt = 8333333 ∧
      (frameEnd 60 fb ⟨7, 0⟩ ⟨7, 8333333⟩ s).1 = ⟨⟨7, 8333333⟩, 0, 60, 70, 60, 700, 600⟩ ∧
      ∃ arg, (frameEnd 60 fb ⟨7, 0⟩ ⟨7, 8333333⟩ s).2 = some arg ∧ (arg.toNat : Int) = 8333 := by
  intro fb s
  have hexact := frameEnd_exact 60 fb ⟨7, 0⟩ ⟨7, 8333333⟩ s (by decide) ⟨by decide, by decide⟩
    ⟨by decide, by decide⟩ ⟨by decide, by decide⟩ (by decide) (by decide) (by decide) (by decide)
  obtain ⟨hdiff, -, hstats, hsleep, harg⟩ := hexact
  obtain ⟨arg, h⟩ := Option.isSome_iff_exists.mp (hsleep.mpr (by decide))
  exact ⟨hdiff.trans (by decide), hstats.trans (by decide), arg, h, (harg arg h).1.trans (by decide)⟩

end Pixelflut.Main
