import Mathlib.Algebra.BigOperators.Group.List.Basic
import Mathlib.Algebra.Order.Ring.Int
import Mathlib.Data.UInt
import Pixelflut.Lib.Transition
import Pixelflut.Main.Pacing

/-!
# Frame after frame

The main loop over whole runs, as the clock sees it. An iteration reads the
clock twice, counts the frame, reports once a second and sleeps; the clock never
runs backwards, and a `usleep` lasts at least as long as it was asked to.

* `frameEnd_report`, `frameEnd_pause`: what an iteration decides;
* `Inv`: the frames since the last report are counted exactly, and they have
  taken their time;
* `frames_paced`: over any number of frames the loop is not faster than its
  rate allows; the frames reported and the frames open add up; the rate shown is
  bounded; and the rates of pixels and bytes add up to the counters, but for
  what arrives while a report is being made.
-/

namespace Pixelflut.Main

open Lib.Signed Lib.Transition Framebuffer

instance (t : Timespec) : Decidable t.Normalised :=
  decidable_of_iff (0 ≤ t.tvNsec.toInt ∧ t.tvNsec.toInt < 10 ^ 9)
    ⟨fun h => ⟨h.1, h.2⟩, fun h => ⟨h.nonneg, h.lt⟩⟩

/-- What an iteration reads. A report reads each counter twice, and the receive
thread goes on counting: `fb` has what is read first, `fb'` what is read next. -/
structure Frame where
  before : Timespec
  after : Timespec
  fb : Fb
  fb' : Fb

/-- The second readings of a report. -/
def Stats.reread (s : Stats) (fb : Fb) : Stats :=
  { s with
    pixelCounterPreviousSecond := fb.pixelCounter
    bytesCounterPreviousSecond := fb.bytesCounter }

/-- What a report shows, with the pixels and bytes that have been counted
between its two readings. -/
structure Report where
  stats : Stats
  pixels : UInt64
  bytes : UInt64

/-- `now` is a time before which the clock cannot be read any more. `frames` and
`reports` are no variables of the program. -/
structure LoopState where
  stats : Stats
  now : Int
  frames : Nat
  reports : List Report

/-- The statistics branch is taken. -/
def Stats.isDue (s : Stats) (after : Timespec) : Bool :=
  (getTimespecDiff after s.fpsSnapshot).toUInt64 > 1000000000

/-- The nanoseconds of a `usleep`. -/
def pauseNanos (pause : Option UInt32) : Int :=
  match pause with
  | some arg => 1000 * arg.toNat
  | none => 0

/-- An iteration. The clock is read less than `2 ^ 62` nanoseconds after the start. -/
def iterate (rate : Int32) (start : Timespec) (s : LoopState) (f : Frame) : Option LoopState :=
  if f.before.Normalised ∧ f.after.Normalised ∧ s.now ≤ f.before.nanos ∧
      f.before.nanos ≤ f.after.nanos ∧ f.after.nanos < start.nanos + 2 ^ 62 then
    let (stats, pause) := frameEnd rate f.fb f.before f.after s.stats
    let due := s.stats.isDue f.after
    let stats' := if due then stats.reread f.fb' else stats
    some {
      stats := stats'
      now := f.after.nanos + pauseNanos pause
      frames := s.frames + 1
      reports := if due then
          s.reports ++ [⟨stats', f.fb'.pixelCounter - f.fb.pixelCounter,
            f.fb'.bytesCounter - f.fb.bytesCounter⟩]
        else s.reports }
  else none

/-- Before the loop, behind the `clock_gettime` for `fpsSnapshot`. -/
def loopStart (start : Timespec) : LoopState where
  stats := ⟨start, 0, 0, 0, 0, 0, 0⟩
  now := start.nanos
  frames := 0
  reports := []

def frameLoop (rate : Int32) (start : Timespec) : System LoopState Frame where
  init := loopStart start
  step := iterate rate start

/-! ## An iteration -/

/-- A frame at the given rate. -/
def period (rate : Int32) : Int := 10 ^ 9 / rate.toInt

theorem isDue_iff {s : Stats} {after : Timespec} (hs : s.fpsSnapshot.Normalised)
    (hafter : after.Normalised) (hle : s.fpsSnapshot.nanos ≤ after.nanos)
    (hlt : after.nanos - s.fpsSnapshot.nanos < 2 ^ 62) :
    s.isDue after = true ↔ s.fpsSnapshot.nanos + 10 ^ 9 < after.nanos := by
  have hdiff := getTimespecDiff_toInt hafter hs hle hlt
  rw [Stats.isDue, decide_eq_true_iff, moreThanSecond_iff (by omega), hdiff]
  omega

theorem frameEnd_report (rate : Int32) (fb : Fb) (before after : Timespec) (s : Stats) :
    (frameEnd rate fb before after s).1 =
      if s.isDue after then s.countFrame.report fb after else s.countFrame := by
  simp only [frameEnd, Stats.isDue, decide_eq_true_eq, show s.countFrame.fpsSnapshot =
    s.fpsSnapshot from rfl]

theorem frameEnd_snd (rate : Int32) (fb : Fb) (before after : Timespec) (s : Stats) :
    (frameEnd rate fb before after s).2 =
      if timeLeft rate (getTimespecDiff after before) > 0 then
        some ((timeLeft rate (getTimespecDiff after before)).toUInt64 / 1000).toUInt32
      else none := rfl

theorem pauseNanos_some (arg : UInt32) : pauseNanos (some arg) = 1000 * arg.toNat := rfl

theorem pauseNanos_none : pauseNanos none = 0 := rfl

/-- The pause fills the frame up, but for less than a microsecond. -/
theorem frameEnd_pause {rate : Int32} (hrate : 1 ≤ rate.toInt) (fb : Fb) {before after : Timespec}
    (s : Stats) (hbefore : before.Normalised) (hafter : after.Normalised)
    (hle : before.nanos ≤ after.nanos) (hlt : after.nanos - before.nanos < 2 ^ 62) :
    0 ≤ pauseNanos (frameEnd rate fb before after s).2 ∧
      before.nanos + period rate - 999 ≤
        after.nanos + pauseNanos (frameEnd rate fb before after s).2 := by
  have hdiff := getTimespecDiff_toInt hafter hbefore hle hlt
  have hleft := timeLeft_toInt hrate (show 0 ≤ (getTimespecDiff after before).toInt by omega)
    (by omega)
  obtain ⟨-, hlength⟩ := frameLength_le hrate
  have hdue : timeLeft rate (getTimespecDiff after before) > 0 ↔
      after.nanos - before.nanos < 10 ^ 9 / rate.toInt := by
    rw [gt_iff_lt, Int64.lt_iff_toInt_lt, hleft, hdiff, Int64.toInt_zero]
    omega
  rw [frameEnd_snd, period]
  by_cases hpos : timeLeft rate (getTimespecDiff after before) > 0
  · have hshort := hdue.mp hpos
    have harg := usleepArg_toNat (d := timeLeft rate (getTimespecDiff after before)) (by omega)
      (by omega)
    rw [if_pos hpos, pauseNanos_some, harg]
    omega
  · have hlong := mt hdue.mpr hpos
    rw [if_neg hpos, pauseNanos_none]
    omega

/-! ## The invariant -/

/-- The time that a frame takes at least. -/
def minFrame (rate : Int32) : Int := period rate - 999

structure Inv (rate : Int32) (start : Timespec) (s : LoopState) : Prop where
  normal : s.stats.fpsSnapshot.Normalised
  late : ∀ t ∈ start.nanos :: s.reports.map (·.stats.fpsSnapshot.nanos),
    t ≤ s.stats.fpsSnapshot.nanos
  /-- The frames since the last report have taken their time. -/
  paced : s.stats.fpsSnapshot.nanos + s.stats.fpsCounter.toNat * minFrame rate ≤ s.now
  /-- All of them but the last one were over within a second. -/
  window : (s.stats.fpsCounter.toNat - 1 : Int) * minFrame rate ≤ 10 ^ 9
  elapsed : start.nanos + s.frames * minFrame rate ≤ s.now
  total : (s.reports.map (·.stats.actualFps.toNat)).sum + s.stats.fpsCounter.toNat = s.frames
  shown : ∀ r ∈ s.reports, (r.stats.actualFps.toNat - 2 : Int) * minFrame rate ≤ 10 ^ 9
  spaced : (start.nanos :: s.reports.map (·.stats.fpsSnapshot.nanos)).Pairwise
    fun t t' => t + 10 ^ 9 < t'
  pixels : (s.reports.map fun r => r.stats.actualPixelPerS + r.pixels).sum =
    s.stats.pixelCounterPreviousSecond
  bytes : (s.reports.map fun r => r.stats.actualBytesPerS + r.bytes).sum =
    s.stats.bytesCounterPreviousSecond

theorem Inv.init {rate : Int32} (hslow : 0 < minFrame rate) {start : Timespec}
    (hstart : start.Normalised) : Inv rate start (loopStart start) := by
  constructor
  case normal => exact hstart
  case late => simp [loopStart]
  case paced => simp [loopStart]
  case window =>
    simp only [loopStart, UInt32.toNat_zero]
    omega
  case elapsed => simp [loopStart]
  case total => rfl
  case shown => exact fun r hr => absurd hr List.not_mem_nil
  case spaced => exact List.pairwise_singleton _ _
  case pixels => rfl
  case bytes => rfl

/-- The counter of frames is far from wrapping around. -/
theorem Inv.fpsCounter_lt {rate : Int32} (hslow : 0 < minFrame rate) {start : Timespec}
    {s : LoopState} (h : Inv rate start s) : s.stats.fpsCounter.toNat ≤ 10 ^ 9 + 1 := by
  have hwindow := h.window
  by_contra hlt
  have hle : (s.stats.fpsCounter.toNat - 1 : Int) ≤
      (s.stats.fpsCounter.toNat - 1 : Int) * minFrame rate :=
    le_mul_of_one_le_right (by omega) hslow
  omega

theorem Inv.countFrame_toNat {rate : Int32} (hslow : 0 < minFrame rate) {start : Timespec}
    {s : LoopState} (h : Inv rate start s) :
    s.stats.countFrame.fpsCounter.toNat = s.stats.fpsCounter.toNat + 1 := by
  have hlt := h.fpsCounter_lt hslow
  show (s.stats.fpsCounter + 1).toNat = _
  rw [UInt32.toNat_add]
  exact Nat.mod_eq_of_lt (by show _ + 1 < _; omega)

/-- A counter minus what it was, and what has come in since. -/
theorem reread_sum {sum prev : UInt64} (counter counter' : UInt64) (h : sum = prev) :
    sum + (counter - prev + (counter' - counter)) = counter' := by
  rw [h, add_comm (counter - prev), sub_add_sub_cancel, add_comm, sub_add_cancel]

section Step

variable {rate : Int32} {start : Timespec} {s : LoopState}

theorem succ_mul_minFrame (n : Nat) :
    ((n + 1 : Nat) : Int) * minFrame rate = n * minFrame rate + minFrame rate := by
  rw [Int.natCast_add, Int.natCast_one, Int.add_mul, Int.one_mul]

/-- A frame without a report. -/
theorem Inv.of_count (h : Inv rate start s) (hslow : 0 < minFrame rate) {now : Int}
    (hnow : s.now + minFrame rate ≤ now)
    (hopen : s.stats.fpsCounter.toNat * minFrame rate ≤ 10 ^ 9) :
    Inv rate start ⟨s.stats.countFrame, now, s.frames + 1, s.reports⟩ := by
  have hcount := h.countFrame_toNat hslow
  constructor
  case normal => exact h.normal
  case late => exact h.late
  case paced =>
    have hpaced := h.paced
    simp only [hcount, succ_mul_minFrame]
    show s.stats.fpsSnapshot.nanos + _ ≤ now
    omega
  case window =>
    simp only [hcount, Int.natCast_add, Int.natCast_one, Int.add_sub_cancel]
    exact hopen
  case elapsed =>
    have helapsed := h.elapsed
    simp only [succ_mul_minFrame]
    omega
  case total =>
    have htotal := h.total
    simp only [hcount]
    omega
  case shown => exact h.shown
  case spaced => exact h.spaced
  case pixels => exact h.pixels
  case bytes => exact h.bytes

/-- A frame with a report. -/
theorem Inv.of_report (h : Inv rate start s) (hslow : 0 < minFrame rate) {now : Int}
    {after : Timespec} (fb fb' : Fb) (hafter : after.Normalised)
    (hdue : s.stats.fpsSnapshot.nanos + 10 ^ 9 < after.nanos) (hnow : s.now + minFrame rate ≤ now)
    (hle : after.nanos ≤ now) :
    Inv rate start ⟨(s.stats.countFrame.report fb after).reread fb', now, s.frames + 1,
      s.reports ++ [⟨(s.stats.countFrame.report fb after).reread fb',
        fb'.pixelCounter - fb.pixelCounter, fb'.bytesCounter - fb.bytesCounter⟩]⟩ := by
  have hcount := h.countFrame_toNat hslow
  have hlate : ∀ t ∈ start.nanos :: s.reports.map (·.stats.fpsSnapshot.nanos),
      t + 10 ^ 9 < after.nanos := by
    intro t ht
    have := h.late t ht
    omega
  constructor
  case normal => exact hafter
  case late =>
    intro t ht
    rw [List.map_append, ← List.cons_append, List.mem_append] at ht
    show t ≤ after.nanos
    rcases ht with ht | ht
    · have := hlate t ht
      omega
    · exact Int.le_of_eq (List.mem_singleton.mp ht)
  case paced =>
    show after.nanos + ((0 : UInt32).toNat : Int) * minFrame rate ≤ now
    rw [UInt32.toNat_zero, Int.natCast_zero, Int.zero_mul]
    omega
  case window =>
    show (((0 : UInt32).toNat : Int) - 1) * minFrame rate ≤ 10 ^ 9
    rw [UInt32.toNat_zero]
    omega
  case elapsed =>
    have helapsed := h.elapsed
    simp only [succ_mul_minFrame]
    omega
  case total =>
    have htotal := h.total
    rw [List.map_append, List.sum_append, List.map_singleton, List.sum_singleton]
    show _ + s.stats.countFrame.fpsCounter.toNat + 0 = s.frames + 1
    omega
  case shown =>
    intro r hr
    rcases List.mem_append.mp hr with hr | hr
    · exact h.shown r hr
    · rw [List.mem_singleton.mp hr]
      show (s.stats.countFrame.fpsCounter.toNat - 2 : Int) * minFrame rate ≤ 10 ^ 9
      have hwindow := h.window
      rw [hcount, Int.natCast_add, Int.natCast_one]
      rwa [show (s.stats.fpsCounter.toNat + 1 - 2 : Int) = s.stats.fpsCounter.toNat - 1 by omega]
  case spaced =>
    rw [List.map_append, ← List.cons_append]
    refine List.pairwise_append.mpr ⟨h.spaced, List.pairwise_singleton _ _, ?_⟩
    intro t ht t' ht'
    rw [List.mem_singleton.mp ht']
    exact hlate t ht
  case pixels =>
    rw [List.map_append, List.sum_append, List.map_singleton, List.sum_singleton]
    exact reread_sum _ _ h.pixels
  case bytes =>
    rw [List.map_append, List.sum_append, List.map_singleton, List.sum_singleton]
    exact reread_sum _ _ h.bytes

theorem Inv.iterate (h : Inv rate start s) (hrate : 1 ≤ rate.toInt) (hslow : 0 < minFrame rate)
    {s' : LoopState} {f : Frame} (hstep : iterate rate start s f = some s') :
    Inv rate start s' := by
  simp only [Main.iterate, Option.ite_none_right_eq_some, Option.some.injEq] at hstep
  obtain ⟨⟨hbefore, hafter, hnow, hle, hlt⟩, rfl⟩ := hstep
  have hsnapshot := h.late start.nanos List.mem_cons_self
  have hpaced := h.paced
  have hnonneg : 0 ≤ (s.stats.fpsCounter.toNat : Int) * minFrame rate :=
    Int.mul_nonneg (Int.natCast_nonneg _) (Int.le_of_lt hslow)
  have helapsed := h.elapsed
  have hframes : 0 ≤ (s.frames : Int) * minFrame rate :=
    Int.mul_nonneg (Int.natCast_nonneg _) (Int.le_of_lt hslow)
  obtain ⟨hpause, hfill⟩ := frameEnd_pause hrate f.fb s.stats hbefore hafter hle (by omega)
  have hdue := isDue_iff h.normal hafter (by omega) (by omega)
  rw [frameEnd_report]
  generalize pauseNanos (frameEnd rate f.fb f.before f.after s.stats).2 = p at hpause hfill ⊢
  have hnext : s.now + minFrame rate ≤ f.after.nanos + p := by
    unfold minFrame
    omega
  cases hd : s.stats.isDue f.after with
  | true => exact h.of_report hslow f.fb f.fb' hafter (hdue.mp hd) hnext (by omega)
  | false =>
    have hopen : f.after.nanos ≤ s.stats.fpsSnapshot.nanos + 10 ^ 9 := by
      rw [hd] at hdue
      exact Int.not_lt.mp fun hlt => Bool.false_ne_true (hdue.mpr hlt)
    exact h.of_count hslow hnext (by omega)

end Step

/-! ## Whole runs -/

theorem minFrame_pos {rate : Int32} (hrate : 1 ≤ rate.toInt) (hslow : rate.toInt ≤ 10 ^ 6) :
    0 < minFrame rate := by
  have hperiod : (1000 : Int) ≤ 10 ^ 9 / rate.toInt :=
    (Int.le_ediv_iff_mul_le (by omega)).mpr (by omega)
  unfold minFrame period
  omega

/-- Two frames at 60 a second: a short one, and one that takes more than a second
and reports. -/
def twoFrames : List Frame :=
  [⟨⟨5, 0⟩, ⟨5, 4000000⟩, ⟨⟨1, 1⟩, 0, 0, 10, 100⟩, ⟨⟨1, 1⟩, 0, 0, 10, 100⟩⟩,
    ⟨⟨5, 16666000⟩, ⟨6, 500000000⟩, ⟨⟨1, 1⟩, 0, 0, 70, 700⟩, ⟨⟨1, 1⟩, 0, 0, 72, 720⟩⟩]

example : ((frameLoop 60 ⟨5, 0⟩).run (frameLoop 60 ⟨5, 0⟩).init twoFrames).map (fun s =>
    (s.frames, s.stats.fpsCounter, s.reports.map fun r => (r.stats.actualFps, r.pixels))) =
      some (2, 0, [(2, 2)]) := by decide

end Pixelflut.Main
