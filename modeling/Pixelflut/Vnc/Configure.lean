import Pixelflut.Main.Basic

/-!
# The configuration of a VNC frontend

A port and a font are options of `-f vnc,...`. `main` configures the frontend,
starts it, and then loads its own font into it.

* `configureAll_configured`: accepted options leave the last port and the last
  font;
* `register_eq`: what a completed registration leaves of them;
* `userDecides_iff`: the options decide exactly when they name no font.
-/

namespace Pixelflut

/-! ## The frontend -/

/-- What of a `rfbScreenInfo` the options are about. -/
structure RfbServer where
  port : Int32
  ipv6port : Int32
  autoPort : Bool
  deriving DecidableEq

structure Vnc (Font : Type) where
  server : RfbServer
  font : Option Font
  deriving DecidableEq

namespace Vnc.Configure

open Lib.CString Pixelflut.Frontend Main

/-- The functions of the RFB library. -/
structure Rfb (Font : Type) where
  loadConsoleFont : Text → Option Font
  initServer : RfbServer → RfbServer
  runEventLoop : RfbServer → RfbServer

/-- The library chooses a port only when it has been told to. -/
structure Rfb.KeepsPorts {Font : Type} (rfb : Rfb Font) : Prop where
  initServer : ∀ s, s.autoPort = false → rfb.initServer s = s
  runEventLoop : ∀ s, s.autoPort = false → rfb.runEventLoop s = s

def isSpace (c : UInt8) : Bool := c = 32 || (9 ≤ c && c ≤ 13)

def isDigit (c : UInt8) : Bool := 48 ≤ c && c ≤ 57

/-- A `long` that stops at its bounds, cut to an `int`. -/
def atoi (s : Text) : Int32 :=
  let s := s.dropWhile isSpace
  let digits := fun s : Text =>
    (s.takeWhile isDigit).foldl (fun n c => 10 * n + (c.toNat - 48 : Int)) 0
  .ofInt <| match s with
    | 45 :: s => max (-digits s) (-2 ^ 63)
    | 43 :: s => min (digits s) (2 ^ 63 - 1)
    | s => min (digits s) (2 ^ 63 - 1)

variable {Font : Type}

def vncConfigurePort (vnc : Vnc Font) : Option Text → Vnc Font × Int
  | none => (vnc, -EINVAL)
  | some value =>
    let port := atoi value
    if port < 0 || port > 65535 then (vnc, -EINVAL)
    else ({ vnc with server := ⟨port, port, false⟩ }, 0)

def vncConfigureFont (rfb : Rfb Font) (vnc : Vnc Font) : Option Text → Vnc Font × Int
  | none => (vnc, -EINVAL)
  | some value =>
    let vnc := { vnc with font := rfb.loadConsoleFont value }
    if vnc.font.isNone then (vnc, -EINVAL) else (vnc, 0)

def vncStart (rfb : Rfb Font) (vnc : Vnc Font) : Vnc Font × Int :=
  ({ vnc with server := rfb.runEventLoop (rfb.initServer vnc.server) }, 0)

def portName : Text := ascii ['p', 'o', 'r', 't']

def fontName : Text := ascii ['f', 'o', 'n', 't']

def fargs (rfb : Rfb Font) : ArgTable (Vnc Font) where
  entries := [⟨portName, vncConfigurePort⟩, ⟨fontName, vncConfigureFont rfb⟩]
  named := by simp [portName, fontName, ascii]

/-! ## Registration -/

/-- `#define FONT`. -/
def FONT : Text :=
  ascii ['.', '/', 'z', 'a', 'p', '-', 'v', 'g', 'a', '1', '6', '.', 'p', 's', 'f']

/-- Go on after a step that returns 0. -/
def check {F : Type} : F × Int → Except (Option Int) F
  | (front, err) => if err ≠ 0 then .error (some err) else .ok front

/-- The registration of the specification at `frontid`; `vnc` is what `vnc_alloc`
has made. A name that is not known leaves no error. -/
def register (rfb : Rfb Font) (m : Text) (frontid : Nat) (vnc : Vnc Font) :
    Option (Except (Option Int) (Vnc Font)) := do
  let (m, options) ← frontendSpecExtractName m frontid
  let id ← text m frontid
  match frontendGetDef id with
  | none => return .error none
  | some frontdef =>
    -- the last entry of the table has a null pointer for its function
    let args := (fargs rfb).array fun vnc _ => (vnc, 0)
    let configured ← match options with
      | some options =>
        if frontdef.canConfigure then
          (frontendConfigure (some args) m vnc options).map (·.2)
        else some (vnc, 0)
      | none => some (vnc, 0)
    return do
      let vnc ← check configured
      let vnc ← check (if frontdef.canStart then vncStart rfb vnc else (vnc, 0))
      check (if frontdef.name = "VNC server frontend" then vncConfigureFont rfb vnc (some FONT)
        else (vnc, 0))

/-! ## What the options say -/

/-- The value of the last option of this name. -/
def lastValue (name : Text) : List Text → Option Text
  | [] => none
  | segment :: rest =>
    (lastValue name rest).or (if before EQUALS segment = name then after EQUALS segment else none)

/-- An option of this name is given. -/
def Given (name : Text) (segs : List Text) : Prop :=
  ∃ segment ∈ segs, before EQUALS segment = name

/-- The options decide the port and the font; the font of `main` is for those who name
none. When the last `font=` names `FONT` itself, `font` asks for what `byDefault`
forbids: then `FONT` is in effect although a font is named, and this does not hold. -/
structure UserDecides (rfb : Rfb Font) (segs : List Text) (vnc : Vnc Font) : Prop where
  port : ∀ value, lastValue portName segs = some value →
    vnc.server.port = atoi value ∧ vnc.server.ipv6port = atoi value
  font : ∀ value, lastValue fontName segs = some value → vnc.font = rfb.loadConsoleFont value
  byDefault : vnc.font = rfb.loadConsoleFont FONT → ¬Given fontName segs

theorem given_of_lastValue {name value : Text} {segs : List Text}
    (h : lastValue name segs = some value) : Given name segs := by
  induction segs with
  | nil => cases h
  | cons segment rest ih =>
    rw [lastValue, Option.or_eq_some_iff] at h
    rcases h with hrest | ⟨-, hfirst⟩
    · obtain ⟨other, hmem, hname⟩ := ih hrest
      exact ⟨other, .tail _ hmem, hname⟩
    · split at hfirst
      case isTrue hname => exact ⟨segment, .head _, hname⟩
      case isFalse => cases hfirst

variable {rfb : Rfb Font} {vnc vnc' : Vnc Font}

/-! ## Accepted options -/

theorem vncConfigurePort_ok {value : Option Text} (h : vncConfigurePort vnc value = (vnc', 0)) :
    ∃ v, value = some v ∧ vnc' = { vnc with server := ⟨atoi v, atoi v, false⟩ } := by
  cases value with
  | none => cases h
  | some v =>
    simp only [vncConfigurePort] at h
    split at h
    · cases h
    · cases h
      exact ⟨v, rfl, rfl⟩

theorem vncConfigureFont_ok {value : Option Text}
    (h : vncConfigureFont rfb vnc value = (vnc', 0)) :
    ∃ v, value = some v ∧ vnc' = { vnc with font := rfb.loadConsoleFont v } := by
  cases value with
  | none => cases h
  | some v =>
    simp only [vncConfigureFont] at h
    split at h
    · cases h
    · cases h
      exact ⟨v, rfl, rfl⟩

/-- **One option.** -/
theorem configureSegment_ok {segment : Text}
    (h : configureSegment (fargs rfb) vnc segment = (vnc', 0)) :
    ∃ v, after EQUALS segment = some v ∧
      (before EQUALS segment = portName ∧ vnc' = { vnc with server := ⟨atoi v, atoi v, false⟩ } ∨
        before EQUALS segment = fontName ∧ vnc' = { vnc with font := rfb.loadConsoleFont v }) := by
  by_cases hport : before EQUALS segment = portName
  · simp only [configureSegment, fargs, List.find?_cons, hport, decide_true] at h
    obtain ⟨v, hv, rfl⟩ := vncConfigurePort_ok h
    exact ⟨v, hv, .inl ⟨hport, rfl⟩⟩
  · by_cases hfont : before EQUALS segment = fontName
    · have hne : decide (portName = fontName) = false := by decide
      simp only [configureSegment, fargs, List.find?_cons, hfont, hne, decide_true] at h
      obtain ⟨v, hv, rfl⟩ := vncConfigureFont_ok h
      exact ⟨v, hv, .inr ⟨hfont, rfl⟩⟩
    · -- neither name: the end of the table
      have hport' : decide (portName = before EQUALS segment) = false :=
        decide_eq_false (Ne.symm hport)
      have hfont' : decide (fontName = before EQUALS segment) = false :=
        decide_eq_false (Ne.symm hfont)
      simp only [configureSegment, fargs, List.find?_cons, hport', hfont', List.find?_nil] at h
      cases h

/-- What accepted options leave. -/
structure Configured (rfb : Rfb Font) (segs : List Text) (vnc vnc' : Vnc Font) : Prop where
  server : vnc'.server =
    ((lastValue portName segs).map fun v => ⟨atoi v, atoi v, false⟩).getD vnc.server
  font : vnc'.font = ((lastValue fontName segs).map rfb.loadConsoleFont).getD vnc.font

/-- A value behind others is the last one. -/
theorem getD_or {α β : Type} (f : α → β) (o : Option α) (v : α) (b : β) :
    (o.map f).getD (f v) = ((o.or (some v)).map f).getD b := by
  cases o with
  | none => rfl
  | some w => rfl

/-- **All options**, by induction on the segments. -/
theorem configureAll_configured {segs : List Text}
    (h : configureAll (fargs rfb) vnc segs = (vnc', 0)) : Configured rfb segs vnc vnc' := by
  induction segs generalizing vnc with
  | nil =>
    cases h
    exact ⟨rfl, rfl⟩
  | cons segment rest ih =>
    rw [configureAll] at h
    cases hsegment : configureSegment (fargs rfb) vnc segment with
    | mk vnc₁ err =>
      simp only [hsegment] at h
      split at h
      case isTrue herr =>
        cases h
        exact absurd rfl herr
      case isFalse herr =>
        rw [Decidable.not_not.mp herr] at hsegment
        obtain ⟨hserver, hfont⟩ := ih h
        obtain ⟨v, hv, ⟨hname, rfl⟩ | ⟨hname, rfl⟩⟩ := configureSegment_ok hsegment
        · have hne : portName ≠ fontName := by decide
          constructor
          case server =>
            rw [hserver, lastValue, if_pos hname, hv]
            exact getD_or _ _ v _
          case font => rw [hfont, lastValue, hname, if_neg hne, Option.or_none]
        · have hne : fontName ≠ portName := by decide
          constructor
          case server => rw [hserver, lastValue, hname, if_neg hne, Option.or_none]
          case font =>
            rw [hfont, lastValue, if_pos hname, hv]
            exact getD_or _ _ v _

/-! ## The whole registration -/

/-- A specification of a VNC frontend. -/
def vncSpec (options : Text) : Text := ascii ['v', 'n', 'c'] ++ COMMA :: options

/-- What `main` does behind `frontend_configure`. -/
def startWithFont (rfb : Rfb Font) (vnc : Vnc Font) : Except (Option Int) (Vnc Font) := do
  let vnc ← check (vncStart rfb vnc)
  check (vncConfigureFont rfb vnc (some FONT))

theorem register_eq {m : Text} {p : Nat} {options : Text} (h : text m p = some (vncSpec options))
    (vnc : Vnc Font) :
    register rfb m p vnc =
      some (check (configureAll (fargs rfb) vnc (segments options)) >>= startWithFont rfb) := by
  have hcomma : COMMA ∉ ascii ['v', 'n', 'c'] := by decide
  obtain ⟨m', ptr, hextract, hid, hoptions⟩ := frontendSpecExtractName_eq h
  rw [vncSpec, before_of_first hcomma] at hid
  rw [vncSpec, after_of_first hcomma] at hoptions
  have hdef : frontendGetDef (ascii ['v', 'n', 'c']) = some frontVnc := rfl
  by_cases hnil : options = []
  · -- the pointer is null, and there are no segments
    subst hnil
    cases ptr with
    | some q =>
      simp only [textAt, ↓reduceIte, Option.map_eq_some_iff, reduceCtorEq, and_false, exists_false]
        at hoptions
    | none =>
      simp only [register, hextract, hid, hdef, Option.bind_eq_bind, Option.bind_some]
      rfl
  · rw [if_neg hnil] at hoptions
    cases ptr with
    | none => cases hoptions
    | some q =>
      obtain ⟨s, hs, heq⟩ := Option.map_eq_some_iff.mp hoptions
      cases heq
      obtain ⟨m'', hconfigure⟩ := frontendConfigure_eq (fargs rfb) (fun vnc _ => (vnc, 0)) vnc hs
      simp only [register, hextract, hid, hdef, hconfigure, Option.bind_eq_bind, Option.bind_some,
        frontVnc, ↓reduceIte, Option.map_some]
      rfl

theorem check_ok {F : Type} {r : F × Int} {front : F} (h : check r = .ok front) : r = (front, 0) := by
  obtain ⟨front', err⟩ := r
  simp only [check] at h
  split at h
  case isTrue => cases h
  case isFalse herr =>
    cases h
    rw [Decidable.not_not.mp herr]

/-- A completed registration: accepted options, a server that has been started,
and the font of `main`. -/
theorem register_ok {m : Text} {p : Nat} {options : Text} (h : text m p = some (vncSpec options))
    (hdone : register rfb m p vnc = some (.ok vnc')) :
    ∃ vnc₁, Configured rfb (segments options) vnc vnc₁ ∧
      vnc' = ⟨rfb.runEventLoop (rfb.initServer vnc₁.server), rfb.loadConsoleFont FONT⟩ := by
  rw [register_eq h, Option.some.injEq] at hdone
  cases hconfigure : check (configureAll (fargs rfb) vnc (segments options)) with
  | error err =>
    rw [hconfigure] at hdone
    cases hdone
  | ok vnc₁ =>
    rw [hconfigure] at hdone
    refine ⟨vnc₁, configureAll_configured (check_ok hconfigure), ?_⟩
    have hstart : check (vncConfigureFont rfb (vncStart rfb vnc₁).1 (some FONT)) = .ok vnc' := hdone
    obtain ⟨v, hv, rfl⟩ := vncConfigureFont_ok (check_ok hstart)
    cases hv
    rfl

/-- **The options decide exactly when they name no font.** After a completed
registration the port is that of the last `port=`; the font is that of `main`,
also when the options name another one. -/
theorem userDecides_iff (hports : rfb.KeepsPorts) {m : Text} {p : Nat} {options : Text}
    (h : text m p = some (vncSpec options)) (hdone : register rfb m p vnc = some (.ok vnc')) :
    (UserDecides rfb (segments options) vnc' ↔ ¬Given fontName (segments options)) ∧
    (∀ value, lastValue portName (segments options) = some value →
      vnc'.server.port = atoi value ∧ vnc'.server.ipv6port = atoi value) ∧
    ((∀ value, lastValue fontName (segments options) = some value →
        vnc'.font = rfb.loadConsoleFont value) ↔
      ∀ value, lastValue fontName (segments options) = some value →
        rfb.loadConsoleFont value = rfb.loadConsoleFont FONT) := by
  obtain ⟨vnc₁, hconfigured, rfl⟩ := register_ok h hdone
  have hport : ∀ value, lastValue portName (segments options) = some value →
      (rfb.runEventLoop (rfb.initServer vnc₁.server)).port = atoi value ∧
        (rfb.runEventLoop (rfb.initServer vnc₁.server)).ipv6port = atoi value := by
    intro value hvalue
    have hserver : vnc₁.server = ⟨atoi value, atoi value, false⟩ := by
      rw [hconfigured.server, hvalue]
      rfl
    simp only [hserver, hports.initServer, hports.runEventLoop, and_self]
  refine ⟨⟨fun hdecides => hdecides.byDefault rfl, fun hnone => ?_⟩, hport, ?_⟩
  · refine ⟨hport, fun value hvalue => ?_, fun _ => hnone⟩
    exact absurd (given_of_lastValue hvalue) hnone
  · exact forall_congr' fun value => imp_congr_right fun _ => eq_comm

/-- Every file is a font, known by its name; the library takes a port of its own
when it may. -/
def namedFonts : Rfb Text where
  loadConsoleFont := some
  initServer s := if s.autoPort then { s with port := 5900, ipv6port := 5900 } else s
  runEventLoop s := s

theorem namedFonts_keepsPorts : namedFonts.KeepsPorts :=
  ⟨fun s h => by simp [namedFonts, h], fun _ _ => rfl⟩

def portOption : Text := ascii ['p', 'o', 'r', 't', '=', '2', '3', '4', '2']

def fontOption : Text := ascii ['f', 'o', 'n', 't', '=', 'a']

/-- `vnc,port=2342`. -/
theorem userDecides_iff_port :
    ∃ vnc', register namedFonts (vncSpec portOption ++ [0]) 0 ⟨⟨0, 0, true⟩, none⟩ = some (.ok vnc') ∧
      vnc'.server.port = 2342 ∧ UserDecides namedFonts (segments portOption) vnc' := by
  have h : text (vncSpec portOption ++ [0]) 0 = some (vncSpec portOption) := by decide
  have hdone : register namedFonts (vncSpec portOption ++ [0]) 0 ⟨⟨0, 0, true⟩, none⟩ =
      some (.ok ⟨⟨2342, 2342, false⟩, some FONT⟩) := by decide +kernel
  have hnone : ¬Given fontName (segments portOption) := by unfold Given; decide +kernel
  exact ⟨_, hdone, rfl, (userDecides_iff namedFonts_keepsPorts h hdone).1.mpr hnone⟩

/-- `vnc,font=a`: the frontend ends up with the font of `main`. -/
theorem font_of_user_forgotten :
    ∃ vnc', register namedFonts (vncSpec fontOption ++ [0]) 0 ⟨⟨0, 0, true⟩, none⟩ = some (.ok vnc') ∧
      ¬UserDecides namedFonts (segments fontOption) vnc' := by
  refine ⟨⟨⟨5900, 5900, true⟩, some FONT⟩, by decide +kernel, fun h => ?_⟩
  have hfont := h.font (ascii ['a']) (by decide +kernel)
  exact absurd hfont (by decide)

end Vnc.Configure

end Pixelflut
