import Mathlib.Data.Nat.Digits.Defs
import Pixelflut.Vnc.Configure

/-!
# From what a user means to what a frontend gets

The specification of a frontend is a name and a list of options, written with
commas and equals signs, and `-f` hands over the text.

* `segments_render`: the text has the options for its segments;
* `spec_round_trip`: the parser finds the name again, and configures the options
  one after another, each with its value, up to the first one that is refused;
* `registers_iff`: the options of a VNC frontend are taken exactly when each of
  them is a port in range or a font that can be loaded;
* `atoi_numeral`: a string of digits is read as its value, as far as an `int`
  goes;
* `ports_round_trip`: of ports written in digits the last one is the port of the
  server, if all of them are in range.
-/

namespace Pixelflut.Vnc.RoundTrip

open Lib.CString Pixelflut.Frontend Main Configure

/-! ## Options -/

/-- An option that can be written down: the name stops at an equals sign, and
both parts stop at a comma. -/
structure UserOption where
  name : Text
  value : Option Text
  name_ne : name ≠ []
  name_comma : COMMA ∉ name
  name_equals : EQUALS ∉ name
  value_ne : value ≠ some []
  value_comma : ∀ v, value = some v → COMMA ∉ v

def UserOption.segment (o : UserOption) : Text :=
  match o.value with
  | none => o.name
  | some v => o.name ++ EQUALS :: v

def render : List UserOption → Text
  | [] => []
  | [o] => o.segment
  | o :: o' :: os => o.segment ++ COMMA :: render (o' :: os)

/-- The argument of `-f`. -/
def spec (id : Text) : List UserOption → Text
  | [] => id
  | o :: os => id ++ COMMA :: render (o :: os)

theorem UserOption.before_segment (o : UserOption) : before EQUALS o.segment = o.name := by
  unfold segment
  cases o.value with
  | none => exact before_of_not_mem o.name_equals
  | some v => exact before_of_first o.name_equals v

theorem UserOption.after_segment (o : UserOption) : after EQUALS o.segment = o.value := by
  have hne := o.value_ne
  unfold segment
  cases hv : o.value with
  | none => exact after_of_not_mem o.name_equals
  | some v =>
    rw [hv] at hne
    rw [after_of_first o.name_equals, if_neg fun hnil => hne (congrArg some hnil)]

theorem UserOption.segment_ne (o : UserOption) : o.segment ≠ [] := by
  have hname := o.name_ne
  unfold segment
  cases o.value with
  | none => exact hname
  | some v => simp

theorem UserOption.segment_comma (o : UserOption) : COMMA ∉ o.segment := by
  have hname := o.name_comma
  have hvalue := o.value_comma
  have hne : COMMA ≠ EQUALS := by decide
  unfold segment
  cases hv : o.value with
  | none => exact hname
  | some v => simp [hname, hne, hvalue v hv]

theorem segments_render (os : List UserOption) :
    segments (render os) = os.map UserOption.segment := by
  induction os with
  | nil => rfl
  | cons o os ih =>
    cases os with
    | nil =>
      rw [render, segments_of_not_mem o.segment_comma, if_neg o.segment_ne]
      rfl
    | cons o' os =>
      rw [render, segments_of_first o.segment_comma, ih]
      rfl

theorem render_ne (o : UserOption) (os : List UserOption) : render (o :: os) ≠ [] := by
  cases os with
  | nil => exact o.segment_ne
  | cons o' os => simp [render]

/-! ## Round trip -/

section

variable {F : Type}

/-- An option is looked up by its name, and gets its value. -/
def configureOption (t : ArgTable F) (front : F) (o : UserOption) : F × Int :=
  match t.entries.find? (·.name = o.name) with
  | some arg => arg.configure front o.value
  | none => (front, -ENOENT)

def configureOptions (t : ArgTable F) (front : F) : List UserOption → F × Int
  | [] => (front, 0)
  | o :: os =>
    let (front, err) := configureOption t front o
    if err ≠ 0 then (front, err) else configureOptions t front os

theorem configureAll_segments (t : ArgTable F) (front : F) (os : List UserOption) :
    configureAll t front (os.map UserOption.segment) = configureOptions t front os := by
  induction os generalizing front with
  | nil => rfl
  | cons o os ih =>
    have hone : configureSegment t front o.segment = configureOption t front o := by
      rw [configureSegment, o.before_segment, o.after_segment]
      rfl
    rw [List.map_cons, configureAll, configureOptions, hone]
    simp only [ih]

/-- **What is written is what is configured.** For every name, every list of
options that can be written down, every buffer that holds the text somewhere, and
every table: the name is found again, and the configuration of the rest is that
of the options, in order and with their values. -/
theorem spec_round_trip {m : Text} {p : Nat} {id : Text} (hid : COMMA ∉ id) (os : List UserOption)
    (h : text m p = some (spec id os)) :
    ∃ m' options, frontendSpecExtractName m p = some (m', options) ∧ text m' p = some id ∧
      (options = none ↔ os = []) ∧
      ∀ q, options = some q → ∀ (t : ArgTable F) (last : F → Option Text → F × Int) (front : F),
        ∃ m'', frontendConfigure (some (t.array last)) m' front q =
          some (m'', configureOptions t front os) := by
  obtain ⟨m', options, hextract, hname, hoptions⟩ := frontendSpecExtractName_eq h
  cases os with
  | nil =>
    rw [spec, before_of_not_mem hid] at hname
    rw [spec, after_of_not_mem hid] at hoptions
    have hnone : options = none := by
      cases options with
      | none => rfl
      | some q => simp [textAt] at hoptions
    subst hnone
    exact ⟨m', none, hextract, hname, by simp, fun q hq => by cases hq⟩
  | cons o os =>
    rw [spec, before_of_first hid] at hname
    rw [spec, after_of_first hid, if_neg (render_ne o os)] at hoptions
    cases options with
    | none => cases hoptions
    | some q =>
      obtain ⟨s, hs, heq⟩ := Option.map_eq_some_iff.mp hoptions
      cases heq
      refine ⟨m', some q, hextract, hname, by simp, fun q' hq' t last front => ?_⟩
      cases hq'
      obtain ⟨m'', hconfigure⟩ := frontendConfigure_eq t last front hs
      rw [segments_render, configureAll_segments] at hconfigure
      exact ⟨m'', hconfigure⟩

end

/-- `font=a=b,port`. -/
def twoOptions : List UserOption :=
  [⟨fontName, some (ascii ['a', '=', 'b']), by decide, by decide, by decide, by decide,
      fun v hv => by cases hv; decide⟩,
    ⟨portName, none, by decide, by decide, by decide, by decide, fun v hv => by cases hv⟩]

theorem spec_round_trip_twoOptions :
    ∃ m' q m'', frontendSpecExtractName (spec (ascii ['x']) twoOptions ++ [0]) 0 =
        some (m', some q) ∧
      frontendConfigure (some (recorder.array fun calls _ => (calls, 0))) m' [] q =
        some (m'', [(fontName, some (ascii ['a', '=', 'b'])), (portName, none)], 0) := by
  have h : text (spec (ascii ['x']) twoOptions ++ [0]) 0 =
      some (spec (ascii ['x']) twoOptions) := by decide
  obtain ⟨m', options, hextract, -, hnone, hconfigure⟩ := spec_round_trip (by decide) twoOptions h
  cases options with
  | none => cases hnone.mp rfl
  | some q =>
    obtain ⟨m'', hq⟩ := hconfigure q rfl recorder (fun calls _ => (calls, 0)) []
    exact ⟨m', q, m'', hextract, hq⟩

/-! ## The options of a VNC frontend -/

section

variable {Font : Type} {rfb : Rfb Font} {vnc : Vnc Font}

/-- The name of the frontend. -/
def vncName : Text := ascii ['v', 'n', 'c']

/-- A port in range, or a font that there is. -/
def Accepted (rfb : Rfb Font) (o : UserOption) : Prop :=
  (o.name = portName ∧ ∃ v, o.value = some v ∧ 0 ≤ atoi v ∧ atoi v ≤ 65535) ∨
    (o.name = fontName ∧ ∃ v, o.value = some v ∧ (rfb.loadConsoleFont v).isSome)

theorem register_spec {m : Text} {p : Nat} {os : List UserOption}
    (h : text m p = some (spec vncName os)) (vnc : Vnc Font) :
    Configure.register rfb m p vnc =
      some (check (configureOptions (fargs rfb) vnc os) >>= startWithFont rfb) := by
  cases os with
  | nil =>
    -- no comma, and no pointer to options
    have hcomma : COMMA ∉ vncName := by decide
    have hdef : frontendGetDef vncName = some frontVnc := rfl
    obtain ⟨m', ptr, hextract, hid, hoptions⟩ := frontendSpecExtractName_eq h
    rw [spec, before_of_not_mem hcomma] at hid
    rw [spec, after_of_not_mem hcomma] at hoptions
    cases ptr with
    | some q => simp [textAt] at hoptions
    | none =>
      simp only [Configure.register, hextract, hid, hdef, Option.bind_eq_bind, Option.bind_some]
      rfl
  | cons o os =>
    rw [register_eq h, segments_render, configureAll_segments]

theorem vncConfigurePort_iff {value : Option Text} :
    (vncConfigurePort vnc value).2 = 0 ↔ ∃ v, value = some v ∧ 0 ≤ atoi v ∧ atoi v ≤ 65535 := by
  cases value with
  | none => simp [vncConfigurePort, EINVAL]
  | some v =>
    simp only [vncConfigurePort, Option.some.injEq, exists_eq_left']
    split
    case isTrue h =>
      have hrange : ¬(0 ≤ atoi v ∧ atoi v ≤ 65535) := by
        simpa [or_iff_not_imp_left, Int32.not_lt] using h
      simp [EINVAL, hrange]
    case isFalse h =>
      have hrange : 0 ≤ atoi v ∧ atoi v ≤ 65535 := by simpa using h
      simp [hrange]

theorem vncConfigureFont_iff {value : Option Text} :
    (vncConfigureFont rfb vnc value).2 = 0 ↔
      ∃ v, value = some v ∧ (rfb.loadConsoleFont v).isSome := by
  cases value with
  | none => simp [vncConfigureFont, EINVAL]
  | some v => cases h : rfb.loadConsoleFont v <;> simp [vncConfigureFont, EINVAL, h]

/-- An option is refused only for itself. -/
theorem configureOption_iff (rfb : Rfb Font) (vnc : Vnc Font) (o : UserOption) :
    (configureOption (fargs rfb) vnc o).2 = 0 ↔ Accepted rfb o := by
  have hne : portName ≠ fontName := by decide
  by_cases hport : o.name = portName
  · simp [configureOption, fargs, Accepted, hport, hne, vncConfigurePort_iff]
  · by_cases hfont : o.name = fontName
    · simp [configureOption, fargs, Accepted, hfont, hne, Ne.symm hne, vncConfigureFont_iff]
    · simp [configureOption, fargs, Accepted, hport, hfont, Ne.symm hport, Ne.symm hfont, ENOENT]

theorem configureOptions_iff (vnc : Vnc Font) (os : List UserOption) :
    (configureOptions (fargs rfb) vnc os).2 = 0 ↔ ∀ o ∈ os, Accepted rfb o := by
  induction os generalizing vnc with
  | nil => simp [configureOptions]
  | cons o os ih =>
    have hone := configureOption_iff rfb vnc o
    simp only [configureOptions, List.forall_mem_cons, ← hone]
    split
    case isTrue h => simp [h]
    case isFalse h => simp [Decidable.not_not.mp h, ih]

/-- **What is taken, and what it leaves.** For every list of options, wherever
the text stands: the registration is completed exactly when every option is a
port in range or a font that there is, and the font of `main` can be loaded. -/
theorem registers_iff {m : Text} {p : Nat} {os : List UserOption}
    (h : text m p = some (spec vncName os)) (vnc : Vnc Font) :
    (∃ vnc', Configure.register rfb m p vnc = some (.ok vnc')) ↔
      (∀ o ∈ os, Accepted rfb o) ∧ (rfb.loadConsoleFont FONT).isSome := by
  rw [register_spec h, ← configureOptions_iff vnc]
  obtain ⟨vnc₁, err⟩ := configureOptions (fargs rfb) vnc os
  by_cases herr : err = 0
  · subst herr
    cases hfont : rfb.loadConsoleFont FONT <;>
      simp [check, startWithFont, vncStart, vncConfigureFont, hfont, EINVAL, Bind.bind,
        Except.bind]
  · simp [check, herr, Bind.bind, Except.bind]

end

/-- `vnc,font=a=b,port`: a port without a number. -/
theorem registers_iff_twoOptions :
    ¬∃ vnc', Configure.register namedFonts (spec vncName twoOptions ++ [0]) 0 ⟨⟨0, 0, true⟩, none⟩ =
      some (.ok vnc') := by
  have h : text (spec vncName twoOptions ++ [0]) 0 = some (spec vncName twoOptions) := by decide
  rw [registers_iff h]
  rintro ⟨haccepted, -⟩
  rcases haccepted _ (.tail _ (.head _)) with ⟨-, v, hv, -⟩ | ⟨-, v, hv, -⟩
  · cases hv
  · cases hv

/-! ## Ports in digits -/

/-- A number as it is written. Zeros in front are allowed. -/
structure Numeral where
  digits : List (Fin 10)
  digits_ne : digits ≠ []

def digit (d : Fin 10) : UInt8 := 48 + d.val.toUInt8

def Numeral.text (n : Numeral) : Text := n.digits.map digit

def Numeral.value (n : Numeral) : Nat := Nat.ofDigits 10 (n.digits.reverse.map Fin.val)

theorem isDigit_digit (d : Fin 10) : isDigit (digit d) = true := by revert d; decide

theorem isSpace_digit (d : Fin 10) : isSpace (digit d) = false := by revert d; decide

theorem digit_ne_sign (d : Fin 10) : digit d ≠ 45 ∧ digit d ≠ 43 := by revert d; decide

theorem digit_toNat (d : Fin 10) : ((digit d).toNat - 48 : Int) = d.val := by revert d; decide

/-- The loop of `atoi`, one digit after another. -/
theorem foldl_digits (ds : List (Fin 10)) :
    (ds.map digit).foldl (fun n c => 10 * n + (c.toNat - 48 : Int)) 0 =
      (Nat.ofDigits 10 (ds.reverse.map Fin.val) : Nat) := by
  induction ds using List.reverseRecOn with
  | nil => rfl
  | append_singleton ds d ih =>
    rw [List.map_append, List.foldl_append, ih, List.reverse_append]
    simp only [List.map_cons, List.map_nil, List.foldl_cons, List.foldl_nil, digit_toNat,
      List.reverse_singleton, List.cons_append, List.nil_append, Nat.ofDigits_cons]
    push_cast
    omega

theorem atoi_numeral (n : Numeral) : atoi n.text = .ofInt (min n.value (2 ^ 63 - 1)) := by
  obtain ⟨ds, hds⟩ := n
  have hdigits : (ds.map digit).takeWhile isDigit = ds.map digit := by
    rw [List.takeWhile_eq_self_iff]
    intro c hc
    obtain ⟨d, -, rfl⟩ := List.mem_map.mp hc
    exact isDigit_digit d
  have hvalue := foldl_digits ds
  cases ds with
  | nil => exact absurd rfl hds
  | cons d ds =>
    obtain ⟨hminus, hplus⟩ := digit_ne_sign d
    rw [Numeral.text, atoi, List.map_cons,
      List.dropWhile_cons_of_neg (by simp [isSpace_digit])]
    rw [List.map_cons] at hdigits hvalue
    split
    case h_1 heq => exact absurd (List.cons.inj heq).1 hminus
    case h_2 heq => exact absurd (List.cons.inj heq).1 hplus
    case h_3 => simp only [hdigits, hvalue, Numeral.value]

/-- What `atoi` keeps of a number: a `long` that stops at its bound, cut to 32
bits. -/
def Numeral.cut (n : Numeral) : Nat := min n.value (2 ^ 63 - 1) % 2 ^ 32

theorem atoi_eq_cut (n : Numeral) : atoi n.text = .ofNat n.cut := by
  have hmin : (min n.value (2 ^ 63 - 1) : Int) = (min n.value (2 ^ 63 - 1) : Nat) := by omega
  rw [atoi_numeral, Numeral.cut, hmin]
  apply Int32.toInt_inj.mp
  rw [Int32.toInt_ofInt, Int32.toInt_ofNat', Int.natCast_emod]
  exact (Int.emod_bmod _ _).symm

theorem inRange_iff (n : Numeral) :
    (0 ≤ atoi n.text ∧ atoi n.text ≤ 65535) ↔ n.cut ≤ 65535 := by
  have hcut : n.cut < 2 ^ 32 := Nat.mod_lt _ (by decide)
  rw [atoi_eq_cut]
  have hzero : (0 : Int32).toInt = 0 := rfl
  have hmax : (65535 : Int32).toInt = 65535 := rfl
  rw [Int32.le_iff_toInt_le, Int32.le_iff_toInt_le, Int32.toInt_ofNat', hzero, hmax, Int.bmod_def]
  have hsize : Int32.size = 2 ^ 32 := rfl
  rw [hsize]
  omega

theorem Numeral.text_ne (n : Numeral) : n.text ≠ [] := by
  simpa [text] using n.digits_ne

theorem Numeral.comma_not_mem (n : Numeral) : COMMA ∉ n.text := by
  have hdigit : ∀ d, digit d ≠ COMMA := by decide
  simp [text, hdigit]

/-- `port=` and the number. -/
def portOf (n : Numeral) : UserOption where
  name := portName
  value := some n.text
  name_ne := by decide
  name_comma := by decide
  name_equals := by decide
  value_ne := fun h => n.text_ne (Option.some.inj h)
  value_comma := fun v h => Option.some.inj h ▸ n.comma_not_mem

section

variable {Font : Type} {rfb : Rfb Font}

/-- The server listens on this port. -/
def listening (n : Numeral) : RfbServer := ⟨.ofNat n.cut, .ofNat n.cut, false⟩

theorem configureOption_portOf (rfb : Rfb Font) (vnc : Vnc Font) (n : Numeral) :
    configureOption (fargs rfb) vnc (portOf n) =
      if n.cut ≤ 65535 then ({ vnc with server := listening n }, 0) else (vnc, -EINVAL) := by
  have hrange := inRange_iff n
  have hfind : configureOption (fargs rfb) vnc (portOf n) = vncConfigurePort vnc (some n.text) := by
    simp [configureOption, fargs, portOf]
  rw [hfind, vncConfigurePort, atoi_eq_cut] at *
  by_cases hcut : n.cut ≤ 65535
  · obtain ⟨hlo, hhi⟩ := hrange.mpr hcut
    simp [hcut, listening, Int32.not_lt.mpr hlo, Int32.not_lt.mpr hhi]
  · have hout := mt hrange.mp hcut
    rw [if_neg hcut, if_pos]
    simpa [or_iff_not_imp_left, Int32.not_lt] using hout

/-- One port after another, by induction on them. -/
theorem configureOptions_ports (ns : List Numeral) (vnc : Vnc Font) :
    check (configureOptions (fargs rfb) vnc (ns.map portOf)) =
      if ∀ n ∈ ns, n.cut ≤ 65535 then
        .ok { vnc with server := (ns.getLast?.map listening).getD vnc.server }
      else .error (some (-EINVAL)) := by
  induction ns generalizing vnc with
  | nil => simp [configureOptions, check]
  | cons n ns ih =>
    have hone := configureOption_portOf rfb vnc n
    rw [List.map_cons, configureOptions]
    by_cases hcut : n.cut ≤ 65535
    · rw [if_pos hcut] at hone
      rw [hone, List.getLast?_cons]
      have hrest := ih { vnc with server := listening n }
      cases hlast : ns.getLast? with
      | none => simpa [hcut, hlast] using hrest
      | some l => simpa [hcut, hlast] using hrest
    · rw [if_neg hcut] at hone
      simp [hone, hcut, check, EINVAL]

/-- **Ports.** When `FONT` can be loaded, for every list of one or more ports written in
digits, zeros in front and all, wherever the text stands: the registration is completed
exactly when what an `int` keeps of each is a port, and then the server has the last of
them. -/
theorem ports_round_trip (hports : rfb.KeepsPorts) (hfont : (rfb.loadConsoleFont FONT).isSome)
    {m : Text} {p : Nat} {ns : List Numeral} (hns : ns ≠ [])
    (h : text m p = some (spec vncName (ns.map portOf))) (vnc : Vnc Font) :
    Configure.register rfb m p vnc =
      some (if ∀ n ∈ ns, n.cut ≤ 65535 then
        .ok ⟨listening (ns.getLast hns), rfb.loadConsoleFont FONT⟩
      else .error (some (-EINVAL))) := by
  rw [register_spec h, configureOptions_ports, List.getLast?_eq_some_getLast hns]
  obtain ⟨font, hload⟩ := Option.isSome_iff_exists.mp hfont
  split
  case isFalse => rfl
  case isTrue =>
    simp [check, startWithFont, vncStart, vncConfigureFont, hload, Bind.bind, Except.bind,
      listening, hports.initServer, hports.runEventLoop]

end

/-- `02342` and `4294967376`. -/
def twoPorts : List Numeral :=
  [⟨[0, 2, 3, 4, 2], by decide⟩, ⟨[4, 2, 9, 4, 9, 6, 7, 3, 7, 6], by decide⟩]

/-- The second port does not fit into an `int`, and comes down to 80. -/
theorem ports_round_trip_twoPorts :
    Configure.register namedFonts (spec vncName (twoPorts.map portOf) ++ [0]) 0
        ⟨⟨0, 0, true⟩, none⟩ =
      some (.ok ⟨⟨80, 80, false⟩, some FONT⟩) := by
  have h : text (spec vncName (twoPorts.map portOf) ++ [0]) 0 =
      some (spec vncName (twoPorts.map portOf)) := by decide +kernel
  rw [ports_round_trip namedFonts_keepsPorts rfl (by decide) h]
  decide +kernel

end Pixelflut.Vnc.RoundTrip
