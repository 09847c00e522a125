import Mathlib.Data.UInt
import Mathlib.Data.List.TakeWhile
import Pixelflut.Lib.CString

/-!
# Frontend specifications

`-f name,option,option=value,...` is taken apart in place: a zero is stored over
each separator, and what is handed on is a pointer into the same buffer. A
function returns `none` when it would read or write outside the string, when it
runs behind the end of an option table, or when a loop does not end.

`before` and `after` say what a separator divides, `segments` which options a
string has, and `configureAll` what is to be done with them.
`frontendSpecExtractName_eq` and `frontendConfigure_eq` are the two halves of
`parser_eq_grammar`.
-/

namespace Pixelflut.Frontend

open Lib.CString

abbrev Text := List UInt8

def ascii (cs : List Char) : Text := cs.map Char.toUInt8

def COMMA : UInt8 := ','.toUInt8

def EQUALS : UInt8 := '='.toUInt8

def ENOENT : Int := 2

/-! ## The parser -/

/-- `frontend_spec_extract_name`. -/
def frontendSpecExtractName (m : Text) (spec : Nat) : Option (Text × Option Nat) := do
  let sep ← strchr m spec COMMA
  let limit := spec + (← strlen m spec)
  match sep with
  | some sep =>
    let m ← store m sep 0
    return (m, if sep + 1 < limit then some (sep + 1) else none)
  | none => return (m, none)

/-- A `struct frontend_arg`; `configure` gets the string at `value`, and may change
the frontend. -/
structure FrontendArg (F : Type) where
  name : Text
  configure : F → Option Text → F × Int

/-- The string at a pointer, which may be null. -/
def textAt (m : Text) : Option Nat → Option (Option Text)
  | none => some none
  | some p => (text m p).map some

variable {F : Type}

/-- The loop over the option table, from the entry `args` on. -/
def configureArg (m : Text) (front : F) (option : Nat) (value : Option Nat) :
    List (FrontendArg F) → Option (F × Int)
  | [] => none
  | arg :: args =>
    if arg.name = [] then some (front, -ENOENT)
    else do
      let name ← text m option
      if name = arg.name then
        let value ← textAt m value
        return arg.configure front value
      else configureArg m front option value args

/-- `frontend_configure_option`; `args` is `none` for a null pointer. -/
def frontendConfigureOption (args : Option (List (FrontendArg F))) (m : Text) (front : F)
    (option : Nat) : Option (Text × F × Int) := do
  let sep ← strchr m option EQUALS
  let sepLimit ← strchr m option COMMA
  let limit := option + (← strlen m option)
  let (m, value) ← match sep with
    | some sep =>
      if sepLimit.all (sep < ·) then do
        let m ← store m sep 0
        pure (m, if sep + 1 < limit then some (sep + 1) else none)
      else pure (m, none)
    | none => pure (m, none)
  match args with
  | none => return (m, front, -ENOENT)
  | some args =>
    let (front, err) ← configureArg m front option value args
    return (m, front, err)

/-- The loop of `frontend_configure` and what follows it, for at most `n` tests of
the loop condition. -/
def configureFrom (args : Option (List (FrontendArg F))) (limit : Nat) :
    Nat → Text → F → Nat → Option (Text × F × Int)
  | 0, _, _, _ => none
  | n + 1, m, front, options =>
    if options < limit then do
      match ← strchr m options COMMA with
      | some sep =>
        let m ← store m sep 0
        let (m, front, err) ← frontendConfigureOption args m front options
        if err ≠ 0 then return (m, front, err)
        else configureFrom args limit n m front (sep + 1)
      | none => frontendConfigureOption args m front options
    else some (m, front, 0)

/-- `frontend_configure`. -/
def frontendConfigure (args : Option (List (FrontendArg F))) (m : Text) (front : F)
    (options : Nat) : Option (Text × F × Int) := do
  let len ← strlen m options
  configureFrom args (options + len) (len + 1) m front options

/-! ## The grammar -/

/-- The text before the first separator, all of it if there is none. -/
def before (sep : UInt8) (s : Text) : Text := s.takeWhile (· ≠ sep)

/-- The text behind the first separator, if there is any. -/
def after (sep : UInt8) (s : Text) : Option Text :=
  match s.dropWhile (· ≠ sep) with
  | _ :: c :: s => some (c :: s)
  | _ => none

/-- The segments between the commas, but for an empty one at the end. -/
def segments (options : Text) : List Text :=
  let parts := options.splitOn COMMA
  if parts.getLast? = some [] then parts.dropLast else parts

/-- An option table, without the entry with the empty name that ends it. -/
structure ArgTable (F : Type) where
  entries : List (FrontendArg F)
  named : ∀ arg ∈ entries, arg.name ≠ []

/-- The table in memory. The function of the last entry is never called. -/
def ArgTable.array (t : ArgTable F) (last : F → Option Text → F × Int) : List (FrontendArg F) :=
  t.entries ++ [⟨[], last⟩]

def configureSegment (t : ArgTable F) (front : F) (segment : Text) : F × Int :=
  match t.entries.find? (·.name = before EQUALS segment) with
  | some arg => arg.configure front (after EQUALS segment)
  | none => (front, -ENOENT)

/-- The segments in turn, up to the first that does not return 0. -/
def configureAll (t : ArgTable F) (front : F) : List Text → F × Int
  | [] => (front, 0)
  | segment :: rest =>
    let (front, err) := configureSegment t front segment
    if err ≠ 0 then (front, err) else configureAll t front rest

/-! ## Separators -/

section

variable {sep : UInt8} {s a : Text}

theorem not_sep_of_mem (h : sep ∉ s) : ∀ c ∈ s, decide (c ≠ sep) = true := fun _ hc =>
  decide_eq_true fun heq => h (heq ▸ hc)

theorem before_of_not_mem (h : sep ∉ s) : before sep s = s :=
  List.takeWhile_eq_self_iff.mpr (not_sep_of_mem h)

theorem after_of_not_mem (h : sep ∉ s) : after sep s = none := by
  rw [after, List.dropWhile_eq_nil_iff.mpr (not_sep_of_mem h)]

theorem before_of_first (h : sep ∉ a) (b : Text) : before sep (a ++ sep :: b) = a := by
  rw [before, List.takeWhile_append_of_pos (not_sep_of_mem h),
    List.takeWhile_cons_of_neg (by simp), List.append_nil]

theorem after_of_first (h : sep ∉ a) (b : Text) :
    after sep (a ++ sep :: b) = if b = [] then none else some b := by
  rw [after, List.dropWhile_append_of_pos (not_sep_of_mem h),
    List.dropWhile_cons_of_neg (by simp)]
  cases b with
  | nil => rfl
  | cons c b => rfl

/-- The pointer behind a separator, as the parser computes it. -/
theorem textAt_after {m : Text} {p : Nat} {b : Text} (hb : text m (p + a.length + 1) = some b)
    (h : sep ∉ a) :
    textAt m (if p + a.length + 1 < p + (a ++ sep :: b).length then some (p + a.length + 1)
      else none) = some (after sep (a ++ sep :: b)) := by
  rw [after_of_first h, List.length_append, List.length_cons]
  cases b with
  | nil =>
    rw [if_neg (by simp only [List.length_nil]; omega), if_pos rfl]
    rfl
  | cons c b =>
    rw [if_pos (by simp only [List.length_cons]; omega), if_neg (by simp), textAt, hb]
    rfl

end

theorem segments_of_not_mem {s : Text} (h : COMMA ∉ s) : segments s = if s = [] then [] else [s] := by
  rw [segments, List.splitOn_eq_singleton h]
  by_cases hs : s = []
  · simp [hs]
  · simp [hs]

theorem segments_of_first {a : Text} (h : COMMA ∉ a) (b : Text) :
    segments (a ++ COMMA :: b) = a :: segments b := by
  obtain ⟨part, parts, hparts⟩ := List.exists_cons_of_ne_nil (List.splitOn_ne_nil COMMA b)
  rw [segments, segments, List.splitOn_append_cons_self_of_not_mem h, hparts]
  rw [List.getLast?_cons_cons, List.dropLast_cons_cons]
  split
  · rfl
  · rfl

/-! ## The parser follows the grammar -/

theorem frontendSpecExtractName_eq {m : Text} {spec : Nat} {s : Text}
    (h : text m spec = some s) :
    ∃ m' options, frontendSpecExtractName m spec = some (m', options) ∧
      text m' spec = some (before COMMA s) ∧ textAt m' options = some (after COMMA s) := by
  by_cases hsep : COMMA ∈ s
  · obtain ⟨a, b, rfl, ha⟩ := List.eq_append_cons_of_mem hsep
    obtain ⟨m', hstore, hname, hoptions, -⟩ := cut h
    refine ⟨m', _, ?_, by rw [before_of_first ha, hname], textAt_after hoptions ha⟩
    simp [frontendSpecExtractName, strchr_of_first h ha, strlen_eq h, hstore]
  · refine ⟨m, none, ?_, by rw [before_of_not_mem hsep, h], by rw [after_of_not_mem hsep]; rfl⟩
    simp [frontendSpecExtractName, strchr_of_not_mem h hsep, strlen_eq h]

section

variable {m : Text} {p : Nat} {s : Text} (t : ArgTable F) (last : F → Option Text → F × Int)
  (front : F)

/-- The option table is searched from the front. -/
theorem configureArg_eq {value : Option Nat} {v : Option Text} (hname : text m p = some s)
    (hvalue : textAt m value = some v) {args : List (FrontendArg F)}
    (hnamed : ∀ arg ∈ args, arg.name ≠ []) :
    configureArg m front p value (args ++ [⟨[], last⟩]) =
      some (match args.find? (·.name = s) with
        | some arg => arg.configure front v
        | none => (front, -ENOENT)) := by
  induction args with
  | nil => rfl
  | cons arg args ih =>
    have harg : arg.name ≠ [] := hnamed arg (.head _)
    by_cases hs : arg.name = s
    · subst hs
      simp [configureArg, harg, hname, hvalue]
    · have ih' := ih fun arg' harg' => hnamed arg' (.tail _ harg')
      simp [configureArg, harg, hname, hs, Ne.symm hs, ih']

/-- **One option.** Only its own bytes are changed. -/
theorem frontendConfigureOption_eq (h : text m p = some s) (hcomma : COMMA ∉ s) :
    ∃ m', frontendConfigureOption (some (t.array last)) m front p =
        some (m', configureSegment t front s) ∧
      ∀ q, p + s.length ≤ q → m'.drop q = m.drop q := by
  by_cases hsep : EQUALS ∈ s
  · obtain ⟨a, b, rfl, ha⟩ := List.eq_append_cons_of_mem hsep
    obtain ⟨m', hstore, hname, hvalue, hrest⟩ := cut h
    refine ⟨m', ?_, fun q hq => hrest q (by simp at hq; omega)⟩
    have harg := configureArg_eq last front hname (textAt_after hvalue ha) t.named
    rw [List.length_append, List.length_cons] at harg
    simp only [frontendConfigureOption, strchr_of_first h ha, strchr_of_not_mem h hcomma,
      strlen_eq h, ArgTable.array, configureSegment, before_of_first ha]
    simp [hstore, harg]
  · refine ⟨m, ?_, fun q _ => rfl⟩
    have hvalue : textAt m none = some (after EQUALS s) := by rw [after_of_not_mem hsep]; rfl
    have harg := configureArg_eq last front h hvalue t.named
    simp only [frontendConfigureOption, strchr_of_not_mem h hsep, strchr_of_not_mem h hcomma,
      strlen_eq h, ArgTable.array, configureSegment, before_of_not_mem hsep]
    simp [harg]

theorem configureAll_single (segment : Text) :
    configureAll t front [segment] = configureSegment t front segment := by
  rw [configureAll]
  generalize configureSegment t front segment = r
  obtain ⟨front', err⟩ := r
  by_cases herr : err = 0
  · simp [herr, configureAll]
  · simp [herr]

/-- **The loop**, by induction on the tests of its condition that are left. -/
theorem configureFrom_eq {n : Nat} (h : text m p = some s) (hn : s.length < n) :
    ∃ m', configureFrom (some (t.array last)) (p + s.length) n m front p =
      some (m', configureAll t front (segments s)) := by
  induction n generalizing m p s front with
  | zero => exact absurd hn (Nat.not_lt_zero _)
  | succ n ih =>
    by_cases hcomma : COMMA ∈ s
    · obtain ⟨a, b, rfl, ha⟩ := List.eq_append_cons_of_mem hcomma
      obtain ⟨m₁, hstore, hseg, hrest, -⟩ := cut h
      obtain ⟨m₂, hoption, hsame⟩ := frontendConfigureOption_eq t last front hseg ha
      rw [List.length_append, List.length_cons] at hn ⊢
      have hlt : p < p + (a.length + (b.length + 1)) := by omega
      rw [segments_of_first ha, configureAll]
      generalize configureSegment t front a = r at hoption
      obtain ⟨front', err⟩ := r
      by_cases herr : err = 0
      · have hrest' : text m₂ (p + a.length + 1) = some b := by
          rw [text, hsame _ (by omega), ← text, hrest]
        obtain ⟨m₃, hloop⟩ := ih front' hrest' (by omega)
        have hlimit : p + a.length + 1 + b.length = p + (a.length + (b.length + 1)) := by omega
        rw [hlimit] at hloop
        refine ⟨m₃, ?_⟩
        simp [configureFrom, hlt, strchr_of_first h ha, hstore, hoption, herr, hloop]
      · refine ⟨m₂, ?_⟩
        simp [configureFrom, hlt, strchr_of_first h ha, hstore, hoption, herr]
    · rw [segments_of_not_mem hcomma]
      by_cases hs : s = []
      · subst hs
        refine ⟨m, ?_⟩
        simp [configureFrom, configureAll]
      · obtain ⟨m', hoption, -⟩ := frontendConfigureOption_eq t last front h hcomma
        have hlt : p < p + s.length := Nat.lt_add_of_pos_right (List.length_pos_of_ne_nil hs)
        refine ⟨m', ?_⟩
        rw [if_neg hs, configureAll_single]
        simp [configureFrom, hlt, strchr_of_not_mem h hcomma, hoption]

end

theorem frontendConfigure_eq {m : Text} {options : Nat} {s : Text} (t : ArgTable F)
    (last : F → Option Text → F × Int) (front : F) (h : text m options = some s) :
    ∃ m', frontendConfigure (some (t.array last)) m front options =
      some (m', configureAll t front (segments s)) := by
  obtain ⟨m', hloop⟩ := configureFrom_eq t last front h (Nat.lt_succ_self s.length)
  refine ⟨m', ?_⟩
  rw [frontendConfigure, strlen_eq h]
  exact hloop

/-- **The parser is its grammar.** -/
theorem parser_eq_grammar {m : Text} {p : Nat} {s : Text} (h : text m p = some s) :
    (∃ m' options, frontendSpecExtractName m p = some (m', options) ∧
      text m' p = some (before COMMA s) ∧ textAt m' options = some (after COMMA s)) ∧
    ∀ {F : Type} (t : ArgTable F) (last : F → Option Text → F × Int) (front : F),
      ∃ m', frontendConfigure (some (t.array last)) m front p =
        some (m', configureAll t front (segments s)) :=
  ⟨frontendSpecExtractName_eq h, fun t last front => frontendConfigure_eq t last front h⟩

/-- Two options that record their calls. -/
def recorder : ArgTable (List (Text × Option Text)) where
  entries := [ascii ['p', 'o', 'r', 't'], ascii ['f', 'o', 'n', 't']].map fun name =>
    ⟨name, fun calls value => (calls ++ [(name, value)], 0)⟩
  named := by decide

/-- `font=a=b,port=,`: both options are there, the second without a value. -/
theorem parser_eq_grammar_two_options :
    ∃ m', frontendConfigure (some (recorder.array fun calls _ => (calls, 0)))
        (ascii ['f', 'o', 'n', 't', '=', 'a', '=', 'b', ',', 'p', 'o', 'r', 't', '=', ','] ++ [0])
        [] 0 =
      some (m', [(ascii ['f', 'o', 'n', 't'], some (ascii ['a', '=', 'b'])),
        (ascii ['p', 'o', 'r', 't'], none)], 0) := by
  have h : text (ascii ['f', 'o', 'n', 't', '=', 'a', '=', 'b', ',', 'p', 'o', 'r', 't', '=', ','] ++
      [0]) 0 = some (ascii ['f', 'o', 'n', 't', '=', 'a', '=', 'b', ',', 'p', 'o', 'r', 't', '=', ',']) :=
    by decide
  exact (parser_eq_grammar h).2 recorder (fun calls _ => (calls, 0)) []

end Pixelflut.Frontend
