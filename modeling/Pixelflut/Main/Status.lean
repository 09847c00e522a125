import Pixelflut.Main.Release

/-!
# What `main` returns

`steps` lists what `main` does in order, with the results, as far as it gets
without a failure; it goes no further than the first step that fails.

* `main_err`: `main` returns the error of that step, or 0 if there is none. An
  unknown frontend leaves none in `err`;
* `main_reports_iff`: so every failure is reported but this one.
-/

namespace Pixelflut.Main

open Function (update)
open Lib.Jump Frontend Framebuffer

/-! ## Steps -/

inductive Step where
  /-- The checks of an option, its `strdup` included. -/
  | option (err : Int)
  | workqueueInit (err : Int)
  | fbAlloc (err : Int)
  /-- `frontend_get_def`. -/
  | lookup (found : Bool)
  | alloc (err : Int)
  | configure (err : Int)
  | start (err : Int)
  | font (err : Int)
  | netListen (err : Int)
  | update (err : Int)
  deriving DecidableEq

/-- The error number of a step. -/
def Step.err : Step → Int
  | .option err | .workqueueInit err | .fbAlloc err | .alloc err | .configure err | .start err
  | .font err | .netListen err | .update err => err
  | .lookup _ => 0

def Step.failed : Step → Bool
  | .lookup found => !found
  | step => step.err ≠ 0

/-- The checks of an option, with `cnt` names so far. -/
def optionErr (cnt : Nat) : Opt → Int
  | .w arg | .h arg | .r arg => if arg ≤ 0 then -EINVAL else 0
  | .f _ ok => if cnt ≥ MAX_FRONTENDS then -EINVAL else if !ok then -ENOMEM else 0
  | .d => 0
  | .other => -EINVAL

def optionSteps : Nat → List Opt → List Step
  | _, [] => []
  | cnt, o :: opts => .option (optionErr cnt o) :: optionSteps (cnt + o.spec.length) opts

/-- The steps of one registration. -/
def registrationSteps (a : FrontAnswers) (spec : Text) : List Step :=
  match frontendGetDef (before COMMA spec) with
  | none => [.lookup false]
  | some d =>
    [.lookup true, .alloc a.alloc] ++
      ((if d.canConfigure && (after COMMA spec).isSome then [.configure a.configure] else []) ++
        ((if d.canStart then [.start a.start] else []) ++
          (if d.name = "VNC server frontend" then [.font a.font] else [])))

/-- The registrations of the names below `n`, the last one first. -/
def registrationsBelow (answers : Nat → FrontAnswers) (spec : Nat → Text) : Nat → List Step
  | 0 => []
  | n + 1 => registrationSteps (answers n) (spec n) ++ registrationsBelow answers spec n

/-- The updates of `n` frontends from the `k`-th on. -/
def updateSteps (answers : Nat → Int) (k : Nat) : Nat → List Step
  | 0 => []
  | n + 1 => .update (answers k) :: updateSteps answers (k + 1) n

def steps (opts : List Opt) (a : Answers) : List Step :=
  optionSteps 0 opts ++
    ([.workqueueInit a.workqueueInit, .fbAlloc a.fbAlloc] ++
      (registrationsBelow a.front (fun i => (specs opts).getD i []) (specs opts).length ++
        ([.netListen a.netListen] ++
          a.iterations.flatMap fun i => updateSteps i.update 0 (specs opts).length)))

/-- The steps up to the first that fails, which is the last one executed. -/
def executed (l : List Step) : List Step :=
  l.takeWhile (fun step => !step.failed) ++ (l.find? Step.failed).toList

/-- The error of the first step that fails, or 0. -/
def firstErr (l : List Step) : Int := ((l.find? Step.failed).map Step.err).getD 0

theorem firstErr_of_find {l : List Step} {step : Step} (h : l.find? Step.failed = some step) :
    firstErr l = step.err := by
  rw [firstErr, h, Option.map_some, Option.getD_some]

/-- Steps that have gone well do not matter. -/
theorem firstErr_append {l l' : List Step} (h : l.find? Step.failed = none) :
    firstErr (l ++ l') = firstErr l' := by
  rw [firstErr, firstErr, List.find?_append, h, Option.none_or]

theorem exists_failed_executed {l : List Step} :
    (∃ step ∈ executed l, step.failed = true) ↔ (l.find? Step.failed).isSome := by
  constructor
  · rintro ⟨step, hmem, hfailed⟩
    rcases List.mem_append.mp hmem with hok | hlast
    · have hgood := List.mem_takeWhile_imp hok
      rw [hfailed] at hgood
      cases hgood
    · rw [Option.mem_toList.mp hlast]
      rfl
  · intro hsome
    obtain ⟨step, hstep⟩ := Option.isSome_iff_exists.mp hsome
    refine ⟨step, List.mem_append_right _ (Option.mem_toList.mpr hstep), ?_⟩
    exact List.find?_some hstep

/-- A step that returns an error number has failed when that is not 0. -/
theorem Step.failed_iff {step : Step} (h : ∀ found, step ≠ .lookup found) :
    step.failed = true ↔ step.err ≠ 0 := by
  cases step with
  | lookup found => exact absurd rfl (h found)
  | _ => simp [failed]

/-! ## Blocks -/

/-- The block makes the steps `l`; the jump leaves the error of the last one. -/
abbrev Makes (l : List Step) (x : Block) (Q : State → Prop) : Prop :=
  Follows Step.failed l x Q fun step j => j.2.err = step.err

variable {s : State}

/-! ### Options -/

theorem parseNumber_makes {s' : State} (arg : Int32) (Q : State → Prop) (h : Q s') :
    Makes [.option (if arg ≤ 0 then -EINVAL else 0)]
      (if arg ≤ 0 then goto .fail { s with err := -EINVAL } else .ok s') Q := by
  refine Follows.single ?_
  split
  · exact ⟨rfl, rfl⟩
  · exact ⟨rfl, h⟩

theorem parseOption_makes {ts : List Text} (hts : s.texts = ts) (o : Opt) :
    Makes [.option (optionErr ts.length o)] (parseOption s o) fun s' => s'.texts = ts ++ o.spec := by
  have hcnt : s.frontendCnt = ts.length := by
    rw [← hts, State.texts, List.length_map, List.length_range]
  have hsame : s.texts = ts ++ [] := by rw [hts, List.append_nil]
  cases o with
  | w arg => exact parseNumber_makes arg _ hsame
  | h arg => exact parseNumber_makes arg _ hsame
  | r arg => exact parseNumber_makes arg _ hsame
  | d => exact Follows.single ⟨rfl, hsame⟩
  | other => exact Follows.single ⟨rfl, rfl⟩
  | f arg ok =>
    refine Follows.single ?_
    simp only [parseOption, optionErr, hcnt]
    split
    · exact ⟨rfl, rfl⟩
    · cases ok with
      | false => exact ⟨rfl, rfl⟩
      | true =>
        refine ⟨rfl, ?_⟩
        rw [← hcnt, ← hts]
        exact texts_push s.alloc s.next arg

theorem parseOptions_makes (opts : List Opt) {ts : List Text} (hts : s.texts = ts) :
    Makes (optionSteps ts.length opts) (opts.foldlM parseOption s)
      fun s' => s'.texts = ts ++ specs opts := by
  induction opts generalizing s ts with
  | nil => exact Follows.nil (hts.trans (List.append_nil ts).symm)
  | cons o opts ih =>
    rw [List.foldlM_cons]
    refine Follows.bind (l := [_]) (parseOption_makes hts o) fun s₁ hts₁ => ?_
    have hrest := ih hts₁
    rw [List.length_append, List.append_assoc] at hrest
    exact hrest

/-! ### Registration -/

/-- Between two registrations, or at the end of one: what the next ones depend on. -/
structure Registered (s s' : State) (fronts : Nat) : Prop where
  err : s'.err = 0
  frontendCnt : s'.frontendCnt = s.frontendCnt
  frontendNames : s'.frontendNames = s.frontendNames
  fronts : s'.fronts.length = s.fronts.length + fronts

theorem attempt_makes {s₀ : State} {n : Nat} (h : Registered s₀ s n) (cond : Bool) (ps : List Ptr)
    {err : Int} (step : Step) (hstep : ∀ found, step ≠ .lookup found) (herr : step.err = err) :
    Makes (if cond then [step] else []) (attempt cond ps err s) fun s' => Registered s₀ s' n := by
  cases cond with
  | false => exact Follows.nil h
  | true =>
    refine Follows.single ?_
    rw [← Bool.not_eq_true, Step.failed_iff hstep, herr]
    by_cases hz : err = 0
    · simp only [attempt, hz, Bool.not_true, Bool.false_eq_true, ↓reduceIte, ne_eq, not_true_eq_false]
      exact ⟨not_false, rfl, h.frontendCnt, h.frontendNames, h.fronts⟩
    · simp only [attempt, Bool.not_true, Bool.false_eq_true, ↓reduceIte, ne_eq, hz, not_false_eq_true]
      exact ⟨trivial, rfl⟩

/-- **One registration.** -/
theorem registerFrontend_makes (answers : Nat → FrontAnswers) (h : s.err = 0) :
    Makes (registrationSteps (answers s.frontendCnt) (s.frontendNames s.frontendCnt).text)
      (registerFrontend answers s) fun s' => Registered s s' 1 := by
  rw [registerFrontend, registrationSteps]
  cases frontendGetDef (before COMMA (s.frontendNames s.frontendCnt).text) with
  | none => exact Follows.single ⟨rfl, h⟩
  | some d =>
    by_cases halloc : (answers s.frontendCnt).alloc = 0
    · refine Follows.skip (by simp [Step.failed, Step.err, halloc]) ?_
      simp only [halloc, ne_eq, not_true_eq_false, ↓reduceIte]
      have h₁ : Registered s (((s.use [(s.frontendNames s.frontendCnt).addr]).use [s.fb]).appendFront d)
          1 := by
        constructor <;> simp [State.appendFront, State.use, State.alloc]
      refine Follows.bind (attempt_makes h₁ _ _ _ (by simp) rfl) fun s₂ h₂ => ?_
      refine Follows.bind (attempt_makes h₂ _ _ _ (by simp) rfl) fun s₃ h₃ => ?_
      refine Follows.bind_pure ?_
      have hfont := attempt_makes h₃ (d.name = "VNC server frontend") [s.next]
        (.font (answers s.frontendCnt).font) (by simp) rfl
      simp only [decide_eq_true_eq] at hfont
      exact hfont.mono fun s₄ h₄ => ⟨h₄.err, h₄.frontendCnt, h₄.frontendNames, h₄.fronts⟩
    · have hfirst : [Step.lookup true, .alloc (answers s.frontendCnt).alloc].find? Step.failed =
          some (.alloc (answers s.frontendCnt).alloc) := by
        simp [Step.failed, Step.err, halloc]
      simp only [halloc, ne_eq, not_false_eq_true, ↓reduceIte]
      exact Follows.jump hfirst rfl

/-- **The registration loop**, by induction on `frontend_cnt`. -/
theorem registerFrontends_makes (answers : Nat → FrontAnswers) (spec : Nat → Text) (n : Nat)
    (hn : s.frontendCnt = n) (hspec : ∀ i < n, (s.frontendNames i).text = spec i) (h : s.err = 0) :
    Makes (registrationsBelow answers spec n) (registerFrontends answers n s)
      fun s' => s'.err = 0 ∧ s'.fronts.length = s.fronts.length + n := by
  induction n generalizing s with
  | zero => exact Follows.nil ⟨h, rfl⟩
  | succ n ih =>
    have hfirst := registerFrontend_makes answers (s := { s with frontendCnt := n }) h
    simp only [hspec n (Nat.lt_succ_self n)] at hfirst
    refine Follows.bind hfirst fun s₁ h₁ => ?_
    have hnames : ∀ i < n, (s₁.frontendNames i).text = spec i := by
      intro i hi
      rw [h₁.frontendNames]
      exact hspec i (Nat.lt_succ_of_lt hi)
    refine (ih h₁.frontendCnt hnames h₁.err).mono fun s₂ h₂ => ⟨h₂.1, ?_⟩
    have hone : s₁.fronts.length = s.fronts.length + 1 := h₁.fronts
    omega

/-! ### The setup -/

theorem steps_of_texts {opts : List Opt} (h : s.texts = specs opts) :
    s.frontendCnt = (specs opts).length ∧
      ∀ i < (specs opts).length, (s.frontendNames i).text = (specs opts).getD i [] := by
  have hcnt : s.frontendCnt = (specs opts).length := by
    rw [← h, State.texts, List.length_map, List.length_range]
  refine ⟨hcnt, fun i hi => ?_⟩
  have hget := texts_getElem? s i
  rw [h, if_pos (hcnt ▸ hi)] at hget
  rw [List.getD_eq_getElem?_getD, hget, Option.getD_some]

/-- The steps up to `net_listen`. -/
def setupSteps (opts : List Opt) (a : Answers) : List Step :=
  optionSteps 0 opts ++
    ([.workqueueInit a.workqueueInit, .fbAlloc a.fbAlloc] ++
      (registrationsBelow a.front (fun i => (specs opts).getD i []) (specs opts).length ++
        [.netListen a.netListen]))

theorem setup_makes (opts : List Opt) (a : Answers) (names : Nat → Name) (err : Int) :
    Makes (setupSteps opts a) (setup opts a (start names err))
      fun s => s.err = 0 ∧ s.fronts.length = (specs opts).length := by
  rw [setup, setupSteps]
  have htexts₀ : (start names err).texts = [] := rfl
  refine Follows.bind (parseOptions_makes opts htexts₀) fun s₁ htexts => ?_
  obtain ⟨hcnt, hspec⟩ := steps_of_texts htexts
  by_cases hinit : a.workqueueInit = 0
  · by_cases halloc : a.fbAlloc = 0
    · refine Follows.skip (by simp [Step.failed, Step.err, hinit, halloc]) ?_
      simp only [hinit, halloc, ne_eq, not_true_eq_false, ↓reduceIte]
      have hloop := registerFrontends_makes a.front (fun i => (specs opts).getD i [])
        (specs opts).length (s := s₁.allocFb) hcnt hspec rfl
      rw [hcnt]
      refine Follows.bind hloop fun s₂ ⟨_, hlen⟩ => Follows.single ?_
      have hlen' : s₂.fronts.length = (specs opts).length := by simpa [State.allocFb] using hlen
      by_cases hlisten : a.netListen = 0
      · simp only [hlisten, not_true_eq_false, ↓reduceIte]
        exact ⟨rfl, rfl, hlen'⟩
      · simp only [hlisten, not_false_eq_true, ↓reduceIte]
        exact ⟨by simp [Step.failed, Step.err, hlisten], rfl⟩
    · have hfirst : [Step.workqueueInit 0, .fbAlloc a.fbAlloc].find? Step.failed =
          some (.fbAlloc a.fbAlloc) := by
        simp [Step.failed, Step.err, halloc]
      simp only [hinit, halloc, ne_eq, not_true_eq_false, not_false_eq_true, ↓reduceIte]
      exact Follows.jump hfirst rfl
  · have hfirst : [Step.workqueueInit a.workqueueInit, .fbAlloc a.fbAlloc].find? Step.failed =
        some (.workqueueInit a.workqueueInit) := by
      simp [Step.failed, Step.err, hinit]
    simp only [hinit, ne_eq, not_false_eq_true, ↓reduceIte]
    exact Follows.jump hfirst rfl

/-! ## The main loop -/

/-- One pass of updates: its result, and whether one of them failed. -/
theorem updateFronts_err (answers : Nat → Int) (k : Nat) (fronts : List Front) (h : s.err = 0) :
    (updateFronts answers k fronts s).1.err = firstErr (updateSteps answers k fronts.length) ∧
      (updateFronts answers k fronts s).1.fronts = s.fronts ∧
      (updateFronts answers k fronts s).2 =
        ((updateSteps answers k fronts.length).find? Step.failed).isSome := by
  induction fronts generalizing k s with
  | nil => exact ⟨h, rfl, rfl⟩
  | cons front rest ih =>
    rw [updateFronts, List.length_cons, updateSteps]
    generalize hs₁ : (if s.showTextualInfo && front.definition.canDrawString then
      s.use [front.addr, s.fb, front.addr, s.fb, front.addr, s.fb, front.addr, s.fb] else s) = s₁
    have hfronts : s₁.fronts = s.fronts := by
      subst hs₁
      split <;> rfl
    by_cases herr : answers k = 0
    · have hrest := ih (k + 1) (s := { s₁.use [front.addr, s₁.fb] with err := answers k }) herr
      simp only [herr, ne_eq, not_true_eq_false, ↓reduceIte] at hrest ⊢
      exact ⟨hrest.1, hrest.2.1.trans hfronts, hrest.2.2⟩
    · have hfind : (Step.update (answers k) :: updateSteps answers (k + 1) rest.length).find?
          Step.failed = some (.update (answers k)) := by
        simp [Step.failed, Step.err, herr]
      simp only [herr, ne_eq, not_false_eq_true, ↓reduceIte, firstErr_of_find hfind, hfind]
      exact ⟨rfl, hfronts, rfl⟩

theorem mainLoop_err (iterations : List Iteration) {n : Nat} (hn : s.fronts.length = n)
    (h : s.err = 0) :
    (mainLoop iterations s).err = firstErr (iterations.flatMap fun i => updateSteps i.update 0 n) := by
  induction iterations generalizing s with
  | nil => exact h
  | cons i rest ih =>
    obtain ⟨herr, hfronts, hexit⟩ := updateFronts_err i.update 0 s.fronts h
    rw [mainLoop, List.flatMap_cons]
    generalize updateFronts i.update 0 s.fronts s = r at herr hfronts hexit
    obtain ⟨s₁, doExit⟩ := r
    rw [hn] at herr hexit
    have hs₂ : (if i.fps then s₁.use [s₁.fb] else s₁).err = s₁.err ∧
        (if i.fps then s₁.use [s₁.fb] else s₁).fronts = s₁.fronts := by
      split <;> exact ⟨rfl, rfl⟩
    cases hfind : (updateSteps i.update 0 n).find? Step.failed with
    | none =>
      rw [firstErr_append hfind]
      rw [firstErr, hfind] at herr
      rw [hfind] at hexit
      cases hexit
      exact ih (by rw [hs₂.2, hfronts, hn]) (hs₂.1.trans herr)
    | some step =>
      have hall : (updateSteps i.update 0 n ++ rest.flatMap fun i => updateSteps i.update 0 n).find?
          Step.failed = some step := by
        rw [List.find?_append, hfind, Option.some_or]
      rw [firstErr_of_find hall]
      rw [firstErr_of_find hfind] at herr
      rw [hfind] at hexit
      cases hexit
      exact hs₂.1.trans herr

/-! ## The labels -/

theorem freeNames_err (n : Nat) (s : State) : (freeNames n s).err = s.err := by
  induction n generalizing s with
  | zero => rfl
  | succ n ih => exact ih _

theorem freeFronts_err (fronts : List Front) (s : State) : (freeFronts s fronts).err = s.err := by
  induction fronts generalizing s with
  | nil => rfl
  | cons front rest ih => exact ih _

/-- All labels return the `err` that they have got. -/
theorem atFailFronts_err (s : State) : (atFailFronts s).err = s.err := by
  rw [atFailFronts, atFail, freeNames_err]
  exact freeFronts_err s.fronts s

/-! ## `main` -/

theorem steps_eq (opts : List Opt) (a : Answers) : steps opts a = setupSteps opts a ++
    a.iterations.flatMap fun i => updateSteps i.update 0 (specs opts).length := by
  simp [steps, setupSteps]

/-- **`main` returns the error of the first step that fails**, or 0. -/
theorem main_err (opts : List Opt) (a : Answers) (names : Nat → Name) (err : Int) :
    (main opts a (start names err)).err = firstErr (steps opts a) := by
  have hmakes := setup_makes opts a names err
  rw [main, steps_eq]
  cases hsetup : setup opts a (start names err) with
  | ok s =>
    rw [hsetup] at hmakes
    obtain ⟨hnone, herr, hlen⟩ := hmakes
    show (atFailFronts (mainLoop a.iterations s)).err = _
    rw [firstErr_append hnone, atFailFronts_err, mainLoop_err a.iterations hlen herr]
  | error j =>
    rw [hsetup] at hmakes
    obtain ⟨step, hfind, herr⟩ := hmakes
    have hall : (setupSteps opts a ++ a.iterations.flatMap fun i =>
        updateSteps i.update 0 (specs opts).length).find? Step.failed = some step := by
      rw [List.find?_append, hfind, Option.some_or]
    rw [firstErr_of_find hall, ← herr]
    obtain ⟨label, s⟩ := j
    cases label with
    | fail => exact freeNames_err s.frontendCnt s
    | failFrontsFreeName => exact atFailFronts_err _

/-- **Every failure is reported**, unless the first one is a frontend name that
is not known. -/
theorem main_reports_iff (opts : List Opt) (a : Answers) (names : Nat → Name) (err : Int) :
    ((∃ step ∈ executed (steps opts a), step.failed = true) →
        (main opts a (start names err)).err ≠ 0) ↔
      (steps opts a).find? Step.failed ≠ some (.lookup false) := by
  rw [main_err, exists_failed_executed]
  cases hfind : (steps opts a).find? Step.failed with
  | none => simp
  | some step =>
    have hfailed : step.failed = true := List.find?_some hfind
    rw [firstErr_of_find hfind]
    cases step with
    | lookup found =>
      cases found with
      | true => cases hfailed
      | false => simp [Step.err]
    | _ => simpa [Step.failed] using hfailed

/-- `-f sdk`: the name is not known, and `main` returns 0. -/
theorem unreported_unknown_frontend :
    ∃ opts a names err, (∃ step ∈ executed (steps opts a), step.failed = true) ∧
      (main opts a (start names err)).err = 0 := by
  refine ⟨[.f (ascii ['s', 'd', 'k']) true], ⟨0, 0, fun _ => ⟨0, 0, 0, 0⟩, 0, []⟩,
    fun _ => ⟨0, []⟩, 5, ⟨.lookup false, ?_, rfl⟩, ?_⟩
  · decide
  · rfl

end Pixelflut.Main
