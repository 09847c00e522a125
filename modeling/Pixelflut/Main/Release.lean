import Pixelflut.Main.Basic

/-!
# What `main` releases

`Books s loose fbs` is the invariant of `main`: the names below `frontend_cnt`, the
frontends on the list, the framebuffer once it is there and what is loose in
between are the objects still to be freed. Every block keeps it, on the way to
its end and to a label.

* `SetUp`: what the options and the answers must be for `net_listen` to be called;
* `setup_ends`: where the setup ends, and with which books;
* `main_releases_iff`: `main` releases all on every path but the one on which
  `net_listen` fails.
-/

namespace Pixelflut.Main

open Function (update)
open Lib.Jump Lib.Lifetime Frontend Framebuffer

/-! ## When `net_listen` is called -/

def Opt.Valid : Opt → Prop
  | .w arg | .h arg | .r arg => 0 < arg
  | .f _ ok => ok = true
  | .d => True
  | .other => False

def Opt.spec : Opt → List Text
  | .f arg _ => [arg]
  | _ => []

def specs (opts : List Opt) : List Text := opts.flatMap Opt.spec

/-- The registration of `spec`, a frontend of the kind `d`, succeeds. -/
structure RegistersAs (a : FrontAnswers) (spec : Text) (d : FrontendDef) : Prop where
  lookup : frontendGetDef (before COMMA spec) = some d
  alloc : a.alloc = 0
  configure : (d.canConfigure && (after COMMA spec).isSome) = true → a.configure = 0
  start : d.canStart = true → a.start = 0
  font : d.name = "VNC server frontend" → a.font = 0

def Registers (a : FrontAnswers) (spec : Text) : Prop := ∃ d, RegistersAs a spec d

/-- Everything succeeds up to `net_listen`. -/
structure SetUp (opts : List Opt) (a : Answers) : Prop where
  valid : ∀ o ∈ opts, o.Valid
  few : (specs opts).length ≤ MAX_FRONTENDS
  workqueueInit : a.workqueueInit = 0
  fbAlloc : a.fbAlloc = 0
  registers : ∀ i spec, (specs opts)[i]? = some spec → Registers (a.front i) spec

/-! ## The books -/

/-- The names that are still to be freed, the last one first. -/
def namesBelow (names : Nat → Name) : Nat → List Ptr
  | 0 => []
  | n + 1 => (names n).addr :: namesBelow names n

def State.owned (s : State) (fbs : List Ptr) : List Ptr :=
  namesBelow s.frontendNames s.frontendCnt ++ (s.fronts.map (·.addr) ++ fbs)

structure Books (s : State) (loose fbs : List Ptr) : Prop where
  lives : Lives s.trace (loose ++ s.owned fbs)
  fresh : ∀ p, .alloc p ∈ s.trace → p < s.next

variable {s : State} {loose fbs ps : List Ptr}

theorem Books.use (h : Books s loose fbs) (hps : ∀ p ∈ ps, p ∈ loose ++ s.owned fbs) (err : Int) :
    Books { s.use ps with err := err } loose fbs where
  lives := h.lives.uses hps
  fresh p hp := by
    rcases List.mem_append.mp hp with hold | hnew
    · exact h.fresh p hold
    · simp at hnew

theorem Books.not_alloc (h : Books s loose fbs) : .alloc s.next ∉ s.trace := fun hmem =>
  absurd (h.fresh _ hmem) (Nat.lt_irrefl _)

theorem fresh_alloc (h : Books s loose fbs) :
    ∀ p, .alloc p ∈ s.alloc.trace → p < s.alloc.next := fun p hp => by
  rcases List.mem_append.mp hp with hold | hnew
  · exact Nat.lt_succ_of_lt (h.fresh p hold)
  · cases List.mem_singleton.mp hnew
    exact Nat.lt_succ_self _

theorem namesBelow_update (names : Nat → Name) (n : Nat) (name : Name) :
    namesBelow (update names n name) (n + 1) = name.addr :: namesBelow names n := by
  have hbelow : ∀ m ≤ n, namesBelow (update names n name) m = namesBelow names m := by
    intro m hm
    induction m with
    | zero => rfl
    | succ m ih =>
      rw [namesBelow, namesBelow, ih (by omega), Function.update_of_ne (by omega)]
  rw [namesBelow, Function.update_self, hbelow n (Nat.le_refl n)]

/-! ## Options -/

/-- The specifications that are in `frontend_names`. -/
def State.texts (s : State) : List Text :=
  (List.range s.frontendCnt).map fun i => (s.frontendNames i).text

theorem texts_push (s : State) (p : Ptr) (arg : Text) :
    ({ s with
        frontendNames := update s.frontendNames s.frontendCnt ⟨p, arg⟩
        frontendCnt := s.frontendCnt + 1 } : State).texts = s.texts ++ [arg] := by
  have hbelow : ∀ i ∈ List.range s.frontendCnt,
      (update s.frontendNames s.frontendCnt ⟨p, arg⟩ i).text = (s.frontendNames i).text := by
    intro i hi
    rw [Function.update_of_ne (Nat.ne_of_lt (List.mem_range.mp hi))]
  simp only [State.texts, List.range_succ, List.map_append, List.map_cons, List.map_nil,
    Function.update_self, List.map_congr_left hbelow]

/-- Between two options, with the specifications `ts` so far. -/
structure Parsed (s : State) (ts : List Text) : Prop where
  books : Books s [] []
  none : s.fronts = []
  texts : s.texts = ts
  few : ts.length ≤ MAX_FRONTENDS

theorem Parsed.frontendCnt {ts : List Text} (h : Parsed s ts) : s.frontendCnt = ts.length := by
  rw [← h.texts, State.texts, List.length_map, List.length_range]

/-- A jump to `fail` from the options, which do not meet `P`. -/
structure Refused (P : Prop) (j : Label × State) : Prop where
  label : j.1 = .fail
  books : Books j.2 [] []
  none : j.2.fronts = []
  bad : ¬P

theorem Parsed.refused {ts : List Text} (h : Parsed s ts) (err : Int) {P : Prop} (hP : ¬P)
    {Q : State → Prop} : Ends (goto .fail { s with err := err }) Q (Refused P) :=
  ⟨rfl, ⟨h.books.lives, h.books.fresh⟩, h.none, hP⟩

/-- An option with a number; `s'` has stored it. -/
theorem parseNumber_ends {ts : List Text} (h : Parsed s ts) (err : Int) {s' : State}
    (h' : Parsed s' ts) (arg : Int32) :
    Ends (if arg ≤ 0 then goto .fail { s with err := err } else .ok s')
      (fun s' => Parsed s' (ts ++ []) ∧ 0 < arg)
      (Refused (0 < arg ∧ (ts ++ []).length ≤ MAX_FRONTENDS)) := by
  rw [List.append_nil]
  split
  case isTrue hle => exact h.refused err fun ho => absurd hle (Int32.not_le.mpr ho.1)
  case isFalse hle => exact ⟨h', Int32.not_le.mp hle⟩

theorem parseFrontend_ends {ts : List Text} (h : Parsed s ts) (arg : Text) (ok : Bool) :
    Ends (parseOption s (.f arg ok)) (fun s' => Parsed s' (ts ++ [arg]) ∧ ok = true)
      (Refused (ok = true ∧ (ts ++ [arg]).length ≤ MAX_FRONTENDS)) := by
  have hlen : (ts ++ [arg]).length = s.frontendCnt + 1 := by
    rw [List.length_append, List.length_singleton, h.frontendCnt]
  rw [parseOption, hlen]
  split
  case isTrue hfull => exact h.refused _ fun ho => absurd ho.2 (by omega)
  case isFalse hroom =>
    cases ok with
    | false => exact h.refused _ fun ho => absurd ho.1 (by decide)
    | true =>
      have hlives : Lives s.trace ([] ++ s.owned []) := h.books.lives
      refine ⟨⟨⟨?_, fresh_alloc h.books⟩, h.none, ?_, by omega⟩, rfl⟩
      · show Lives (s.trace ++ [.alloc s.next])
          ([] ++ (namesBelow (update s.frontendNames s.frontendCnt ⟨s.next, arg⟩)
            (s.frontendCnt + 1) ++ (s.fronts.map (·.addr) ++ [])))
        rw [namesBelow_update]
        exact hlives.alloc h.books.not_alloc
      · rw [← h.texts]
        exact texts_push s.alloc s.next arg

theorem parseOption_ends {ts : List Text} (h : Parsed s ts) (o : Opt) :
    Ends (parseOption s o) (fun s' => Parsed s' (ts ++ o.spec) ∧ o.Valid)
      (Refused (o.Valid ∧ (ts ++ o.spec).length ≤ MAX_FRONTENDS)) := by
  have hbooks : ∀ s' : State, s'.trace = s.trace → s'.next = s.next →
      s'.owned [] = s.owned [] → Books s' [] [] := by
    intro s' htrace hnext howned
    exact ⟨by rw [htrace, howned]; exact h.books.lives, by rw [htrace, hnext]; exact h.books.fresh⟩
  cases o with
  | w arg =>
    refine parseNumber_ends h _ ?_ arg
    exact ⟨hbooks _ rfl rfl rfl, h.none, h.texts, h.few⟩
  | h arg =>
    refine parseNumber_ends h _ ?_ arg
    exact ⟨hbooks _ rfl rfl rfl, h.none, h.texts, h.few⟩
  | r arg =>
    refine parseNumber_ends h _ ?_ arg
    exact ⟨hbooks _ rfl rfl rfl, h.none, h.texts, h.few⟩
  | f arg ok => exact parseFrontend_ends h arg ok
  | d =>
    show Parsed { s with showTextualInfo := false } (ts ++ []) ∧ True
    rw [List.append_nil]
    exact ⟨⟨hbooks _ rfl rfl rfl, h.none, h.texts, h.few⟩, trivial⟩
  | other => exact h.refused _ fun ho => ho.1

/-- **The options**, one after the other. -/
theorem parseOptions_ends (opts : List Opt) {ts : List Text} (h : Parsed s ts) :
    Ends (opts.foldlM parseOption s)
      (fun s' => Parsed s' (ts ++ specs opts) ∧ ∀ o ∈ opts, o.Valid)
      (Refused ((∀ o ∈ opts, o.Valid) ∧ (ts ++ specs opts).length ≤ MAX_FRONTENDS)) := by
  induction opts generalizing s ts with
  | nil =>
    show Parsed s (ts ++ []) ∧ _
    rw [List.append_nil]
    exact ⟨h, nofun⟩
  | cons o opts ih =>
    have hspecs : ts ++ specs (o :: opts) = (ts ++ o.spec) ++ specs opts := by
      rw [specs, List.flatMap_cons, List.append_assoc]
      rfl
    rw [List.foldlM_cons, hspecs]
    refine Ends.bind ((parseOption_ends h o).mono (fun _ => id) fun j hj => ?_) fun s₁ h₁ => ?_
    · refine ⟨hj.label, hj.books, hj.none, fun hall => hj.bad ⟨hall.1 o (.head _), ?_⟩⟩
      have hlen := hall.2
      rw [List.length_append] at hlen
      omega
    · refine (ih h₁.1).mono (fun s₂ h₂ => ⟨h₂.1, ?_⟩) fun j hj => ?_
      · exact List.forall_mem_cons.mpr ⟨h₁.2, h₂.2⟩
      · refine ⟨hj.label, hj.books, hj.none, fun hall => hj.bad ⟨?_, hall.2⟩⟩
        exact fun o' ho' => hall.1 o' (.tail _ ho')

/-! ## Registration -/

/-- From `s` to `s'` the books were kept, and the names and the framebuffer stayed. -/
structure Kept (s s' : State) (loose fbs : List Ptr) : Prop where
  books : Books s' loose fbs
  fb : s'.fb = s.fb
  frontendCnt : s'.frontendCnt = s.frontendCnt
  frontendNames : s'.frontendNames = s.frontendNames

theorem Kept.trans {s₁ s₂ : State} {loose₁ : List Ptr} (h₁ : Kept s s₁ loose₁ fbs)
    (h₂ : Kept s₁ s₂ loose fbs) : Kept s s₂ loose fbs where
  books := h₂.books
  fb := h₂.fb.trans h₁.fb
  frontendCnt := h₂.frontendCnt.trans h₁.frontendCnt
  frontendNames := h₂.frontendNames.trans h₁.frontendNames

/-- A jump to `fail_fronts_free_name` from `s`, when `P` fails. -/
structure Broken (s : State) (loose fbs : List Ptr) (P : Prop) (j : Label × State) : Prop where
  label : j.1 = .failFrontsFreeName
  kept : Kept s j.2 loose fbs
  bad : ¬P

/-- **A step of a registration**, and what follows it. Its jump breaks `P`, which
asks for its success. -/
theorem attempt_bind {s₀ : State} {k : State → Block} {Q : State → Prop} {P : Prop} {cond : Bool}
    {err : Int} (h : Kept s₀ s loose fbs) (hps : ∀ p ∈ ps, p ∈ loose ++ s.owned fbs)
    (hP : P → cond = true → err = 0)
    (hk : ∀ s', Kept s₀ s' loose fbs → s'.owned fbs = s.owned fbs → (cond = true → err = 0) →
      Ends (k s') Q (Broken s₀ loose fbs P)) :
    Ends (attempt cond ps err s >>= k) Q (Broken s₀ loose fbs P) := by
  cases cond with
  | false => exact hk s h rfl nofun
  | true =>
    have hused : Kept s₀ { s.use ps with err := err } loose fbs :=
      ⟨h.books.use hps err, h.fb, h.frontendCnt, h.frontendNames⟩
    by_cases herr : err = 0
    · have hok : attempt true ps err s = .ok { s.use ps with err := err } := by simp [attempt, herr]
      rw [hok]
      exact hk _ hused rfl fun _ => herr
    · have hjump : attempt true ps err s = goto .failFrontsFreeName { s.use ps with err := err } := by
        simp [attempt, herr]
      rw [hjump]
      exact ⟨rfl, hused, fun hp => herr (hP hp rfl)⟩

/-- A new frontend is appended to the list. -/
theorem appendFront_kept (h : Books s loose fbs) (d : FrontendDef) :
    Kept s (s.appendFront d) loose fbs ∧ s.next ∈ (s.appendFront d).owned fbs := by
  have howned : (s.appendFront d).owned fbs =
      namesBelow s.frontendNames s.frontendCnt ++ (s.fronts.map (·.addr) ++ s.next :: fbs) := by
    simp [State.owned, State.appendFront, State.alloc, State.use]
  have hlives := h.lives
  rw [State.owned, ← List.append_assoc, ← List.append_assoc] at hlives
  have hnew := hlives.alloc h.not_alloc
  have hmem : s.next ∈ (s.appendFront d).owned fbs := by
    rw [howned]
    simp
  refine ⟨⟨⟨?_, ?_⟩, rfl, rfl, rfl⟩, hmem⟩
  · have huse := hnew.use (a := s.next) (by simp)
    rw [howned, ← List.append_assoc, ← List.append_assoc]
    exact huse
  · intro p hp
    rcases List.mem_append.mp hp with hold | hnew'
    · exact fresh_alloc h p hold
    · simp at hnew'

theorem Books.free {p : Ptr} (h : Books s (p :: loose) fbs) : Books (s.free p) loose fbs where
  lives := by
    have hlives : Lives s.trace ([] ++ p :: (loose ++ s.owned fbs)) := h.lives
    exact hlives.free
  fresh q hq := by
    rcases List.mem_append.mp hq with hold | hnew
    · exact h.fresh q hold
    · simp at hnew

/-- **One registration**: the name at `frontend_cnt` is loose before it, and
freed at its end. -/
theorem registerFrontend_ends (answers : Nat → FrontAnswers)
    (h : Books s [(s.frontendNames s.frontendCnt).addr] [s.fb]) :
    Ends (registerFrontend answers s)
      (fun s' => Kept s s' [] [s.fb] ∧
        Registers (answers s.frontendCnt) (s.frontendNames s.frontendCnt).text)
      (Broken s [(s.frontendNames s.frontendCnt).addr] [s.fb]
        (Registers (answers s.frontendCnt) (s.frontendNames s.frontendCnt).text)) := by
  rw [registerFrontend]
  generalize hid : (s.frontendNames s.frontendCnt).addr = frontid at h ⊢
  generalize (s.frontendNames s.frontendCnt).text = spec
  generalize answers s.frontendCnt = a
  have h₁ : Books (s.use [frontid]) [frontid] [s.fb] := h.use (by simp) s.err
  cases hdef : frontendGetDef (before COMMA spec) with
  | none =>
    have h₂ : Books ((s.use [frontid]).use [frontid]) [frontid] [s.fb] := h₁.use (by simp) s.err
    refine ⟨rfl, ⟨h₂, rfl, rfl, rfl⟩, fun hreg => ?_⟩
    obtain ⟨d, hd⟩ := hreg
    rw [hd.lookup] at hdef
    cases hdef
  | some d =>
    have h₂ : Books ((s.use [frontid]).use [s.fb]) [frontid] [s.fb] :=
      h₁.use (by simp [State.owned]) s.err
    by_cases halloc : a.alloc = 0
    · show Ends (if a.alloc ≠ 0 then _ else _) _ _
      rw [if_neg (not_not.mpr halloc)]
      obtain ⟨h₃, hfront⟩ := appendFront_kept h₂ d
      have hkept : Kept s (((s.use [frontid]).use [s.fb]).appendFront d) [frontid] [s.fb] :=
        ⟨h₃.books, h₃.fb, h₃.frontendCnt, h₃.frontendNames⟩
      have hsame : ∀ {d' : FrontendDef}, RegistersAs a spec d' → d' = d := fun hd' =>
        Option.some.inj (hd'.lookup.symm.trans hdef)
      refine attempt_bind hkept ?_ (fun ⟨_, hd'⟩ => hsame hd' ▸ hd'.configure)
        fun s₄ h₄ howned₄ hconfigure => ?_
      · intro p hp
        rcases List.mem_pair.mp hp with rfl | rfl
        · exact .tail _ hfront
        · exact .head _
      refine attempt_bind h₄ ?_ (fun ⟨_, hd'⟩ => hsame hd' ▸ hd'.start)
        fun s₅ h₅ howned₅ hstart => ?_
      · intro p hp
        rw [List.mem_singleton.mp hp, howned₄]
        exact .tail _ hfront
      refine attempt_bind h₅ ?_ (fun ⟨_, hd'⟩ hname => ?_) fun s₆ h₆ _ hfont => ?_
      · intro p hp
        rw [List.mem_singleton.mp hp, howned₅, howned₄]
        exact .tail _ hfront
      · rw [← hsame hd'] at hname
        exact hd'.font (of_decide_eq_true hname)
      · refine ⟨⟨h₆.books.free, h₆.fb, h₆.frontendCnt, h₆.frontendNames⟩, d, hdef, halloc,
          hconfigure, hstart, fun hname => hfont (decide_eq_true hname)⟩
    · have h₃ : Books { (s.use [frontid]).use [s.fb] with err := a.alloc } [frontid] [s.fb] :=
        ⟨h₂.lives, h₂.fresh⟩
      show Ends (if a.alloc ≠ 0 then _ else _) _ _
      rw [if_pos halloc]
      refine ⟨rfl, ⟨h₃, rfl, rfl, rfl⟩, fun hreg => ?_⟩
      obtain ⟨d', hd'⟩ := hreg
      exact halloc hd'.alloc

/-- The name at `frontend_cnt` is loose, or counted. -/
theorem books_count {n : Nat} (hn : s.frontendCnt = n) :
    Books { s with frontendCnt := n + 1 } [] fbs ↔ Books s [(s.frontendNames n).addr] fbs := by
  subst hn
  exact ⟨fun h => ⟨h.lives, h.fresh⟩, fun h => ⟨h.lives, h.fresh⟩⟩

/-- **The registration loop**, by induction on `frontend_cnt`. -/
theorem registerFrontends_ends (answers : Nat → FrontAnswers) (n : Nat) {s : State}
    (hn : s.frontendCnt = n) (h : Books s [] [s.fb]) :
    Ends (registerFrontends answers n s)
      (fun s' => Books s' [] [s'.fb] ∧ s'.frontendCnt = 0 ∧
        ∀ i < n, Registers (answers i) (s.frontendNames i).text)
      (fun j => j.1 = .failFrontsFreeName ∧
        Books { j.2 with frontendCnt := j.2.frontendCnt + 1 } [] [j.2.fb] ∧
        ¬∀ i < n, Registers (answers i) (s.frontendNames i).text) := by
  induction n generalizing s with
  | zero => exact ⟨h, hn, fun i hi => absurd hi (Nat.not_lt_zero i)⟩
  | succ n ih =>
    have hcounted : Books { { s with frontendCnt := n } with frontendCnt := n + 1 } [] [s.fb] := by
      rw [← hn]
      exact ⟨h.lives, h.fresh⟩
    have hloose := (books_count (s := { s with frontendCnt := n }) rfl).mp hcounted
    refine Ends.bind ((registerFrontend_ends answers hloose).mono (fun _ => id) fun j hj => ?_)
      fun s₁ ⟨hkept, hreg⟩ => ?_
    · refine ⟨hj.label, ?_, fun hall => hj.bad (hall n (Nat.lt_succ_self n))⟩
      rw [books_count rfl, hj.kept.frontendCnt, hj.kept.frontendNames, hj.kept.fb]
      exact hj.kept.books
    · have hbooks : Books s₁ [] [s₁.fb] := by
        rw [hkept.fb]
        exact hkept.books
      have hrest := ih hkept.frontendCnt hbooks
      rw [hkept.frontendNames] at hrest
      refine hrest.mono (fun s₂ h₂ => ⟨h₂.1, h₂.2.1, fun i hi => ?_⟩) fun j hj => ?_
      · rcases Nat.lt_succ_iff_lt_or_eq.mp hi with hlt | rfl
        · exact h₂.2.2 i hlt
        · exact hreg
      · exact ⟨hj.1, hj.2.1, fun hall => hj.2.2 fun i hi => hall i (Nat.lt_succ_of_lt hi)⟩

/-! ## The main loop -/

/-- From `s` to `s'` nothing was freed, and the list stayed. -/
structure Drawn (s s' : State) : Prop where
  kept : Kept s s' [] [s.fb]
  fronts : s'.fronts = s.fronts

theorem Drawn.trans {s₁ s₂ : State} (h₁ : Drawn s s₁) (h₂ : Drawn s₁ s₂) : Drawn s s₂ where
  kept := by
    have hkept := h₂.kept
    rw [h₁.kept.fb] at hkept
    exact h₁.kept.trans hkept
  fronts := h₂.fronts.trans h₁.fronts

theorem Drawn.books {s' : State} (h : Drawn s s') : Books s' [] [s'.fb] := by
  rw [h.kept.fb]
  exact h.kept.books

theorem drawn_use (h : Books s [] [s.fb])
    (hps : ∀ p ∈ ps, p = s.fb ∨ ∃ front ∈ s.fronts, front.addr = p) (err : Int) :
    Drawn s { s.use ps with err := err } := by
  refine ⟨⟨h.use (fun p hp => ?_) err, rfl, rfl, rfl⟩, rfl⟩
  rcases hps p hp with rfl | ⟨front, hfront, rfl⟩
  · simp [State.owned]
  · have hmem : front.addr ∈ s.fronts.map (·.addr) := List.mem_map_of_mem hfront
    simp only [State.owned, List.nil_append, List.mem_append]
    exact .inr (.inl hmem)

theorem updateFronts_drawn (answers : Nat → Int) (k : Nat) (fronts : List Front) {s : State}
    (h : Books s [] [s.fb]) (hfronts : ∀ front ∈ fronts, front ∈ s.fronts) :
    Drawn s (updateFronts answers k fronts s).1 := by
  induction fronts generalizing k s with
  | nil => exact ⟨⟨h, rfl, rfl, rfl⟩, rfl⟩
  | cons front rest ih =>
    have hmem : ∃ front' ∈ s.fronts, front'.addr = front.addr :=
      ⟨front, hfronts front (.head _), rfl⟩
    rw [updateFronts]
    generalize hs₁ : (if s.showTextualInfo && front.definition.canDrawString then
      s.use [front.addr, s.fb, front.addr, s.fb, front.addr, s.fb, front.addr, s.fb] else s) = s₁
    have h₁ : Drawn s s₁ := by
      subst hs₁
      split
      · exact drawn_use h (by simp [hmem]) s.err
      · exact ⟨⟨h, rfl, rfl, rfl⟩, rfl⟩
    rw [← h₁.fronts] at hmem
    have h₂ : Drawn s₁ { s₁.use [front.addr, s₁.fb] with err := answers k } :=
      drawn_use h₁.books (by simp [hmem]) _
    by_cases herr : answers k = 0
    · have h₃ := ih (k + 1) h₂.books fun front' hfront' => by
        rw [h₂.fronts, h₁.fronts]
        exact hfronts front' (.tail _ hfront')
      simp only [herr, ne_eq, not_true_eq_false, ↓reduceIte]
      rw [herr] at h₂ h₃
      exact (h₁.trans h₂).trans h₃
    · have h₃ : Drawn { s₁.use [front.addr, s₁.fb] with err := answers k }
          ({ s₁.use [front.addr, s₁.fb] with err := answers k }.use [front.addr]) :=
        drawn_use h₂.books (fun p hp => .inr (List.mem_singleton.mp hp ▸ hmem)) (answers k)
      simp only [herr, ne_eq, not_false_eq_true, ↓reduceIte]
      exact (h₁.trans h₂).trans h₃

/-- **The main loop**, by induction on its iterations. -/
theorem mainLoop_drawn (iterations : List Iteration) {s : State} (h : Books s [] [s.fb]) :
    Drawn s (mainLoop iterations s) := by
  induction iterations generalizing s with
  | nil => exact ⟨⟨h, rfl, rfl, rfl⟩, rfl⟩
  | cons i rest ih =>
    rw [mainLoop]
    have h₁ := updateFronts_drawn i.update 0 s.fronts h fun _ => id
    generalize updateFronts i.update 0 s.fronts s = r at h₁
    obtain ⟨s₁, doExit⟩ := r
    have h₂ : Drawn s (if i.fps then s₁.use [s₁.fb] else s₁) := by
      split
      · exact h₁.trans (drawn_use h₁.books (by simp) s₁.err)
      · exact h₁
    cases doExit with
    | true => exact h₂
    | false => exact h₂.trans (ih h₂.books)

/-! ## The labels -/

theorem freeNames_lives (n : Nat) {s : State} {l : List Ptr}
    (h : Lives s.trace (namesBelow s.frontendNames n ++ l)) : Lives (freeNames n s).trace l := by
  induction n generalizing s with
  | zero => exact h
  | succ n ih =>
    have hlives : Lives s.trace
        ([] ++ (s.frontendNames n).addr :: (namesBelow s.frontendNames n ++ l)) := h
    exact ih hlives.free

theorem freeFronts_lives (fronts : List Front) {s : State} {as bs : List Ptr}
    (h : Lives s.trace (as ++ (fronts.map (·.addr) ++ bs))) :
    Lives (freeFronts s fronts).trace (as ++ bs) := by
  induction fronts generalizing s with
  | nil => exact h
  | cons front rest ih =>
    have hused := h.use (a := front.addr) (by simp)
    exact ih hused.free

theorem freeFronts_same (fronts : List Front) (s : State) :
    (freeFronts s fronts).fb = s.fb ∧ (freeFronts s fronts).frontendCnt = s.frontendCnt ∧
      (freeFronts s fronts).frontendNames = s.frontendNames := by
  induction fronts generalizing s with
  | nil => exact ⟨rfl, rfl, rfl⟩
  | cons front rest ih => exact ih _

/-- At `fail` the names are freed, and nothing else. -/
theorem atFail_lives (h : Books s [] fbs) :
    Lives (atFail s).trace (s.fronts.map (·.addr) ++ fbs) :=
  freeNames_lives s.frontendCnt h.lives

/-- At `fail_fronts` all is freed. -/
theorem atFailFronts_lives (h : Books s [] [s.fb]) : Lives (atFailFronts s).trace [] := by
  obtain ⟨hfb, hcnt, hnames⟩ := freeFronts_same s.fronts s
  have hfronts := freeFronts_lives s.fronts h.lives
  have hnames' : Lives (freeFronts s s.fronts).trace
      (namesBelow s.frontendNames s.frontendCnt ++ (s.fb :: [])) := hfronts
  have hfree := hnames'.free
  rw [List.append_nil, ← hfb, ← hcnt, ← hnames] at hfree
  refine freeNames_lives _ ?_
  rw [List.append_nil]
  exact hfree

/-! ## `main` -/

/-- Where the setup is left, and with which books. -/
inductive LeftAt (opts : List Opt) (a : Answers) : Label × State → Prop where
  | early {s : State} (books : Books s [] []) (none : s.fronts = []) (bad : ¬SetUp opts a) :
      LeftAt opts a (.fail, s)
  | registering {s : State} (books : Books { s with frontendCnt := s.frontendCnt + 1 } [] [s.fb])
      (bad : ¬SetUp opts a) : LeftAt opts a (.failFrontsFreeName, s)
  | listening {s : State} (books : Books s [] [s.fb]) (ok : SetUp opts a)
      (bad : a.netListen ≠ 0) : LeftAt opts a (.fail, s)

theorem parsed_start (names : Nat → Name) (err : Int) : Parsed (start names err) [] where
  books := ⟨Lives.nil, nofun⟩
  none := rfl
  texts := rfl
  few := Nat.zero_le _

theorem texts_getElem? (s : State) (i : Nat) :
    s.texts[i]? = if i < s.frontendCnt then some (s.frontendNames i).text else none := by
  rw [State.texts, List.getElem?_map]
  split
  case isTrue hi => rw [List.getElem?_range hi, Option.map_some]
  case isFalse hi => rw [List.getElem?_eq_none (by simpa using hi), Option.map_none]

theorem Parsed.allocFb {ts : List Text} (h : Parsed s ts) :
    Books s.allocFb [] [s.allocFb.fb] where
  lives := by
    have hlives := h.books.lives
    rw [State.owned, h.none] at hlives
    have hnames : Lives s.trace (namesBelow s.frontendNames s.frontendCnt ++ []) := hlives
    exact hnames.alloc h.books.not_alloc
  fresh := fresh_alloc h.books

/-- The specifications, by their places in `frontend_names`. -/
theorem Parsed.forall_text {ts : List Text} (h : Parsed s ts) {P : Nat → Text → Prop} :
    (∀ i spec, ts[i]? = some spec → P i spec) ↔
      ∀ i < s.frontendCnt, P i (s.frontendNames i).text := by
  rw [← h.texts]
  constructor
  · intro hall i hi
    exact hall i _ (by rw [texts_getElem?, if_pos hi])
  · intro hall i spec hspec
    rw [texts_getElem?] at hspec
    split at hspec
    case isTrue hi =>
      cases hspec
      exact hall i hi
    case isFalse => cases hspec

/-- **The setup.** -/
theorem setup_ends (opts : List Opt) (a : Answers) (names : Nat → Name) (err : Int) :
    Ends (setup opts a (start names err))
      (fun s => Books s [] [s.fb] ∧ SetUp opts a ∧ a.netListen = 0) (LeftAt opts a) := by
  have hoptions := parseOptions_ends opts (parsed_start names err)
  rw [List.nil_append] at hoptions
  refine Ends.bind (hoptions.mono (fun _ => id) fun j hj => ?_) fun s₁ ⟨hparsed, hvalid⟩ => ?_
  · obtain ⟨label, s₁⟩ := j
    obtain ⟨rfl, hbooks, hnone, hbad⟩ := hj
    exact .early hbooks hnone fun hall => hbad ⟨hall.valid, hall.few⟩
  by_cases hinit : a.workqueueInit = 0
  · by_cases halloc : a.fbAlloc = 0
    · simp only [hinit, halloc, ne_eq, not_true_eq_false, ↓reduceIte]
      have hloop :=
        registerFrontends_ends a.front s₁.frontendCnt (s := s₁.allocFb) rfl hparsed.allocFb
      have hall : SetUp opts a ↔
          ∀ i < s₁.frontendCnt, Registers (a.front i) (s₁.frontendNames i).text :=
        ⟨fun hset => hparsed.forall_text.mp hset.registers, fun hreg =>
          ⟨hvalid, hparsed.few, hinit, halloc, hparsed.forall_text.mpr hreg⟩⟩
      refine Ends.bind (hloop.mono (fun _ => id) fun j hj => ?_) fun s₂ ⟨hbooks, _, hreg⟩ => ?_
      · obtain ⟨label, s₂⟩ := j
        obtain ⟨rfl, hbooks, hbad⟩ := hj
        exact .registering hbooks fun hset => hbad (hall.mp hset)
      · have hused : Books { s₂.use [s₂.fb] with err := a.netListen } [] [s₂.fb] :=
          hbooks.use (by simp [State.owned]) _
        split
        case isTrue hlisten => exact .listening hused (hall.mpr hreg) hlisten
        case isFalse hlisten => exact ⟨hused, hall.mpr hreg, not_not.mp hlisten⟩
    · simp only [hinit, halloc, ne_eq, not_true_eq_false, not_false_eq_true, ↓reduceIte]
      exact .early ⟨hparsed.books.lives, hparsed.books.fresh⟩ hparsed.none fun hall =>
        halloc hall.fbAlloc
  · simp only [hinit, ne_eq, not_false_eq_true, ↓reduceIte]
    exact .early ⟨hparsed.books.lives, hparsed.books.fresh⟩ hparsed.none fun hall =>
      hinit hall.workqueueInit

/-- **`main` releases all that it acquired**, unless all goes well up to
`net_listen` and `net_listen` fails. -/
theorem main_releases_iff (opts : List Opt) (a : Answers) (names : Nat → Name) (err : Int) :
    Released (main opts a (start names err)).trace ↔ ¬(SetUp opts a ∧ a.netListen ≠ 0) := by
  have hends := setup_ends opts a names err
  rw [main]
  cases hsetup : setup opts a (start names err) with
  | ok s =>
    rw [hsetup] at hends
    obtain ⟨hbooks, -, hlisten⟩ := hends
    have hlives := atFailFronts_lives (mainLoop_drawn a.iterations hbooks).books
    exact iff_of_true (hlives.released_iff.mpr rfl) fun hbad => hbad.2 hlisten
  | error j =>
    rw [hsetup] at hends
    cases hends with
    | early hbooks hnone hbad =>
      have hlives := atFail_lives hbooks
      rw [hnone] at hlives
      exact iff_of_true (hlives.released_iff.mpr rfl) fun hset => hbad hset.1
    | registering hbooks hbad =>
      have hlives := atFailFronts_lives hbooks
      exact iff_of_true (hlives.released_iff.mpr rfl) fun hset => hbad hset.1
    | listening hbooks hset hlisten =>
      have hlives := atFail_lives hbooks
      refine iff_of_false (fun hreleased => ?_) fun hnot => hnot ⟨hset, hlisten⟩
      have hnil := hlives.released_iff.mp hreleased
      simp at hnil

/-- `-f sdl`: all goes well, but `net_listen` returns -1. The framebuffer, at
address 1, and the frontend, at address 2, stay allocated. -/
theorem not_released_of_failed_listen :
    ¬Released (main [.f (ascii ['s', 'd', 'l']) true] ⟨0, 0, fun _ => ⟨0, 0, 0, 0⟩, -1, []⟩
      (start (fun _ => ⟨0, []⟩) 0)).trace := by
  intro h
  have hfree := h.once 1 (by decide)
  revert hfree
  decide

end Pixelflut.Main
