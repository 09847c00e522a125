import Mathlib.Logic.Basic

/-!
# Guarded transition systems

A system is an initial state and a guarded, executable step: `step s a` is
`some s'` when the action `a` is enabled in `s`, and `none` otherwise.

* `ReachableBy ok`: the states of the runs whose steps all meet `ok`;
  `Reachable` is the case without a condition;
* `ReachableBy.invariant`: the induction rule for such runs;
* `reachableBy_of_run`: a replayed list of actions ends in a reachable state,
  and `run_restrict_of_backward` reads from the end of a run what its steps met;
* `run_restrict_iff`: a property that a step keeps exactly if it meets a test;
* `run_history`: a property of the state and of all actions taken so far;
* `ReachableBy.simulate`: what a function makes of the states of one system are states
  of another one, in which a step may also be none;
* `Bisimulation`: a relation under which two systems over the same actions
  enable the same steps and stay related;
* `Bisimulation.reachableBy` carries a state of the first system over to a
  related state of the second one, and `Bisimulation.isSome_step` what is
  enabled in it.
-/

namespace Lib.Transition

variable {σ τ α β : Type}

/-- An initial state and a guarded step. -/
structure System (σ α : Type) where
  init : σ
  step : σ → α → Option σ

namespace System

/-- States of the runs from `init` whose steps all meet `ok`. -/
inductive ReachableBy (S : System σ α) (ok : σ → α → Prop) : σ → Prop
  | init : ReachableBy S ok S.init
  | step {s s' : σ} {a : α} :
      ReachableBy S ok s → ok s a → S.step s a = some s' → ReachableBy S ok s'

/-- States of all runs from `init`. -/
abbrev Reachable (S : System σ α) : σ → Prop := S.ReachableBy fun _ _ => True

/-- Replay a list of actions; `none` when one of them is not enabled. -/
def run (S : System σ α) (s : σ) : List α → Option σ
  | [] => some s
  | a :: as => (S.step s a).bind fun s' => run S s' as

theorem run_cons {S : System σ α} {s s' : σ} {a : α} (h : S.step s a = some s') (as : List α) :
    S.run s (a :: as) = S.run s' as := by
  rw [run, h, Option.bind_some]

theorem run_append (S : System σ α) (s : σ) (as bs : List α) :
    S.run s (as ++ bs) = (S.run s as).bind fun s' => S.run s' bs := by
  induction as generalizing s with
  | nil => rfl
  | cons a as ih =>
    simp only [List.cons_append, run, Option.bind_assoc]
    exact congrArg _ (funext ih)

/-- The system that takes only the steps that pass the test `ok`. -/
def restrict (S : System σ α) (ok : σ → α → Bool) : System σ α where
  init := S.init
  step := fun s a => if ok s a then S.step s a else none

/-- **Invariant rule.** -/
theorem ReachableBy.invariant {S : System σ α} {ok : σ → α → Prop} {P : σ → Prop}
    (hinit : P S.init)
    (hstep : ∀ s a s', S.ReachableBy ok s → P s → ok s a → S.step s a = some s' → P s')
    {s : σ} (hs : S.ReachableBy ok s) : P s := by
  induction hs with
  | init => exact hinit
  | step hr hok he ih => exact hstep _ _ _ hr ih hok he

/-- Weaker conditions on the steps reach more states. -/
theorem ReachableBy.mono {S : System σ α} {ok ok' : σ → α → Prop}
    (h : ∀ s a, ok s a → ok' s a) {s : σ} (hs : S.ReachableBy ok s) : S.ReachableBy ok' s := by
  induction hs with
  | init => exact .init
  | step _ hok he ih => exact .step ih (h _ _ hok) he

theorem ReachableBy.reachable {S : System σ α} {ok : σ → α → Prop} {s : σ}
    (hs : S.ReachableBy ok s) : S.Reachable s :=
  hs.mono fun _ _ _ => trivial

/-- **Simulation rule**, along a function: a step of the first system is a step of the
second one, or is not seen there. -/
theorem ReachableBy.simulate {C : System σ α} {A : System τ β} {ok : σ → α → Prop} (f : σ → τ)
    (hinit : f C.init = A.init)
    (hstep : ∀ c a c', C.ReachableBy ok c → ok c a → C.step c a = some c' →
      f c' = f c ∨ ∃ b, A.step (f c) b = some (f c'))
    {c : σ} (hc : C.ReachableBy ok c) : A.Reachable (f c) := by
  induction hc with
  | init => rw [hinit]; exact .init
  | step hr hok he ih =>
    rcases hstep _ _ _ hr hok he with hsame | ⟨b, hb⟩
    · rw [hsame]; exact ih
    · exact .step ih trivial hb

theorem run_reachableBy {S : System σ α} {ok : σ → α → Bool} (as : List α) {s s' : σ}
    (hs : S.ReachableBy (fun s a => ok s a = true) s) (h : (S.restrict ok).run s as = some s') :
    S.ReachableBy (fun s a => ok s a = true) s' := by
  induction as generalizing s with
  | nil => cases h; exact hs
  | cons a as ih =>
    obtain ⟨t, ht, hrun⟩ := Option.bind_eq_some_iff.mp h
    cases hok : ok s a
    · simp [restrict, hok] at ht
    · simp only [restrict, hok, ↓reduceIte] at ht
      exact ih (.step hs hok ht) hrun

/-- A replay whose steps pass the test `ok` ends in a state reachable by `ok`. -/
theorem reachableBy_of_run {S : System σ α} {ok : σ → α → Bool} (as : List α) {s : σ}
    (h : (S.restrict ok).run S.init as = some s) : S.ReachableBy (fun s a => ok s a = true) s :=
  run_reachableBy as .init h

theorem restrict_true (S : System σ α) : S.restrict (fun _ _ => true) = S := rfl

/-- A replay that passes the test is a replay. -/
theorem run_of_restrict {S : System σ α} {ok : σ → α → Bool} (as : List α) {s s' : σ}
    (h : (S.restrict ok).run s as = some s') : S.run s as = some s' := by
  induction as generalizing s with
  | nil => exact h
  | cons a as ih =>
    obtain ⟨t, ht, hrun⟩ := Option.bind_eq_some_iff.mp h
    have hstep : S.step s a = some t := by
      simp only [restrict] at ht
      split at ht
      · exact ht
      · cases ht
    exact (run_cons hstep as).trans (ih hrun)

theorem reachable_of_run {S : System σ α} (as : List α) {s : σ} (h : S.run S.init as = some s) :
    S.Reachable s := by
  rw [← restrict_true S] at h
  exact (reachableBy_of_run as h).reachable

/-- **History rule.** What a step keeps of the state and the actions before it. -/
theorem run_history {S : System σ α} {P : List α → σ → Prop}
    (hstep : ∀ as s a s', P as s → S.step s a = some s' → P (as ++ [a]) s') (as : List α)
    {before : List α} {s s' : σ} (hs : P before s) (h : S.run s as = some s') :
    P (before ++ as) s' := by
  induction as generalizing before s with
  | nil =>
    cases h
    rw [List.append_nil]
    exact hs
  | cons a as ih =>
    obtain ⟨t, ht, hrun⟩ := Option.bind_eq_some_iff.mp h
    rw [← List.singleton_append, ← List.append_assoc]
    exact ih (hstep before s a t hs ht) hrun

/-- **Backward rule.** If `Q` passes back over every step, and the step then
meets the test `ok`, a run that ends in `Q` has met the test throughout. -/
theorem run_restrict_of_backward {S : System σ α} {ok : σ → α → Bool} {Q : σ → Prop}
    (hback : ∀ s a s', S.Reachable s → S.step s a = some s' → Q s' → Q s ∧ ok s a = true)
    (as : List α) {s s' : σ} (hs : S.Reachable s) (h : S.run s as = some s') (hQ : Q s') :
    Q s ∧ (S.restrict ok).run s as = some s' := by
  induction as generalizing s with
  | nil => cases h; exact ⟨hQ, rfl⟩
  | cons a as ih =>
    obtain ⟨t, ht, hrun⟩ := Option.bind_eq_some_iff.mp h
    obtain ⟨hQt, hrest⟩ := ih (.step hs trivial ht) hrun
    obtain ⟨hQs, hok⟩ := hback s a t hs ht hQt
    refine ⟨hQs, Option.bind_eq_some_iff.mpr ⟨t, ?_, hrest⟩⟩
    simp only [restrict, hok, ↓reduceIte, ht]

/-- If a step keeps `Q` exactly when it meets the test, and never restores it,
then `Q` holds at the end of exactly the runs that meet the test throughout. -/
theorem run_restrict_iff {S : System σ α} {ok : σ → α → Bool} {Q : σ → Prop} (hinit : Q S.init)
    (hstep : ∀ s a s', S.Reachable s → S.step s a = some s' → (Q s' ↔ Q s ∧ ok s a = true))
    {as : List α} {s : σ} (h : S.run S.init as = some s) :
    Q s ↔ (S.restrict ok).run S.init as = some s := by
  constructor
  · intro hQ
    exact (run_restrict_of_backward (fun s a s' hs ha => (hstep s a s' hs ha).mp) as .init h hQ).2
  · intro hok
    refine (reachableBy_of_run as hok).invariant hinit ?_
    intro s a s' hr hQ ha he
    exact (hstep s a s' hr.reachable he).mpr ⟨hQ, ha⟩

end System

/-- A relation between the states of two systems over the same actions that
holds at the start; related states enable the same actions, with related
results. The second state may be taken to be reachable. -/
structure Bisimulation (C : System σ α) (A : System τ α) where
  rel : σ → τ → Prop
  init : rel C.init A.init
  step : ∀ {c a}, A.Reachable a → rel c a → ∀ x, Option.Rel rel (C.step c x) (A.step a x)

namespace Bisimulation

variable {C : System σ α} {A : System τ α}

/-- A step of the first system is matched by one of the second. -/
theorem step_some (R : Bisimulation C A) {c c' : σ} {a : τ} (ha : A.Reachable a)
    (hrel : R.rel c a) {x : α} (h : C.step c x = some c') :
    ∃ a', A.step a x = some a' ∧ R.rel c' a' := by
  have hstep := R.step ha hrel x
  rw [h] at hstep
  cases ha' : A.step a x with
  | none =>
    rw [ha'] at hstep
    cases hstep
  | some a' =>
    rw [ha'] at hstep
    cases hstep with
    | some hrel' => exact ⟨a', rfl, hrel'⟩

/-- **Simulation rule.** A run of the first system is matched by a run of the
second one, also when a condition on the steps carries over. -/
theorem reachableBy (R : Bisimulation C A) {okC : σ → α → Prop} {okA : τ → α → Prop}
    (hok : ∀ c a x, R.rel c a → okC c x → okA a x) {c : σ} (hc : C.ReachableBy okC c) :
    ∃ a, A.ReachableBy okA a ∧ R.rel c a := by
  induction hc with
  | init => exact ⟨A.init, .init, R.init⟩
  | step _ hx he ih =>
    obtain ⟨a, ha, hrel⟩ := ih
    obtain ⟨a', hstep, hrel'⟩ := R.step_some ha.reachable hrel he
    exact ⟨a', .step ha (hok _ _ _ hrel hx) hstep, hrel'⟩

/-- Related states enable the same actions. -/
theorem isSome_step (R : Bisimulation C A) {c : σ} {a : τ} (ha : A.Reachable a)
    (hrel : R.rel c a) (x : α) : (C.step c x).isSome = (A.step a x).isSome := by
  have hstep := R.step ha hrel x
  generalize C.step c x = oc at hstep ⊢
  generalize A.step a x = oa at hstep ⊢
  cases hstep <;> rfl

end Bisimulation

end Lib.Transition
