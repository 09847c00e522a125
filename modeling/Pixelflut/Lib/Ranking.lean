import Mathlib.Data.List.Count
import Pixelflut.Lib.Transition

/-!
# Runs that come to an end

Rules about the rest of a run, from any state with an invariant.

* `run_rank`: if the steps of one party lower a rank and no step raises it, the
  rank at the start bounds the number of steps that the party still takes;
* `run_length_le`: the case in which every step lowers the rank;
* `Bisimulation.run_restrict`: a run of the first system is matched by the same
  run of the second one, from any pair of related states.
-/

namespace Lib.Transition

variable {σ τ α : Type}

namespace System

/-- **Ranking rule.** -/
theorem run_rank {S : System σ α} {P : σ → Prop} {rank : σ → Nat} (own : α → Bool)
    (hstep : ∀ s a s', P s → S.step s a = some s' →
      P s' ∧ rank s' + (if own a then 1 else 0) ≤ rank s)
    (as : List α) {s s' : σ} (hs : P s) (h : S.run s as = some s') :
    P s' ∧ rank s' + as.countP own ≤ rank s := by
  induction as generalizing s with
  | nil =>
    cases h
    exact ⟨hs, by simp⟩
  | cons a as ih =>
    obtain ⟨t, ht, hrun⟩ := Option.bind_eq_some_iff.mp h
    obtain ⟨hPt, hfirst⟩ := hstep s a t hs ht
    obtain ⟨hPs', hrest⟩ := ih hPt hrun
    refine ⟨hPs', ?_⟩
    rw [List.countP_cons]
    omega

/-- A rank that every step lowers bounds the length of the run. -/
theorem run_length_le {S : System σ α} {P : σ → Prop} {rank : σ → Nat}
    (hstep : ∀ s a s', P s → S.step s a = some s' → P s' ∧ rank s' < rank s)
    (as : List α) {s s' : σ} (hs : P s) (h : S.run s as = some s') :
    P s' ∧ as.length ≤ rank s := by
  obtain ⟨hPs', hrank⟩ := run_rank (fun _ => true) hstep as hs h
  rw [List.countP_true] at hrank
  exact ⟨hPs', by omega⟩

end System

/-- What a step of a restricted system is. -/
theorem System.restrict_step {S : System σ α} {ok : σ → α → Bool} {s s' : σ} {a : α} :
    (S.restrict ok).step s a = some s' ↔ ok s a = true ∧ S.step s a = some s' := by
  simp [System.restrict]

/-- **Simulation rule for the rest of a run**, also when its steps meet a test
that related states agree on. -/
theorem Bisimulation.run_restrict {C : System σ α} {A : System τ α} (R : Bisimulation C A)
    {okC : σ → α → Bool} {okA : τ → α → Bool} (hok : ∀ c a x, R.rel c a → okC c x = okA a x)
    (as : List α) {c c' : σ} {a : τ} (ha : A.Reachable a) (hrel : R.rel c a)
    (h : (C.restrict okC).run c as = some c') :
    ∃ a', (A.restrict okA).run a as = some a' ∧ A.Reachable a' ∧ R.rel c' a' := by
  induction as generalizing c a with
  | nil =>
    cases h
    exact ⟨a, rfl, ha, hrel⟩
  | cons x as ih =>
    obtain ⟨d, hd, hrun⟩ := Option.bind_eq_some_iff.mp h
    obtain ⟨hx, hstep⟩ := System.restrict_step.mp hd
    obtain ⟨b, hb, hrel'⟩ := R.step_some ha hrel hstep
    obtain ⟨a', hrun', ha', hrel''⟩ := ih (.step ha trivial hb) hrel' hrun
    have hfirst := System.restrict_step.mpr ⟨(hok c a x hrel).symm.trans hx, hb⟩
    exact ⟨a', (System.run_cons hfirst as).trans hrun', ha', hrel''⟩

end Lib.Transition
