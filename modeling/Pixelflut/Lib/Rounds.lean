import Mathlib.Algebra.Order.BigOperators.Group.Finset
import Mathlib.Algebra.GroupWithZero.Nat
import Pixelflut.Lib.Ranking

/-!
# Progress in rounds

Rules for systems in which a party may have to wait for another one, and go round a
loop meanwhile.

* `count_le`: steps that are paid for by a rank, to which other steps may add;
* `Rounds`: runs in rounds, in each of which everyone gets a turn;
* `Rounds.reaches`: if no step raises the rank and, short of the goal, somebody's next
  step lowers it, the rank bounds the number of rounds to the goal;
* `sum_rank_le`: a rank that is a sum over the parties.
-/

namespace Lib.Transition

variable {σ τ α : Type}

namespace System

variable {S : System σ α} {P Q : σ → Prop} {rank : σ → Nat}

/-- How many steps of a run pass the test. -/
def count (S : System σ α) (test : σ → α → Bool) (s : σ) : List α → Nat
  | [] => 0
  | a :: as => (test s a).toNat +
    match S.step s a with
    | some s' => S.count test s' as
    | none => 0

/-- **Potential rule.** -/
theorem count_le {test : σ → α → Bool} {pay : α → Nat}
    (hstep : ∀ s a s', P s → S.step s a = some s' →
      P s' ∧ rank s' + (test s a).toNat ≤ rank s + pay a)
    (as : List α) {s s' : σ} (hs : P s) (h : S.run s as = some s') :
    P s' ∧ rank s' + S.count test s as ≤ rank s + (as.map pay).sum := by
  induction as generalizing s with
  | nil =>
    cases h
    exact ⟨hs, by simp [count]⟩
  | cons a as ih =>
    obtain ⟨t, ht, hrun⟩ := Option.bind_eq_some_iff.mp h
    obtain ⟨hPt, hfirst⟩ := hstep s a t hs ht
    obtain ⟨hPs', hrest⟩ := ih hPt hrun
    refine ⟨hPs', ?_⟩
    simp only [count, ht, List.map_cons, List.sum_cons]
    omega

/-- Runs of so many rounds; `fair s as` says that `as` is a round from `s` on. -/
inductive Rounds (S : System σ α) (fair : σ → List α → Prop) : Nat → σ → σ → Prop where
  | none (s : σ) : S.Rounds fair 0 s s
  | more {k : Nat} {s s' s'' : σ} {as : List α} (hfair : fair s as) (hrun : S.run s as = some s')
      (hrest : S.Rounds fair k s' s'') : S.Rounds fair (k + 1) s s''

section
variable (hstep : ∀ s a s', P s → S.step s a = some s' → P s' ∧ rank s' ≤ rank s)
include hstep

theorem run_rank_le (as : List α) {s s' : σ} (hs : P s) (h : S.run s as = some s') :
    P s' ∧ rank s' ≤ rank s := by
  obtain ⟨hPs', hrank⟩ := run_rank (fun _ => false)
    (fun s a s' hs hs' => by simpa using hstep s a s' hs hs') as hs h
  exact ⟨hPs', by omega⟩

variable {helps : σ → α → Prop}
  (hhelp : ∀ s a b s', P s → helps s b → S.step s a = some s' →
    rank s' < rank s ∨ a ≠ b ∧ helps s' b)
include hhelp

/-- The rank is lower when the helping action has been taken. -/
theorem run_helped (as : List α) {s s' : σ} {b : α} (hs : P s) (hb : helps s b) (hmem : b ∈ as)
    (h : S.run s as = some s') : rank s' < rank s := by
  induction as generalizing s with
  | nil => cases hmem
  | cons a as ih =>
    obtain ⟨t, ht, hrun⟩ := Option.bind_eq_some_iff.mp h
    obtain ⟨hPt, hle⟩ := hstep s a t hs ht
    rcases hhelp s a b t hs hb ht with hlt | ⟨hne, hbt⟩
    · exact Nat.lt_of_le_of_lt (run_rank_le hstep as hPt hrun).2 hlt
    · have hmem' := (List.mem_cons.mp hmem).resolve_left (Ne.symm hne)
      exact Nat.lt_of_lt_of_le (ih hPt hbt hmem' hrun) hle

/-- **Rule of rounds.** -/
theorem Rounds.reaches {fair : σ → List α → Prop}
    (hgoal : ∀ s a s', P s → Q s → S.step s a = some s' → Q s')
    (hnext : ∀ s, P s → ¬Q s → 0 < rank s ∧ ∃ b, helps s b ∧ ∀ as, fair s as → b ∈ as)
    {k : Nat} {s s' : σ} (h : S.Rounds fair k s s') (hs : P s) (hk : Q s ∨ rank s ≤ k) :
    Q s' := by
  induction h with
  | none s =>
    rcases hk with hQ | hk
    · exact hQ
    · by_contra hQ
      have := (hnext s hs hQ).1
      omega
  | @more k s t s' as hfair hrun _ ih =>
    have hPt := (run_rank_le hstep as hs hrun).1
    by_cases hQ : Q s
    · have hboth : ∀ s a s', P s ∧ Q s → S.step s a = some s' → (P s' ∧ Q s') ∧ 0 ≤ 0 :=
        fun s a s' h hs' => ⟨⟨(hstep s a s' h.1 hs').1, hgoal s a s' h.1 h.2 hs'⟩, Nat.le_refl 0⟩
      exact ih hPt (Or.inl (run_rank_le hboth as ⟨hs, hQ⟩ hrun).1.2)
    · obtain ⟨-, b, hb, hmem⟩ := hnext s hs hQ
      have hlt := run_helped hstep hhelp as hs hb (hmem as hfair) hrun
      have hle := hk.resolve_left hQ
      exact ih hPt (Or.inr (by omega))

end

end System

/-- **A rank that is a sum.** The step of one party may give each of the others up to
`e` more, if its own part falls by so much for each party. -/
theorem sum_rank_le [Fintype τ] [DecidableEq τ] {w w' : τ → Nat} (t : τ) {d e g : Nat}
    (hother : ∀ t', t' ≠ t → w' t' ≤ w t' + e)
    (ht : w' t + e * Fintype.card τ + d ≤ w t + g) : ∑ t, w' t + d ≤ ∑ t, w t + g := by
  have hrest : ∑ t' ∈ Finset.univ.erase t, w' t' ≤
      ∑ t' ∈ Finset.univ.erase t, w t' + e * Fintype.card τ := by
    calc
      ∑ t' ∈ Finset.univ.erase t, w' t' ≤ ∑ t' ∈ Finset.univ.erase t, (w t' + e) :=
        Finset.sum_le_sum fun t' ht' => hother t' (Finset.ne_of_mem_erase ht')
      _ = ∑ t' ∈ Finset.univ.erase t, w t' + (Finset.univ.erase t).card * e := by
        rw [Finset.sum_add_distrib, Finset.sum_const_nat fun _ _ => rfl]
      _ ≤ ∑ t' ∈ Finset.univ.erase t, w t' + e * Fintype.card τ := by
        rw [Nat.mul_comm e]
        gcongr
        exact Finset.card_le_univ _
  rw [← Finset.add_sum_erase _ w' (Finset.mem_univ t),
    ← Finset.add_sum_erase _ w (Finset.mem_univ t)]
  omega

end Lib.Transition
