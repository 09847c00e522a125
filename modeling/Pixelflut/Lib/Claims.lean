import Mathlib.Algebra.BigOperators.Group.Finset.Basic
import Mathlib.Order.Interval.Finset.Nat

/-!
# Windows of claims

Parties claim consecutive numbers `start, ..., start + n - 1` from the upper end
of a window, and give them back at its lower end, in the order in which they have
claimed them. `Window lo hi claim` says that the claims are the numbers from `lo`
up to `hi`, each claimed once.

`Window.reserve` and `Window.release` are the two moves. `Window.first` finds the
party that may give back next, and `Window.eq_lo_of_alone` says that a party alone
is that party. `Window.sum_le` bounds what all parties have claimed.
-/

namespace Lib.Claims

open Function (update)

variable {τ : Type}

structure Window (lo hi : Nat) (claim : τ → Option (Nat × Nat)) : Prop where
  inside : ∀ t start n, claim t = some (start, n) → lo ≤ start ∧ start + n ≤ hi ∧ 0 < n
  apart : ∀ t t' start n start' n', claim t = some (start, n) → claim t' = some (start', n') →
    t ≠ t' → start + n ≤ start' ∨ start' + n' ≤ start
  cover : ∀ k, lo ≤ k → k < hi → ∃ t start n, claim t = some (start, n) ∧ start ≤ k ∧ k < start + n

variable {lo hi start n : Nat} {claim : τ → Option (Nat × Nat)} {t : τ}

theorem Window.empty (k : Nat) : Window k k fun _ : τ => none where
  inside := by simp
  apart := by simp
  cover := by omega

/-- The party that may give back next. -/
theorem Window.first (h : Window lo hi claim) (hlt : lo < hi) : ∃ t n, claim t = some (lo, n) := by
  obtain ⟨t, start, n, ht, hle, -⟩ := h.cover lo (Nat.le_refl lo) hlt
  obtain rfl : start = lo := Nat.le_antisymm hle (h.inside t start n ht).1
  exact ⟨t, n, ht⟩

theorem Window.eq_lo_of_alone (h : Window lo hi claim) (ht : claim t = some (start, n))
    (halone : ∀ t' c, claim t' = some c → t' = t) : start = lo := by
  obtain ⟨hle, hhi, hn⟩ := h.inside t start n ht
  obtain ⟨t', m, ht'⟩ := h.first (by omega)
  obtain rfl := halone t' (lo, m) ht'
  rw [ht] at ht'
  cases ht'
  rfl

/-- The numbers of a claim. -/
def numbers (c : Option (Nat × Nat)) : Finset Nat := c.elim ∅ fun c => Finset.Ico c.1 (c.1 + c.2)

theorem card_numbers (c : Option (Nat × Nat)) : (numbers c).card = c.elim 0 Prod.snd := by
  cases c with
  | none => rfl
  | some c => simp [numbers]

theorem mem_numbers {c : Option (Nat × Nat)} {k : Nat} :
    k ∈ numbers c ↔ ∃ start n, c = some (start, n) ∧ start ≤ k ∧ k < start + n := by
  cases c with
  | none => simp [numbers]
  | some c => simp [numbers, Prod.ext_iff, and_assoc]

/-- The claims together are no longer than the window. -/
theorem Window.sum_le [Fintype τ] (h : Window lo hi claim) :
    ∑ t, (claim t).elim 0 Prod.snd ≤ hi - lo := by
  calc
    ∑ t, (claim t).elim 0 Prod.snd = ∑ t, (numbers (claim t)).card :=
      Finset.sum_congr rfl fun t _ => (card_numbers _).symm
    _ = (Finset.univ.biUnion fun t => numbers (claim t)).card := by
      refine (Finset.card_biUnion fun t _ t' _ hne => ?_).symm
      apply Finset.disjoint_left.mpr
      intro k hk hk'
      obtain ⟨start, n, hc, hle, hlt⟩ := mem_numbers.mp hk
      obtain ⟨start', n', hc', hle', hlt'⟩ := mem_numbers.mp hk'
      have := h.apart t t' start n start' n' hc hc' hne
      omega
    _ ≤ (Finset.Ico lo hi).card := by
      apply Finset.card_le_card
      intro k hk
      obtain ⟨t, -, hk⟩ := Finset.mem_biUnion.mp hk
      obtain ⟨start, n, hc, hle, hlt⟩ := mem_numbers.mp hk
      have := h.inside t start n hc
      rw [Finset.mem_Ico]
      omega
    _ = hi - lo := Nat.card_Ico lo hi

variable [DecidableEq τ]

theorem Window.reserve (h : Window lo hi claim) (ht : claim t = none) (hle : lo ≤ hi)
    (hn : 0 < n) : Window lo (hi + n) (update claim t (some (hi, n))) where
  inside := by
    intro u start m hu
    by_cases hut : u = t
    · subst hut
      rw [Function.update_self] at hu
      cases hu
      omega
    · rw [Function.update_of_ne hut] at hu
      have := h.inside u start m hu
      omega
  apart := by
    intro u u' start m start' m' hu hu' hne
    by_cases hut : u = t
    · subst hut
      rw [Function.update_self] at hu
      rw [Function.update_of_ne (Ne.symm hne)] at hu'
      cases hu
      have := h.inside u' start' m' hu'
      omega
    · rw [Function.update_of_ne hut] at hu
      by_cases hut' : u' = t
      · subst hut'
        rw [Function.update_self] at hu'
        cases hu'
        have := h.inside u start m hu
        omega
      · rw [Function.update_of_ne hut'] at hu'
        exact h.apart u u' start m start' m' hu hu' hne
  cover := by
    intro k hlo hhi
    by_cases hk : k < hi
    · obtain ⟨u, start, m, hu, hin⟩ := h.cover k hlo hk
      have hut : u ≠ t := by
        rintro rfl
        rw [ht] at hu
        cases hu
      exact ⟨u, start, m, by rw [Function.update_of_ne hut, hu], hin⟩
    · exact ⟨t, hi, n, by rw [Function.update_self], by omega, hhi⟩

theorem Window.release (h : Window lo hi claim) (ht : claim t = some (lo, n)) :
    Window (lo + n) hi (update claim t none) where
  inside := by
    intro u start m hu
    by_cases hut : u = t
    · subst hut
      rw [Function.update_self] at hu
      cases hu
    · rw [Function.update_of_ne hut] at hu
      have hin := h.inside u start m hu
      have := h.apart u t start m lo n hu ht hut
      omega
  apart := by
    intro u u' start m start' m' hu hu' hne
    by_cases hut : u = t
    · subst hut
      rw [Function.update_self] at hu
      cases hu
    · by_cases hut' : u' = t
      · subst hut'
        rw [Function.update_self] at hu'
        cases hu'
      · rw [Function.update_of_ne hut] at hu
        rw [Function.update_of_ne hut'] at hu'
        exact h.apart u u' start m start' m' hu hu' hne
  cover := by
    intro k hlo hhi
    obtain ⟨u, start, m, hu, hin⟩ := h.cover k (by omega) hhi
    have hut : u ≠ t := by
      rintro rfl
      rw [ht] at hu
      cases hu
      omega
    exact ⟨u, start, m, by rw [Function.update_of_ne hut, hu], hin⟩

end Lib.Claims
