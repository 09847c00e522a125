import Mathlib.Algebra.Order.Group.Multiset
import Mathlib.Algebra.Order.BigOperators.Group.Finset

/-!
# Accounts

Goods that are in a common store or with one of finitely many parties. A move
between the store and one party changes the total of neither: `total_of_local`.
-/

namespace Lib.Accounts

variable {τ α : Type} [Fintype τ]

/-- All goods, wherever they are. -/
def total (store : Multiset α) (own : τ → Multiset α) : Multiset α := store + ∑ t, own t

/-- **A move of one party keeps the total.** -/
theorem total_of_local [DecidableEq τ] {store store' : Multiset α} {own own' : τ → Multiset α}
    (t : τ) (hother : ∀ t', t' ≠ t → own' t' = own t') (ht : store' + own' t = store + own t) :
    total store' own' = total store own := by
  have hrest : ∑ t' ∈ Finset.univ.erase t, own' t' = ∑ t' ∈ Finset.univ.erase t, own t' := by
    apply Finset.sum_congr rfl
    intro t' ht'
    exact hother t' (Finset.ne_of_mem_erase ht')
  unfold total
  rw [← Finset.add_sum_erase _ own' (Finset.mem_univ t),
    ← Finset.add_sum_erase _ own (Finset.mem_univ t), hrest, ← add_assoc, ht, add_assoc]

theorem own_le_total (store : Multiset α) (own : τ → Multiset α) (t : τ) :
    store + own t ≤ total store own :=
  Multiset.add_le_add_left (Finset.single_le_sum (fun _ _ => Multiset.zero_le _) (Finset.mem_univ t))

/-- What two parties own is part of the total, each counted for itself. -/
theorem own_add_own_le_total [DecidableEq τ] (store : Multiset α) (own : τ → Multiset α)
    {t t' : τ} (hne : t ≠ t') : own t + own t' ≤ total store own := by
  calc
    own t + own t' = ∑ u ∈ {t, t'}, own u := (Finset.sum_pair hne).symm
    _ ≤ ∑ u, own u :=
      Finset.sum_le_sum_of_subset_of_nonneg (Finset.subset_univ _) fun _ _ _ => Multiset.zero_le _
    _ ≤ total store own := Multiset.le_add_left _ _

end Lib.Accounts
