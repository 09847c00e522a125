import Mathlib.Data.List.Basic
import Mathlib.Data.List.Nodup

/-!
# Lifetimes

A trace tells which objects were allocated, used and freed, in this order.
`Released t` is the verdict on a finished trace. `Lives t l` keeps the books of an
unfinished one: all was right so far, and `l` are the objects still to be freed.

`Lives.alloc`, `Lives.uses` and `Lives.free` are the rules for the next event;
`Lives.released_iff` closes the books.
-/

namespace Lib.Lifetime

variable {α : Type}

inductive Event (α : Type) where
  | alloc (a : α)
  | use (a : α)
  | free (a : α)
  deriving DecidableEq

/-- No object is used behind its free. -/
def NoUseAfterFree (t : List (Event α)) : Prop :=
  t.Pairwise fun e e' => ∀ a, e = .free a → e' ≠ .use a

/-- Each object is freed exactly once, and not before its last use. -/
structure Released [DecidableEq α] (t : List (Event α)) : Prop where
  once : ∀ a, .alloc a ∈ t → t.count (.free a) = 1
  allocated : ∀ a, .free a ∈ t → .alloc a ∈ t
  last : NoUseAfterFree t

/-- All was right so far, and the objects of `l` are not freed. -/
structure Lives [DecidableEq α] (t : List (Event α)) (l : List α) : Prop where
  nodup : l.Nodup
  mem_iff : ∀ a, a ∈ l ↔ .alloc a ∈ t ∧ .free a ∉ t
  once : ∀ a, t.count (.free a) ≤ 1
  allocated : ∀ a, .free a ∈ t → .alloc a ∈ t
  last : NoUseAfterFree t

theorem noUseAfterFree_snoc {t : List (Event α)} {e : Event α} (h : NoUseAfterFree t)
    (he : ∀ a, .free a ∈ t → e ≠ .use a) : NoUseAfterFree (t ++ [e]) := by
  refine List.pairwise_append.mpr ⟨h, List.pairwise_singleton _ _, fun e' he' e'' he'' a ha => ?_⟩
  rw [List.mem_singleton.mp he'']
  exact he a (ha ▸ he')

variable [DecidableEq α] {t : List (Event α)} {as bs l : List α} {a : α}

theorem Lives.nil : Lives ([] : List (Event α)) [] where
  nodup := List.nodup_nil
  mem_iff a := by simp
  once a := by simp
  allocated a := by simp
  last := List.Pairwise.nil

theorem Lives.alloc (h : Lives t (as ++ bs)) (hnew : .alloc a ∉ t) :
    Lives (t ++ [.alloc a]) (as ++ a :: bs) where
  nodup := by
    refine List.nodup_middle.mpr (List.nodup_cons.mpr ⟨fun ha => ?_, h.nodup⟩)
    exact hnew ((h.mem_iff a).mp ha).1
  mem_iff b := by
    have hb : b ∈ as ++ a :: bs ↔ b = a ∨ b ∈ as ++ bs := by simp [or_left_comm]
    have hfree : .free a ∉ t := fun ha => hnew (h.allocated a ha)
    rw [hb, h.mem_iff]
    by_cases hba : b = a
    · subst hba
      simp [hfree]
    · simp [hba]
  once b := by simpa using h.once b
  allocated b hb := by
    have hb' : .free b ∈ t := by simpa using hb
    exact List.mem_append_left _ (h.allocated b hb')
  last := noUseAfterFree_snoc h.last fun _ _ => nofun

theorem Lives.use (h : Lives t l) (ha : a ∈ l) : Lives (t ++ [.use a]) l where
  nodup := h.nodup
  mem_iff b := by simp [h.mem_iff b]
  once b := by simpa using h.once b
  allocated b hb := by
    have hb' : .free b ∈ t := by simpa using hb
    exact List.mem_append_left _ (h.allocated b hb')
  last := by
    refine noUseAfterFree_snoc h.last fun b hb heq => ?_
    cases heq
    exact ((h.mem_iff a).mp ha).2 hb

theorem Lives.uses (h : Lives t l) (has : ∀ a ∈ as, a ∈ l) : Lives (t ++ as.map .use) l := by
  induction as generalizing t with
  | nil => simpa using h
  | cons a as ih =>
    have hnext := ih (h.use (has a (.head _))) fun b hb => has b (.tail _ hb)
    simpa using hnext

theorem Lives.free (h : Lives t (as ++ a :: bs)) : Lives (t ++ [.free a]) (as ++ bs) where
  nodup := (List.nodup_cons.mp (List.nodup_middle.mp h.nodup)).2
  mem_iff b := by
    have hnot := (List.nodup_cons.mp (List.nodup_middle.mp h.nodup)).1
    have hb : b ∈ as ++ a :: bs ↔ b = a ∨ b ∈ as ++ bs := by simp [or_left_comm]
    have hmem := h.mem_iff b
    rw [hb] at hmem
    by_cases hba : b = a
    · subst hba
      simpa using hnot
    · simpa [hba] using hmem
  once b := by
    have hfree := ((h.mem_iff a).mp (by simp)).2
    by_cases hba : b = a
    · subst hba
      simp [List.count_eq_zero_of_not_mem hfree]
    · simpa [Ne.symm hba] using h.once b
  allocated b hb := by
    have hb' : .free b ∈ t ∨ b = a := by simpa using hb
    have halloc : .alloc b ∈ t := by
      rcases hb' with hold | rfl
      · exact h.allocated b hold
      · exact ((h.mem_iff b).mp (by simp)).1
    exact List.mem_append_left _ halloc
  last := noUseAfterFree_snoc h.last fun _ _ => nofun

/-- **The books are closed** when nothing is left. -/
theorem Lives.released_iff (h : Lives t l) : Released t ↔ l = [] := by
  constructor
  · intro hreleased
    refine List.eq_nil_iff_forall_not_mem.mpr fun a ha => ?_
    obtain ⟨halloc, hfree⟩ := (h.mem_iff a).mp ha
    have hone := hreleased.once a halloc
    rw [List.count_eq_zero_of_not_mem hfree] at hone
    cases hone
  · rintro rfl
    refine ⟨fun a ha => ?_, h.allocated, h.last⟩
    have hfree : .free a ∈ t := by
      by_contra hnot
      exact absurd ((h.mem_iff a).mpr ⟨ha, hnot⟩) List.not_mem_nil
    exact Nat.le_antisymm (h.once a) (List.count_pos_iff.mpr hfree)

end Lib.Lifetime
