import Mathlib.Data.List.Basic

/-!
# Owners

Every object has at most one owner. `give` hands a list of objects over, no
matter who has them; `Holds own o as` says that `o` owns the objects of `as`,
each listed once, and no others. `Holds.acquire`, `Holds.release` and
`Holds.others` say what becomes of a holder when objects are handed to it, by it,
and among the others.
-/

namespace Lib.Ownership

variable {α ω : Type}

abbrev Owners (α ω : Type) := α → Option ω

def give [DecidableEq α] (own : Owners α ω) (as : List α) (o : ω) : Owners α ω :=
  fun a => if a ∈ as then some o else own a

structure Holds (own : Owners α ω) (o : ω) (as : List α) : Prop where
  nodup : as.Nodup
  mem_iff : ∀ a, own a = some o ↔ a ∈ as

variable [DecidableEq α] {own : Owners α ω} {o o' : ω} {as bs : List α}

theorem give_of_mem {a : α} (ha : a ∈ as) : give own as o a = some o := if_pos ha

theorem give_of_not_mem {a : α} (ha : a ∉ as) : give own as o a = own a := if_neg ha

theorem Holds.acquire (h : Holds own o []) (hbs : bs.Nodup) : Holds (give own bs o) o bs where
  nodup := hbs
  mem_iff a := by
    by_cases ha : a ∈ bs
    · simp [give_of_mem ha, ha]
    · rw [give_of_not_mem ha, h.mem_iff]
      simp [ha]

theorem Holds.release (h : Holds own o (bs ++ as)) (hne : o' ≠ o) :
    Holds (give own bs o') o as where
  nodup := (List.nodup_append.mp h.nodup).2.1
  mem_iff a := by
    by_cases ha : a ∈ bs
    · have hnot : a ∉ as := fun has => (List.nodup_append.mp h.nodup).2.2 a ha a has rfl
      simp [give_of_mem ha, hne, hnot]
    · rw [give_of_not_mem ha, h.mem_iff]
      simp [ha]

theorem Holds.others (h : Holds own o as) (hne : o' ≠ o) (hbs : ∀ a ∈ bs, a ∉ as) :
    Holds (give own bs o') o as where
  nodup := h.nodup
  mem_iff a := by
    by_cases ha : a ∈ bs
    · simp [give_of_mem ha, hne, hbs a ha]
    · rw [give_of_not_mem ha, h.mem_iff]

end Lib.Ownership
