import Mathlib.Data.List.Basic

/-!
# Stores into an array

An array of any length, as a function of the index. `store` writes some values from
an index on and `read` reads some; `read_add` cuts what is read into pieces, and
`read_store` and `read_store_apart` say what each of them is.
-/

namespace Lib.Store

variable {β : Type}

/-- The array after `vs` has been written from index `off` on. -/
def store (b : Nat → β) (off : Nat) (vs : List β) : Nat → β := fun i =>
  if off ≤ i then vs.getD (i - off) (b i) else b i

/-- The `n` values from index `off` on. -/
def read (b : Nat → β) (off n : Nat) : List β := (List.range n).map fun i => b (off + i)

variable (b : Nat → β) (vs : List β) {off i n : Nat}

@[simp] theorem read_length (off n : Nat) : (read b off n).length = n := by
  simp [read]

theorem read_add (off n m : Nat) : read b off (n + m) = read b off n ++ read b (off + n) m := by
  simp [read, List.range_add, Function.comp_def, Nat.add_assoc]

theorem read_store (off : Nat) (hn : vs.length = n) : read (store b off vs) off n = vs := by
  subst hn
  apply List.ext_getElem
  · simp
  · intro i _ hi
    simp [read, store, hi]

theorem store_apart (h : i < off ∨ off + vs.length ≤ i) : store b off vs i = b i := by
  by_cases hi : off ≤ i
  · have hlen : ¬i - off < vs.length := by omega
    simp [store, hi, List.getD_eq_getElem?_getD, hlen]
  · simp [store, hi]

/-- What is written apart from a piece does not change it. -/
theorem read_store_apart {off' : Nat} (h : off' + n ≤ off ∨ off + vs.length ≤ off') :
    read (store b off vs) off' n = read b off' n := by
  apply List.map_congr_left
  intro i hi
  rw [List.mem_range] at hi
  exact store_apart b vs (by omega)

end Lib.Store
