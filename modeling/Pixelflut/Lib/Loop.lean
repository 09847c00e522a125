import Mathlib.Logic.Function.Iterate

/-!
# Loops

`loop cond next fuel s` is `while (cond(s)) s = next(s)`, for at most `fuel`
turns. `loop_eq_iterate` is the rule for a loop whose number of turns is known:
with that much fuel it ends by its condition, in the iterate of its body.
`iterate_collect` is the rule for a body that counts and appends to a list.
-/

namespace Lib.Loop

variable {σ : Type}

def loop (cond : σ → Bool) (next : σ → σ) : Nat → σ → σ
  | 0, s => s
  | fuel + 1, s => if cond s then loop cond next fuel (next s) else s

/-- **A loop of `turns` turns.** -/
theorem loop_eq_iterate {cond : σ → Bool} {next : σ → σ} {turns fuel : Nat} {s : σ}
    (hfuel : turns ≤ fuel) (hgo : ∀ j < turns, cond (next^[j] s) = true)
    (hstop : cond (next^[turns] s) = false) : loop cond next fuel s = next^[turns] s := by
  induction turns generalizing fuel s with
  | zero =>
    cases fuel with
    | zero => rfl
    | succ fuel => rw [loop, Function.iterate_zero_apply] at *; rw [hstop]; rfl
  | succ turns ih =>
    obtain ⟨fuel, rfl⟩ : ∃ f, fuel = f + 1 := ⟨fuel - 1, by omega⟩
    have hfirst : cond s = true := hgo 0 (by omega)
    rw [loop, if_pos hfirst, Function.iterate_succ_apply]
    apply ih
    · omega
    · intro j hj
      rw [← Function.iterate_succ_apply]
      exact hgo (j + 1) (by omega)
    · rw [← Function.iterate_succ_apply]
      exact hstop

/-- **What a loop collects**, when each turn counts on in `key` and appends to `out` the
items of the counter. -/
theorem iterate_collect {κ α : Type} {next : σ → σ} (key : σ → κ) (out : σ → List α)
    (items : κ → List α) (count : Nat → κ)
    (hkey : ∀ s k, key s = count k → key (next s) = count (k + 1))
    (hout : ∀ s, out (next s) = out s ++ items (key s)) (s : σ) (hs : key s = count 0) (k : Nat) :
    key (next^[k] s) = count k ∧
      out (next^[k] s) = out s ++ (List.range k).flatMap fun j => items (count j) := by
  induction k with
  | zero => exact ⟨hs, (List.append_nil _).symm⟩
  | succ k ih =>
    obtain ⟨hcount, hlist⟩ := ih
    rw [Function.iterate_succ_apply']
    constructor
    · exact hkey _ k hcount
    · rw [hout, hlist, hcount, List.range_succ, List.flatMap_append, List.append_assoc,
        List.flatMap_singleton]

end Lib.Loop
