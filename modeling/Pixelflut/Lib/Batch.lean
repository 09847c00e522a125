import Mathlib.Data.List.Basic
import Mathlib.Logic.Function.Basic

/-!
# A batch over entries

A loop over a list of different entries of a store, which changes each of them by
what it holds and by a counter that goes on from entry to entry. `batch_spec`: every
entry is changed once, by the counter of its turn, and nothing else is changed;
`each_spec` is the same without a counter, and `foldlM_entries` for a loop that goes by
the index.
-/

namespace Lib.Batch

open Function (update)

variable {α β σ ρ : Type}

/-- A loop by an index that does not wrap. -/
theorem foldlM_entries {γ : Type} (f : γ → α → Option γ) (l : List α) (s : γ) {idx : Nat → Nat}
    (hidx : ∀ j < l.length, idx j = j) :
    (List.range l.length).foldlM (fun s j => (l[idx j]?).bind (f s)) s = l.foldlM f s := by
  have htake : ∀ k ≤ l.length, (List.range k).foldlM (fun s j => (l[idx j]?).bind (f s)) s =
      (l.take k).foldlM f s := by
    intro k hk
    induction k with
    | zero => rfl
    | succ k ih =>
      rw [List.range_succ, List.foldlM_append, ih (by omega),
        List.take_succ_eq_append_getElem (by omega), List.foldlM_append]
      simp [hidx k (by omega), List.getElem?_eq_getElem (show k < l.length by omega)]
  rw [htake l.length (Nat.le_refl _), List.take_length]

variable [DecidableEq α]

/-- One turn: the entry `x.1`, while the counter reads `x.2`. -/
def turn (f : σ → β → Option β) (next : σ → ρ → σ) (s : (α → β) × σ) (x : α × ρ) :
    Option ((α → β) × σ) :=
  (f s.2 (s.1 x.1)).map fun b => (update s.1 x.1 b, next s.2 x.2)

def batch (f : σ → β → Option β) (next : σ → ρ → σ) (l : List (α × ρ)) (s : (α → β) × σ) :
    Option ((α → β) × σ) :=
  l.foldlM (turn f next) s

/-- The counter after some turns. -/
def after (next : σ → ρ → σ) (l : List (α × ρ)) (v : σ) : σ := (l.map Prod.snd).foldl next v

/-- What a batch leaves behind. -/
structure Done (f : σ → β → Option β) (next : σ → ρ → σ) (l : List (α × ρ)) (v : σ)
    (s s' : α → β) : Prop where
  changed : ∀ k x, l[k]? = some x → f (after next (l.take k) v) (s x.1) = some (s' x.1)
  same : ∀ a, a ∉ l.map Prod.fst → s' a = s a

/-- **Each entry once.** -/
theorem batch_spec {f : σ → β → Option β} {next : σ → ρ → σ} {l : List (α × ρ)} {v : σ}
    {s : α → β} (hnodup : (l.map Prod.fst).Nodup)
    (hf : ∀ k x, l[k]? = some x → (f (after next (l.take k) v) (s x.1)).isSome) :
    ∃ s', batch f next l (s, v) = some (s', after next l v) ∧
      Done f next l v s s' := by
  induction l generalizing s v with
  | nil => exact ⟨s, rfl, fun k x hx => by simp at hx, fun _ _ => rfl⟩
  | cons y l ih =>
    rw [List.map_cons, List.nodup_cons] at hnodup
    obtain ⟨hy, hnodup⟩ := hnodup
    obtain ⟨b, hb⟩ := Option.isSome_iff_exists.mp (hf 0 y rfl)
    have hother : ∀ x ∈ l, update s y.1 b x.1 = s x.1 := by
      intro x hx
      apply Function.update_of_ne
      rintro he
      exact hy (he ▸ List.mem_map_of_mem hx)
    obtain ⟨s', hbatch, hdone⟩ := ih (v := next v y.2) (s := update s y.1 b) hnodup (by
      intro k x hx
      rw [hother x (List.mem_of_getElem? hx)]
      exact hf (k + 1) x hx)
    refine ⟨s', ?_, ?_, ?_⟩
    · rw [batch, List.foldlM_cons, turn, show f v (s y.1) = some b from hb]
      exact hbatch
    · intro k x hx
      cases k with
      | zero =>
        obtain rfl : y = x := Option.some.inj hx
        rw [hdone.same _ hy, Function.update_self]
        exact hb
      | succ k =>
        have hx' : l[k]? = some x := hx
        have := hdone.changed k x hx'
        rwa [hother x (List.mem_of_getElem? hx')] at this
    · intro a ha
      rw [List.map_cons, List.mem_cons, not_or] at ha
      rw [hdone.same a ha.2, Function.update_of_ne ha.1]

theorem batch_unit (f : β → Option β) (l : List α) (s : α → β) :
    batch (fun _ : Unit => f) (fun _ (_ : Unit) => ()) (l.map (·, ())) (s, ()) =
      (l.foldlM (fun s a => (f (s a)).map (update s a)) s).map (·, ()) := by
  induction l generalizing s with
  | nil => rfl
  | cons a l ih =>
    rw [List.map_cons, batch, List.foldlM_cons, List.foldlM_cons, turn]
    dsimp only
    cases f (s a) with
    | none => rfl
    | some b => exact ih (update s a b)

theorem each_spec {f : β → Option β} {l : List α} {s : α → β} (hnodup : l.Nodup)
    (hf : ∀ a ∈ l, (f (s a)).isSome) :
    ∃ s', l.foldlM (fun s a => (f (s a)).map (update s a)) s = some s' ∧
      (∀ a ∈ l, f (s a) = some (s' a)) ∧ ∀ a ∉ l, s' a = s a := by
  have hfst : (l.map (·, ())).map Prod.fst = l := by simp [Function.comp_def]
  obtain ⟨s', hbatch, hdone⟩ := @batch_spec α β Unit Unit _ (fun _ => f) (fun _ _ => ())
    (l.map (·, ())) () s (by rwa [hfst]) (by
      intro k x hx
      obtain ⟨a, ha, rfl⟩ := List.mem_map.mp (List.mem_of_getElem? hx)
      exact hf a ha)
  rw [batch_unit] at hbatch
  obtain ⟨s₁, hs₁, he⟩ := Option.map_eq_some_iff.mp hbatch
  obtain rfl : s₁ = s' := congrArg Prod.fst he
  refine ⟨s₁, hs₁, ?_, ?_⟩
  · intro a ha
    obtain ⟨k, hk⟩ := List.mem_iff_getElem?.mp ha
    exact hdone.changed k (a, ()) (by simp [hk])
  · intro a ha
    exact hdone.same a (by rwa [hfst])

end Lib.Batch
