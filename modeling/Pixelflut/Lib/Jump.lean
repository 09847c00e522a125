import Mathlib.Logic.Basic

/-!
# Programs that leave by a jump

A block is a computation in `Except ε`: it comes to its end with a value, or it
jumps away with what the target of the jump needs. `Ends x Q E` says that `Q`
holds in the first case and `E` in the second.

`Follows failed l x Q E` is the same for a block that makes the steps `l` one
after the other and jumps away at the first that has failed.
-/

namespace Lib.Jump

variable {ε α β : Type}

def Ends (x : Except ε α) (Q : α → Prop) (E : ε → Prop) : Prop :=
  match x with
  | .ok a => Q a
  | .error e => E e

theorem Ends.bind {x : Except ε α} {f : α → Except ε β} {P : α → Prop} {Q : β → Prop}
    {E : ε → Prop} (hx : Ends x P E) (hf : ∀ a, P a → Ends (f a) Q E) : Ends (x >>= f) Q E := by
  cases x with
  | ok a => exact hf a hx
  | error e => exact hx

theorem Ends.mono {x : Except ε α} {P Q : α → Prop} {D E : ε → Prop} (hx : Ends x P D)
    (hQ : ∀ a, P a → Q a) (hE : ∀ e, D e → E e) : Ends x Q E := by
  cases x with
  | ok a => exact hQ a hx
  | error e => exact hE e hx

section

variable {σ : Type} (failed : σ → Bool)

def Follows (l : List σ) (x : Except ε α) (Q : α → Prop) (E : σ → ε → Prop) : Prop :=
  Ends x (fun a => l.find? failed = none ∧ Q a) fun e =>
    ∃ step, l.find? failed = some step ∧ E step e

variable {failed} {l l' : List σ} {E : σ → ε → Prop}

theorem Follows.nil {x : Except ε α} {Q : α → Prop} (hx : Ends x Q fun _ => False) :
    Follows failed [] x Q E := by
  cases x with
  | ok a => exact ⟨rfl, hx⟩
  | error e => exact hx.elim

/-- Steps that have gone well come in front. -/
theorem Follows.skip {x : Except ε α} {Q : α → Prop} (hl : l.find? failed = none)
    (hx : Follows failed l' x Q E) : Follows failed (l ++ l') x Q E := by
  have hfind : (l ++ l').find? failed = l'.find? failed := by
    rw [List.find?_append, hl, Option.none_or]
  rw [Follows, hfind]
  exact hx

/-- A jump, whatever should have followed. -/
theorem Follows.jump {e : ε} {Q : α → Prop} {step : σ} (hl : l.find? failed = some step)
    (he : E step e) : Follows failed (l ++ l') (.error e) Q E :=
  ⟨step, by rw [List.find?_append, hl, Option.some_or], he⟩

/-- **Sequences.** The steps of the second block come behind those of the first. -/
theorem Follows.bind {x : Except ε α} {f : α → Except ε β} {P : α → Prop} {Q : β → Prop}
    (hx : Follows failed l x P E) (hf : ∀ a, P a → Follows failed l' (f a) Q E) :
    Follows failed (l ++ l') (x >>= f) Q E := by
  cases x with
  | error e =>
    obtain ⟨step, hfind, he⟩ := hx
    exact Follows.jump hfind he
  | ok a => exact Follows.skip hx.1 (hf a hx.2)

/-- What follows makes no step and cannot jump. -/
theorem Follows.bind_pure {x : Except ε α} {f : α → β} {Q : β → Prop}
    (hx : Follows failed l x (fun a => Q (f a)) E) :
    Follows failed l (x >>= fun a => pure (f a)) Q E := by
  cases x with
  | error e => exact hx
  | ok a => exact hx

theorem Follows.mono {x : Except ε α} {P Q : α → Prop} (hx : Follows failed l x P E)
    (hQ : ∀ a, P a → Q a) : Follows failed l x Q E :=
  Ends.mono hx (fun a ha => ⟨ha.1, hQ a ha.2⟩) fun _ => id

/-- A single step that has gone well, or jumps. -/
theorem Follows.single {x : Except ε α} {Q : α → Prop} {step : σ}
    (hx : Ends x (fun a => failed step = false ∧ Q a) fun e => failed step = true ∧ E step e) :
    Follows failed [step] x Q E := by
  refine hx.mono (fun a ha => ⟨?_, ha.2⟩) fun e he => ⟨step, ?_, he.2⟩
  · simp [ha.1]
  · simp [he.1]

end

end Lib.Jump
