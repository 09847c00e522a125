import Mathlib.Logic.Function.Basic
import Mathlib.Data.List.Basic

/-!
# The intrusive list of `llist.c`

`ε` is the type of pointers to `struct llist_entry`, `ℓ` that of pointers to
`struct llist`; a nullable pointer is an `Option`. The memory keeps one map for
each field of the two structures. The mutex of a list does not appear: the
functions here are the sections that run under it.

A function returns `none` where the program would stop: a failed `assert`, or
an access through a null pointer.
-/

namespace Pixelflut.LList

open Function (update)

variable {ε ℓ : Type} [DecidableEq ε] [DecidableEq ℓ]

/-- The fields of all `struct llist` and `struct llist_entry`. -/
structure Mem (ε ℓ : Type) where
  head : ℓ → Option ε
  tail : ℓ → Option ε
  next : ε → Option ε
  prev : ε → Option ε
  list : ε → Option ℓ

/-- `llist_init`, and `llist_alloc` after its `malloc`. -/
def llistInit (m : Mem ε ℓ) (llist : ℓ) : Mem ε ℓ :=
  { m with head := update m.head llist none, tail := update m.tail llist none }

/-- `llist_entry_init`, also the value `LLIST_ENTRY_INIT`. -/
def llistEntryInit (m : Mem ε ℓ) (entry : ε) : Mem ε ℓ :=
  { m with
    next := update m.next entry none
    prev := update m.prev entry none
    list := update m.list entry none }

/-- `llist_is_empty`. -/
def llistIsEmpty (m : Mem ε ℓ) (llist : ℓ) : Bool := (m.head llist).isNone

def llistAppend (m : Mem ε ℓ) (llist : ℓ) (entry : ε) : Option (Mem ε ℓ) :=
  let m := { m with list := update m.list entry (some llist) }
  if (m.head llist).isNone || (m.tail llist).isNone then
    if (m.tail llist).isSome then none
    else some
      { m with
        next := update m.next entry none
        prev := update m.prev entry none
        head := update m.head llist (some entry)
        tail := update m.tail llist (some entry) }
  else (m.tail llist).map fun tail =>
    { m with
      next := update (update m.next entry none) tail (some entry)
      prev := update m.prev entry (some tail)
      tail := update m.tail llist (some entry) }

/-- `if(p) p->field = v`. -/
def assignAt (field : ε → Option ε) (p v : Option ε) : ε → Option ε :=
  match p with
  | some a => update field a v
  | none => field

theorem assignAt_apply (field : ε → Option ε) (p v : Option ε) (a : ε) :
    assignAt field p v a = if p = some a then v else field a := by
  cases p with
  | none => simp [assignAt]
  | some b => simp [assignAt, Function.update_apply, eq_comm]

/-- The four conditional statements of `llist_remove`, then the clearing of the
entry. Each statement reads the fields that the ones before it have written. -/
def llistRemove (m : Mem ε ℓ) (entry : ε) : Option (Mem ε ℓ) :=
  (m.list entry).map fun llist =>
    let m := { m with
      head := if some entry = m.head llist then update m.head llist (m.next entry) else m.head }
    let m := { m with
      tail := if some entry = m.tail llist then update m.tail llist (m.prev entry) else m.tail }
    let m := { m with prev := assignAt m.prev (m.next entry) (m.prev entry) }
    let m := { m with next := assignAt m.next (m.prev entry) (m.next entry) }
    llistEntryInit m entry

/-- `llist_for_each` from `cursor` on, with a body that may leave the loop with
a result. The outer `none` means that the fuel ran out. -/
def llistForEach {σ ρ : Type} (m : Mem ε ℓ) (body : ε → σ → Except ρ σ) :
    Nat → Option ε → σ → Option (Except ρ σ)
  | _, none, s => some (.ok s)
  | 0, some _, _ => none
  | fuel + 1, some cursor, s =>
      match body cursor s with
      | .error r => some (.error r)
      | .ok s' => llistForEach m body fuel (m.next cursor) s'

/-- The counter is a natural number: no list in memory has `2 ^ 64` entries. -/
def llistLength (m : Mem ε ℓ) (fuel : Nat) (list : ℓ) : Option Nat :=
  (llistForEach (ρ := Empty) m (fun _ len => .ok (len + 1)) fuel (m.head list) 0).map fun
    | .ok len => len
    | .error never => never.elim

/-- The result with which the body left the loop, if it did. -/
def leftWith {σ ρ : Type} : Except ρ σ → Option ρ
  | .ok _ => none
  | .error r => some r

/-- `if(!index--) return cursor;`. -/
def countdown (cursor : ε) (index : UInt32) : Except ε UInt32 :=
  if index = 0 then .error cursor else .ok (index - 1)

def llistGetEntry (m : Mem ε ℓ) (fuel : Nat) (list : ℓ) (index : UInt32) : Option (Option ε) :=
  (llistForEach m countdown fuel (m.head list) index).map leftWith

/-! ## What the operations store -/

/-- All that `llist_append` does when `head` and `tail` are null together and
the entry is not the tail. -/
theorem llistAppend_spec {m : Mem ε ℓ} {L : ℓ} {e : ε}
    (hnull : m.head L = none ↔ m.tail L = none) (hne : m.tail L ≠ some e) :
    ∃ m', llistAppend m L e = some m' ∧
      m'.head = update m.head L ((m.head L).or (some e)) ∧
      m'.tail = update m.tail L (some e) ∧
      m'.list = update m.list e (some L) ∧
      m'.prev = update m.prev e (m.tail L) ∧
      m'.next e = none ∧
      (∀ t, m.tail L = some t → m'.next t = some e) ∧
      (∀ a, a ≠ e → m.tail L ≠ some a → m'.next a = m.next a) := by
  cases ht : m.tail L with
  | none =>
    have hh := hnull.mpr ht
    refine ⟨_, by simp [llistAppend, hh, ht]; rfl, ?_⟩
    refine ⟨by simp [hh], rfl, rfl, rfl, by simp, by simp, fun a ha _ => by simp [ha]⟩
  | some t =>
    obtain ⟨b, hh⟩ : ∃ b, m.head L = some b := by
      cases h : m.head L with
      | none => rw [hnull.mp h] at ht; cases ht
      | some b => exact ⟨b, rfl⟩
    have hte : e ≠ t := by rintro rfl; exact hne ht
    refine ⟨_, by simp [llistAppend, hh, ht]; rfl, ?_⟩
    refine ⟨by simp [hh], rfl, rfl, rfl, by simp [hte], ?_, ?_⟩
    · intro t' h'
      cases h'
      simp
    · intro a ha hta
      have : a ≠ t := by rintro rfl; exact hta rfl
      simp [ha, this]

/-- All that `llist_remove` does to an entry that is not its own successor. -/
theorem llistRemove_spec {m : Mem ε ℓ} {L : ℓ} {e : ε} (hl : m.list e = some L)
    (hn : m.next e ≠ some e) :
    ∃ m', llistRemove m e = some m' ∧
      m'.head = update m.head L (if some e = m.head L then m.next e else m.head L) ∧
      m'.tail = update m.tail L (if some e = m.tail L then m.prev e else m.tail L) ∧
      m'.list = update m.list e none ∧
      (m'.next e = none ∧ m'.prev e = none) ∧
      (∀ a, a ≠ e → m'.next a = if m.prev e = some a then m.next e else m.next a) ∧
      (∀ a, a ≠ e → m'.prev a = if m.next e = some a then m.prev e else m.prev a) := by
  -- the third statement leaves `e->prev` alone, so the fourth reads the old value
  have hprev : assignAt m.prev (m.next e) (m.prev e) e = m.prev e := by
    rw [assignAt_apply, if_neg hn]
  refine ⟨_, by rw [llistRemove, hl]; rfl, ?_, ?_, rfl, ⟨?_, ?_⟩, ?_, ?_⟩
  · simp only [llistEntryInit]
    split <;> simp
  · simp only [llistEntryInit]
    split <;> simp
  · simp [llistEntryInit]
  · simp [llistEntryInit]
  · intro a ha
    simp [llistEntryInit, hprev, assignAt_apply, ha]
  · intro a ha
    simp [llistEntryInit, assignAt_apply, ha]

end Pixelflut.LList
