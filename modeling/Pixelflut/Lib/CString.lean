import Mathlib.Algebra.Notation.Defs
import Mathlib.Data.List.Basic

/-!
# Strings that end with a zero

A pointer is an offset in a buffer. `text m p` is the string at `p`; it is `none`
when no zero follows. The functions are those of C, for a character other than
the terminator; they are refused where there is no string.

`cut` is what tokenisers do, a zero stored over a separator: it makes two strings
of one, and does not change the rest of the buffer.
-/

namespace Lib.CString

variable {α : Type} [Zero α] [DecidableEq α]

/-- The characters in front of the first zero. -/
def read : List α → Option (List α)
  | [] => none
  | c :: m => if c = 0 then some [] else (read m).map (c :: ·)

def text (m : List α) (p : Nat) : Option (List α) := read (m.drop p)

def strlen (m : List α) (p : Nat) : Option Nat := (text m p).map List.length

def strchr (m : List α) (p : Nat) (c : α) : Option (Option Nat) :=
  (text m p).map fun s => if c ∈ s then some (p + s.idxOf c) else none

def store (m : List α) (p : Nat) (c : α) : Option (List α) :=
  if p < m.length then some (m.set p c) else none

theorem read_append {s : List α} (hs : 0 ∉ s) (rest : List α) : read (s ++ 0 :: rest) = some s := by
  induction s with
  | nil => simp [read]
  | cons c s ih =>
    obtain ⟨hc, hs⟩ : 0 ≠ c ∧ 0 ∉ s := by simpa using hs
    simp [read, hc.symm, ih hs]

theorem read_eq_some {m s : List α} (h : read m = some s) : 0 ∉ s ∧ ∃ rest, m = s ++ 0 :: rest := by
  induction m generalizing s with
  | nil => cases h
  | cons c m ih =>
    by_cases hc : c = 0
    · subst hc
      simp only [read, ↓reduceIte, Option.some.injEq] at h
      subst h
      exact ⟨List.not_mem_nil, m, rfl⟩
    · simp only [read, hc, ↓reduceIte, Option.map_eq_some_iff] at h
      obtain ⟨s', hs', rfl⟩ := h
      obtain ⟨hzero, rest, rfl⟩ := ih hs'
      exact ⟨by simp [Ne.symm hc, hzero], rest, rfl⟩

variable {m : List α} {p : Nat} {s a b : List α} {c : α}

theorem strlen_eq (h : text m p = some s) : strlen m p = some s.length := by
  rw [strlen, h, Option.map_some]

theorem strchr_of_not_mem (h : text m p = some s) (hc : c ∉ s) : strchr m p c = some none := by
  rw [strchr, h, Option.map_some, if_neg hc]

theorem strchr_of_first (h : text m p = some (a ++ c :: b)) (hc : c ∉ a) :
    strchr m p c = some (some (p + a.length)) := by
  have hidx : (a ++ c :: b).idxOf c = a.length := by
    rw [List.idxOf_append_of_notMem hc, List.idxOf_cons_self, Nat.add_zero]
  rw [strchr, h, Option.map_some, if_pos (by simp), hidx]

/-- **A zero over a separator makes two strings of one.** -/
theorem cut (h : text m p = some (a ++ c :: b)) :
    ∃ m', store m (p + a.length) 0 = some m' ∧ text m' p = some a ∧
      text m' (p + a.length + 1) = some b ∧ ∀ q, p + a.length < q → m'.drop q = m.drop q := by
  obtain ⟨hzero, rest, hdrop⟩ := read_eq_some h
  simp only [List.mem_append, List.mem_cons, not_or] at hzero
  have hlt : p + a.length < m.length := by
    have hlen := congrArg List.length hdrop
    simp only [List.length_drop, List.length_append, List.length_cons] at hlen
    omega
  have hrest : ∀ q, p + a.length < q → (m.set (p + a.length) 0).drop q = m.drop q := fun q hq => by
    rw [List.drop_set, if_pos hq]
  refine ⟨m.set (p + a.length) 0, if_pos hlt, ?_, ?_, hrest⟩
  · have hset : (m.set (p + a.length) 0).drop p = a ++ 0 :: (b ++ 0 :: rest) := by
      rw [List.drop_set, if_neg (by omega), hdrop]
      simp
    rw [text, hset, read_append hzero.1]
  · have hafter : m.drop (p + a.length + 1) = b ++ 0 :: rest := by
      rw [Nat.add_assoc, ← List.drop_drop, hdrop]
      simp
    rw [text, hrest _ (Nat.lt_succ_self _), hafter, read_append hzero.2.2]

end Lib.CString
