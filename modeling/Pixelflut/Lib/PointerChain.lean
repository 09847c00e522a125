import Mathlib.Data.List.Basic
import Mathlib.Data.List.Nodup

/-!
# Chains of pointers

A link field is a function `next : P → Option P`, where `none` is the null
pointer. `Seg next p l q` says that following `next` from `p` visits exactly
the cells `l` and stops at `q`; a `Chain` stops at null.

* `seg_append`, `seg_congr`: cutting a walk, and the frame rule;
* `chain_head`: the start pointer is the first cell of the walk;
* `chain_snoc`, `chain_unlink`: what linking a cell at the end and bypassing
  a cell in the middle do to a chain. Both are stated for any link function
  that agrees with the old one outside the cells written, so that they apply
  to the `next` links and, on the reversed list, to the `prev` links.
-/

namespace Lib.PointerChain

variable {P : Type}

/-- The walk from `p` along `next` visits exactly `l` and stops at `q`. -/
def Seg (next : P → Option P) : Option P → List P → Option P → Prop
  | p, [], q => p = q
  | p, a :: l, q => p = some a ∧ Seg next (next a) l q

/-- The walk from `p` visits exactly `l` and ends in null. -/
abbrev Chain (next : P → Option P) (p : Option P) (l : List P) : Prop := Seg next p l none

theorem seg_append {next : P → Option P} {p q : Option P} {l₁ l₂ : List P} :
    Seg next p (l₁ ++ l₂) q ↔ ∃ r, Seg next p l₁ r ∧ Seg next r l₂ q := by
  induction l₁ generalizing p with
  | nil => simp [Seg]
  | cons a l₁ ih => simp [Seg, ih, and_assoc]

/-- **Frame rule.** Only the links of the visited cells matter. -/
theorem seg_congr {f g : P → Option P} {p q : Option P} {l : List P}
    (h : ∀ a ∈ l, g a = f a) (hf : Seg f p l q) : Seg g p l q := by
  induction l generalizing p with
  | nil => exact hf
  | cons a l ih =>
    refine ⟨hf.1, ?_⟩
    rw [h a List.mem_cons_self]
    exact ih (fun b hb => h b (List.mem_cons_of_mem _ hb)) hf.2

theorem chain_head {next : P → Option P} {p : Option P} {l : List P} (h : Chain next p l) :
    p = l.head? := by
  cases l with
  | nil => exact h
  | cons a l => exact h.1

theorem chain_eq_none {next : P → Option P} {p : Option P} {l : List P} (h : Chain next p l) :
    p = none ↔ l = [] := by
  rw [chain_head h, List.head?_eq_none_iff]

/-- The link of a cell in the middle of a chain is the first cell behind it. -/
theorem chain_next_mid {next : P → Option P} {p : Option P} {A B : List P} {e : P}
    (h : Chain next p (A ++ e :: B)) : next e = B.head? := by
  obtain ⟨r, -, he⟩ := seg_append.mp h
  exact chain_head he.2

/-- Redirecting the last link of a walk moves its end. -/
theorem seg_redirect {f g : P → Option P} {p q q' : Option P} {l : List P} {t : P}
    (h : Seg f p (l ++ [t]) q) (ht : g t = q') (hl : ∀ a ∈ l, g a = f a) :
    Seg g p (l ++ [t]) q' := by
  obtain ⟨r, hr, ht'⟩ := seg_append.mp h
  exact seg_append.mpr ⟨r, seg_congr hl hr, ht'.1, ht⟩

/-- Linking the fresh cell `e` behind the last cell of a chain. -/
theorem chain_snoc {f g : P → Option P} {p : Option P} {l : List P} {e : P}
    (h : Chain f p l) (hnd : l.Nodup) (he : g e = none)
    (hlast : ∀ t, l.getLast? = some t → g t = some e)
    (hsame : ∀ a ∈ l, l.getLast? ≠ some a → g a = f a) :
    Chain g (p.or (some e)) (l ++ [e]) := by
  rcases List.eq_nil_or_concat l with rfl | ⟨l, t, rfl⟩
  · have hp : p = none := h
    subst hp
    exact ⟨rfl, he⟩
  · rw [List.concat_eq_append] at *
    have hp : p.or (some e) = p := by
      rw [chain_head h]
      cases l <;> rfl
    have ht : t ∉ l := by simpa using (List.nodup_concat l t).mp (by simpa using hnd) |>.1
    have hl : ∀ a ∈ l, g a = f a := by
      intro a ha
      refine hsame a (List.mem_append_left _ ha) ?_
      simp only [List.getLast?_append, List.getLast?_singleton, Option.some_or, ne_eq,
        Option.some.injEq]
      rintro rfl
      exact ht ha
    rw [hp]
    exact seg_append.mpr ⟨some e, seg_redirect h (hlast t (by simp)) hl, rfl, he⟩

/-- Bypassing the cell `e`: its predecessor, or else the start pointer, takes
over the link of `e`. -/
theorem chain_unlink [DecidableEq P] {f g : P → Option P} {p : Option P} {A B : List P} {e : P}
    (h : Chain f p (A ++ e :: B)) (hnd : (A ++ e :: B).Nodup)
    (hg : ∀ a, a ≠ e → g a = if A.getLast? = some a then f e else f a) :
    Chain g (if some e = p then f e else p) (A ++ B) := by
  have heA : e ∉ A := fun hA => (List.nodup_append.mp hnd).2.2 e hA e List.mem_cons_self rfl
  have heB : e ∉ B := (List.nodup_cons.mp (List.nodup_append.mp hnd).2.1).1
  have hpred : ∀ t, A.getLast? = some t → g t = f e := by
    intro t ht
    rw [hg t fun hte => heA (hte ▸ List.mem_of_getLast? ht), if_pos ht]
  have hsame : ∀ a ∈ A ++ B, A.getLast? ≠ some a → g a = f a := by
    intro a ha hat
    rw [hg a fun hae => (List.mem_append.mp (hae ▸ ha)).elim heA heB, if_neg hat]
  obtain ⟨r, hA, hr, hB⟩ := seg_append.mp h
  subst hr
  rcases List.eq_nil_or_concat A with rfl | ⟨A, t, rfl⟩
  · have hp : p = some e := hA
    rw [if_pos hp.symm]
    exact seg_congr (fun a ha => hsame a (by simpa using ha) (by simp)) hB
  · rw [List.concat_eq_append] at *
    have hne : some e ≠ p := by
      intro hp
      have hmem : e ∈ A ++ [t] := by
        have := chain_head h
        rw [← hp] at this
        exact List.mem_of_mem_head? (l := A ++ [t]) (by cases A <;> simpa using this.symm)
      exact heA hmem
    have hnd' : (A ++ t :: (e :: B)).Nodup := by simpa using hnd
    have hlt : ∀ a, a ∈ A ∨ a ∈ B → a ≠ t := by
      rintro a (ha | ha) rfl
      · exact (List.nodup_append.mp hnd').2.2 a ha a List.mem_cons_self rfl
      · have := (List.nodup_cons.mp (List.nodup_append.mp hnd').2.1).1
        exact this (List.mem_cons_of_mem _ ha)
    have hgf : ∀ a, a ∈ A ∨ a ∈ B → g a = f a := by
      intro a ha
      refine hsame a (by rcases ha with ha | ha <;> simp [ha]) ?_
      simpa using (hlt a ha).symm
    rw [if_neg hne]
    refine seg_append.mpr ⟨f e, seg_redirect hA (hpred t (by simp)) fun a ha => hgf a (.inl ha), ?_⟩
    exact seg_congr (fun a ha => hgf a (.inr ha)) hB

end Lib.PointerChain
