import Mathlib.Data.Set.Basic
import Mathlib.Data.List.Nodup
import Pixelflut.Lib.PointerChain
import Pixelflut.LList.Basic

/-!
# Lists in memory and the sequences they stand for

A `Family` gives every list its sequence of entries; `append` and `remove` are
the operations of `llist.c` on sequences. `Represents Ls Es m S` says that the
memory `m` holds the lists `Ls` over the entries `Es` with the sequences `S`:
`next` from `head` walks a sequence forwards, `prev` from `tail` backwards, and
the owner field of an entry names the list that it is in. Nothing is said of
memory outside `Ls` and `Es`.

`append_represents` and `remove_represents` are the two step lemmas,
`execOps_represents` the whole run, and `llist_refines_sequences` collects what
a client may rely on.
-/

namespace Pixelflut.LList

open Function (update)
open Lib.PointerChain

variable {ε ℓ : Type}

/-! ## Sequences -/

/-- The sequence of entries of every list. -/
abbrev Family (ε ℓ : Type) := ℓ → List ε

/-- `llist_append` on sequences. -/
def Family.append [DecidableEq ℓ] (S : Family ε ℓ) (L : ℓ) (e : ε) : Family ε ℓ :=
  update S L (S L ++ [e])

/-- `llist_remove` on sequences: `e` leaves the list that it is in. -/
def Family.remove [DecidableEq ε] (S : Family ε ℓ) (e : ε) : Family ε ℓ := fun L => (S L).erase e

theorem Family.append_self [DecidableEq ℓ] (S : Family ε ℓ) (L : ℓ) (e : ε) :
    S.append L e L = S L ++ [e] := by
  simp [append]

theorem Family.append_ne [DecidableEq ℓ] (S : Family ε ℓ) {L L' : ℓ} (e : ε) (h : L' ≠ L) :
    S.append L e L' = S L' := by
  simp [append, h]

theorem Family.mem_append [DecidableEq ℓ] (S : Family ε ℓ) (L L' : ℓ) (e a : ε) :
    a ∈ S.append L e L' ↔ a ∈ S L' ∨ L' = L ∧ a = e := by
  by_cases h : L' = L
  · subst h
    simp [append]
  · simp [append, h]

/-- The memory `m` holds the lists `Ls` over the entries `Es` with the
sequences `S`. -/
structure Represents (Ls : Set ℓ) (Es : Set ε) (m : Mem ε ℓ) (S : Family ε ℓ) : Prop where
  forward : ∀ L ∈ Ls, Chain m.next (m.head L) (S L)
  backward : ∀ L ∈ Ls, Chain m.prev (m.tail L) (S L).reverse
  nodup : ∀ L ∈ Ls, (S L).Nodup
  known : ∀ L ∈ Ls, ∀ e ∈ S L, e ∈ Es
  owner : ∀ e ∈ Es, ∀ L, m.list e = some L ↔ L ∈ Ls ∧ e ∈ S L
  loose : ∀ e ∈ Es, (∀ L ∈ Ls, e ∉ S L) → m.next e = none ∧ m.prev e = none

namespace Represents

variable {Ls : Set ℓ} {Es : Set ε} {m : Mem ε ℓ} {S : Family ε ℓ}

theorem mem_unique (h : Represents Ls Es m S) {L L' : ℓ} {e : ε} (hL : L ∈ Ls) (hL' : L' ∈ Ls)
    (he : e ∈ S L) (he' : e ∈ S L') : L = L' := by
  have hE := h.known L hL e he
  have hown := (h.owner e hE L).mpr ⟨hL, he⟩
  rw [(h.owner e hE L').mpr ⟨hL', he'⟩] at hown
  exact (Option.some.inj hown).symm

theorem head_none_iff (h : Represents Ls Es m S) {L : ℓ} (hL : L ∈ Ls) :
    m.head L = none ↔ S L = [] :=
  chain_eq_none (h.forward L hL)

theorem tail_none_iff (h : Represents Ls Es m S) {L : ℓ} (hL : L ∈ Ls) :
    m.tail L = none ↔ S L = [] := by
  rw [chain_eq_none (h.backward L hL), List.reverse_eq_nil_iff]

theorem tail_eq (h : Represents Ls Es m S) {L : ℓ} (hL : L ∈ Ls) :
    m.tail L = (S L).getLast? := by
  rw [chain_head (h.backward L hL), List.head?_reverse]

/-- The neighbours of an entry in the middle of its list. -/
theorem neighbours (h : Represents Ls Es m S) {L : ℓ} (hL : L ∈ Ls) {A B : List ε} {e : ε}
    (hS : S L = A ++ e :: B) : m.next e = B.head? ∧ m.prev e = A.getLast? := by
  have hf := h.forward L hL
  have hb := h.backward L hL
  rw [hS] at hf hb
  simp only [List.reverse_append, List.reverse_cons, List.append_assoc, List.cons_append,
    List.nil_append] at hb
  exact ⟨chain_next_mid hf, by rw [chain_next_mid hb, List.head?_reverse]⟩

theorem list_none (h : Represents Ls Es m S) {e : ε} (he : e ∈ Es) (hfree : ∀ L ∈ Ls, e ∉ S L) :
    m.list e = none := by
  cases hl : m.list e with
  | none => rfl
  | some L =>
    obtain ⟨hL, heS⟩ := (h.owner e he L).mp hl
    exact absurd heS (hfree L hL)

theorem mem_remove [DecidableEq ε] (h : Represents Ls Es m S) {L : ℓ} (hL : L ∈ Ls) (e a : ε) :
    a ∈ S.remove e L ↔ a ≠ e ∧ a ∈ S L :=
  (h.nodup L hL).mem_erase_iff

/-- An entry leaves one list only. -/
theorem remove_ne [DecidableEq ε] (h : Represents Ls Es m S) {L L' : ℓ} {e : ε} (hL : L ∈ Ls)
    (he : e ∈ S L) (hL' : L' ∈ Ls) (hne : L' ≠ L) : S.remove e L' = S L' :=
  List.erase_of_not_mem fun he' => hne (h.mem_unique hL' hL he' he)

theorem remove_eq [DecidableEq ε] [DecidableEq ℓ] (h : Represents Ls Es m S) {L L' : ℓ} {e : ε}
    (hL : L ∈ Ls) (he : e ∈ S L) (hL' : L' ∈ Ls) :
    update S L ((S L).erase e) L' = S.remove e L' := by
  by_cases hLL : L' = L
  · subst hLL
    rw [Function.update_self]
    rfl
  · rw [Function.update_of_ne hLL, h.remove_ne hL he hL' hLL]

/-- Only the sequences of the lists `Ls` matter. -/
theorem congr {S' : Family ε ℓ} (h : Represents Ls Es m S) (hS : ∀ L ∈ Ls, S' L = S L) :
    Represents Ls Es m S' := by
  constructor
  case forward => exact fun L hL => hS L hL ▸ h.forward L hL
  case backward => exact fun L hL => hS L hL ▸ h.backward L hL
  case nodup => exact fun L hL => hS L hL ▸ h.nodup L hL
  case known => exact fun L hL e he => h.known L hL e (hS L hL ▸ he)
  case owner =>
    intro e he L
    rw [h.owner e he L]
    exact and_congr_right fun hL => by rw [hS L hL]
  case loose => exact fun e he hout => h.loose e he fun L hL => hS L hL ▸ hout L hL

/-- **Step lemma for `llist_append`.** The entry must be in no list. -/
theorem append_represents [DecidableEq ε] [DecidableEq ℓ] (h : Represents Ls Es m S) {L : ℓ}
    {e : ε} (hL : L ∈ Ls) (he : e ∈ Es) (hfree : ∀ L ∈ Ls, e ∉ S L) :
    ∃ m', llistAppend m L e = some m' ∧ Represents Ls Es m' (S.append L e) := by
  have hlast : ∀ t, m.tail L = some t → t ∈ S L := by
    intro t ht
    rw [h.tail_eq hL] at ht
    exact List.mem_of_getLast? ht
  have hnull : m.head L = none ↔ m.tail L = none := by
    rw [h.head_none_iff hL, h.tail_none_iff hL]
  obtain ⟨m', hm, hhead, htail, hlist, hprev, hne, hnt, hna⟩ :=
    llistAppend_spec hnull (fun ht => hfree L hL (hlast e ht))
  have hneq : ∀ L' ∈ Ls, ∀ a ∈ S L', a ≠ e := by
    rintro L' hL' a ha rfl
    exact hfree L' hL' ha
  have hforward : ∀ L' ∈ Ls, Chain m'.next (m'.head L') (S.append L e L') := by
    intro L' hL'
    by_cases hLL : L' = L
    · subst hLL
      rw [hhead, Family.append_self, Function.update_self]
      apply chain_snoc (h.forward L' hL') (h.nodup L' hL') hne
      · intro t ht
        exact hnt t (by rw [h.tail_eq hL', ht])
      · intro a ha hat
        exact hna a (hneq L' hL' a ha) (by rwa [h.tail_eq hL'])
    · rw [hhead, Family.append_ne _ _ hLL, Function.update_of_ne hLL]
      apply seg_congr _ (h.forward L' hL')
      intro a ha
      exact hna a (hneq L' hL' a ha) fun hta => hLL (h.mem_unique hL' hL ha (hlast a hta))
  have hbackward : ∀ L' ∈ Ls, Chain m'.prev (m'.tail L') (S.append L e L').reverse := by
    intro L' hL'
    have hframe : Chain m'.prev (m.tail L') (S L').reverse := by
      apply seg_congr _ (h.backward L' hL')
      intro a ha
      rw [hprev, Function.update_of_ne (hneq L' hL' a (List.mem_reverse.mp ha))]
    by_cases hLL : L' = L
    · subst hLL
      rw [htail, Family.append_self, Function.update_self, List.reverse_append]
      refine ⟨rfl, ?_⟩
      rw [hprev, Function.update_self, ← hprev]
      exact hframe
    · rw [htail, Family.append_ne _ _ hLL, Function.update_of_ne hLL]
      exact hframe
  have hnodup : ∀ L' ∈ Ls, (S.append L e L').Nodup := by
    intro L' hL'
    by_cases hLL : L' = L
    · subst hLL
      rw [Family.append_self, ← List.concat_eq_append]
      exact (List.nodup_concat _ _).mpr ⟨hfree L' hL', h.nodup L' hL'⟩
    · rw [Family.append_ne _ _ hLL]
      exact h.nodup L' hL'
  have hknown : ∀ L' ∈ Ls, ∀ a ∈ S.append L e L', a ∈ Es := by
    intro L' hL' a ha
    rcases (S.mem_append L L' e a).mp ha with ha | ⟨-, rfl⟩
    · exact h.known L' hL' a ha
    · exact he
  have howner : ∀ a ∈ Es, ∀ L', m'.list a = some L' ↔ L' ∈ Ls ∧ a ∈ S.append L e L' := by
    intro a ha L'
    rw [hlist, Family.mem_append]
    by_cases hae : a = e
    · subst hae
      rw [Function.update_self]
      constructor
      · rintro ⟨⟩
        exact ⟨hL, .inr ⟨rfl, rfl⟩⟩
      · rintro ⟨hL', haS | ⟨rfl, -⟩⟩
        · exact absurd haS (hfree L' hL')
        · rfl
    · rw [Function.update_of_ne hae, h.owner a ha L']
      simp [hae]
  have hloose : ∀ a ∈ Es, (∀ L' ∈ Ls, a ∉ S.append L e L') → m'.next a = none ∧ m'.prev a = none := by
    intro a ha hout
    have hae : a ≠ e := by
      rintro rfl
      exact hout L hL ((S.mem_append L L a a).mpr (.inr ⟨rfl, rfl⟩))
    have hold : ∀ L' ∈ Ls, a ∉ S L' := fun L' hL' haS =>
      hout L' hL' ((S.mem_append L L' e a).mpr (.inl haS))
    rw [hna a hae fun hta => hold L hL (hlast a hta), hprev, Function.update_of_ne hae]
    exact h.loose a ha hold
  exact ⟨m', hm, hforward, hbackward, hnodup, hknown, howner, hloose⟩

/-- **Step lemma for `llist_remove`.** The entry must be in a list. -/
theorem remove_represents [DecidableEq ε] [DecidableEq ℓ] (h : Represents Ls Es m S) {L : ℓ}
    {e : ε} (hL : L ∈ Ls) (he : e ∈ S L) :
    ∃ m', llistRemove m e = some m' ∧ Represents Ls Es m' (S.remove e) := by
  obtain ⟨A, B, hS⟩ := List.append_of_mem he
  have hnd := h.nodup L hL
  rw [hS] at hnd
  obtain ⟨hnext, hprev⟩ := h.neighbours hL hS
  have heA : e ∉ A := fun hA => (List.nodup_append.mp hnd).2.2 e hA e List.mem_cons_self rfl
  have heB : e ∉ B := (List.nodup_cons.mp (List.nodup_append.mp hnd).2.1).1
  have hne : m.next e ≠ some e := by
    rw [hnext]
    exact fun hB => heB (List.mem_of_head? hB)
  obtain ⟨m', hm, hhead, htail, hlist, hnull, hn, hp⟩ :=
    llistRemove_spec ((h.owner e (h.known L hL e he) L).mpr ⟨hL, he⟩) hne
  have hSe : S.remove e L = A ++ B := by
    rw [Family.remove, hS, List.erase_append_right _ heA, List.erase_cons_head]
  -- the links that are redirected belong to entries of the same list
  have hframe : ∀ a, a ∉ S L → m'.next a = m.next a ∧ m'.prev a = m.prev a := by
    intro a ha
    rw [hS, List.mem_append, List.mem_cons, not_or, not_or] at ha
    obtain ⟨haA, hae, haB⟩ := ha
    rw [hn a hae, hp a hae, hnext, hprev]
    exact ⟨if_neg fun hlast => haA (List.mem_of_getLast? hlast),
      if_neg fun hhead => haB (List.mem_of_head? hhead)⟩
  have helsewhere : ∀ L' ∈ Ls, L' ≠ L → ∀ a ∈ S L', m'.next a = m.next a ∧ m'.prev a = m.prev a :=
    fun L' hL' hLL a ha => hframe a fun ha' => hLL (h.mem_unique hL' hL ha ha')
  have hforward : ∀ L' ∈ Ls, Chain m'.next (m'.head L') (S.remove e L') := by
    intro L' hL'
    by_cases hLL : L' = L
    · subst hLL
      have hc := h.forward L' hL'
      rw [hS] at hc
      rw [hprev] at hn
      rw [hhead, hSe, Function.update_self]
      exact chain_unlink hc hnd hn
    · rw [hhead, h.remove_ne hL he hL' hLL, Function.update_of_ne hLL]
      exact seg_congr (fun a ha => (helsewhere L' hL' hLL a ha).1) (h.forward L' hL')
  have hbackward : ∀ L' ∈ Ls, Chain m'.prev (m'.tail L') (S.remove e L').reverse := by
    intro L' hL'
    by_cases hLL : L' = L
    · subst hLL
      have hc := h.backward L' hL'
      have hnd' := List.nodup_reverse.mpr hnd
      rw [hS] at hc
      rw [List.reverse_append, List.reverse_cons, List.append_assoc, List.singleton_append] at hc hnd'
      rw [hnext, ← List.getLast?_reverse] at hp
      rw [htail, hSe, Function.update_self, List.reverse_append]
      exact chain_unlink hc hnd' hp
    · rw [htail, h.remove_ne hL he hL' hLL, Function.update_of_ne hLL]
      apply seg_congr _ (h.backward L' hL')
      exact fun a ha => (helsewhere L' hL' hLL a (List.mem_reverse.mp ha)).2
  have howner : ∀ a ∈ Es, ∀ L', m'.list a = some L' ↔ L' ∈ Ls ∧ a ∈ S.remove e L' := by
    intro a ha L'
    by_cases hae : a = e
    · subst hae
      rw [hlist, Function.update_self]
      constructor
      · rintro ⟨⟩
      · rintro ⟨hL', haS⟩
        exact absurd rfl ((h.mem_remove hL' a a).mp haS).1
    · rw [hlist, Function.update_of_ne hae, h.owner a ha L']
      refine and_congr_right fun hL' => ?_
      rw [h.mem_remove hL', and_iff_right hae]
  have hloose : ∀ a ∈ Es, (∀ L' ∈ Ls, a ∉ S.remove e L') → m'.next a = none ∧ m'.prev a = none := by
    intro a ha hout
    by_cases hae : a = e
    · subst hae
      exact hnull
    · have hold : ∀ L' ∈ Ls, a ∉ S L' := fun L' hL' haS =>
        hout L' hL' ((h.mem_remove hL' e a).mpr ⟨hae, haS⟩)
      obtain ⟨hn', hp'⟩ := hframe a (hold L hL)
      rw [hn', hp']
      exact h.loose a ha hold
  refine ⟨m', hm, hforward, hbackward, ?_, ?_, howner, hloose⟩
  · exact fun L' hL' => (h.nodup L' hL').erase e
  · exact fun L' hL' a ha => h.known L' hL' a (List.mem_of_mem_erase ha)

/-- A new entry may be initialised at any time. -/
theorem entryInit_represents [DecidableEq ε] (h : Represents Ls Es m S) {e : ε} (he : e ∉ Es) :
    Represents Ls (insert e Es) (llistEntryInit m e) S := by
  have hne : ∀ a ∈ Es, a ≠ e := fun a ha hae => he (hae ▸ ha)
  have hold : ∀ a ∈ Es, (llistEntryInit m e).next a = m.next a ∧
      (llistEntryInit m e).prev a = m.prev a ∧ (llistEntryInit m e).list a = m.list a :=
    fun a ha => by simp [llistEntryInit, hne a ha]
  constructor
  case forward =>
    exact fun L hL => seg_congr (fun a ha => (hold a (h.known L hL a ha)).1) (h.forward L hL)
  case backward =>
    intro L hL
    refine seg_congr (fun a ha => ?_) (h.backward L hL)
    exact (hold a (h.known L hL a (List.mem_reverse.mp ha))).2.1
  case nodup => exact h.nodup
  case known => exact fun L hL a ha => .inr (h.known L hL a ha)
  case owner =>
    intro a ha L
    rcases ha with rfl | ha
    · simp only [llistEntryInit, Function.update_self, reduceCtorEq, false_iff]
      exact fun hmem => he (h.known L hmem.1 a hmem.2)
    · rw [(hold a ha).2.2, h.owner a ha L]
  case loose =>
    intro a ha hout
    rcases ha with rfl | ha
    · simp [llistEntryInit]
    · rw [(hold a ha).1, (hold a ha).2.1]
      exact h.loose a ha hout

/-! ## Walks over a list -/

theorem llistForEach_chain {σ ρ : Type} {body : ε → σ → Except ρ σ} {l : List ε} {p : Option ε}
    {fuel : Nat} {s : σ} (hc : Chain m.next p l) (hfuel : l.length ≤ fuel) :
    llistForEach m body fuel p s = some (l.foldlM (fun s e => body e s) s) := by
  induction l generalizing p fuel s with
  | nil =>
    have hp : p = none := hc
    subst hp
    cases fuel <;> rfl
  | cons a l ih =>
    obtain ⟨rfl, hc⟩ := hc
    cases fuel with
    | zero => simp at hfuel
    | succ fuel =>
      have hl : l.length ≤ fuel := Nat.le_of_succ_le_succ hfuel
      rw [List.foldlM_cons]
      cases hb : body a s with
      | error r => simp only [llistForEach, hb]; rfl
      | ok s' => simp only [llistForEach, hb, ih hc hl]; rfl

/-- `llist_for_each` visits exactly the sequence of the list, in order. -/
theorem llistForEach_eq {σ ρ : Type} (h : Represents Ls Es m S) {L : ℓ} (hL : L ∈ Ls)
    (body : ε → σ → Except ρ σ) (s : σ) {fuel : Nat} (hfuel : (S L).length ≤ fuel) :
    llistForEach m body fuel (m.head L) s = some ((S L).foldlM (fun s e => body e s) s) :=
  llistForEach_chain (h.forward L hL) hfuel

private theorem foldlM_length (l : List ε) (n : Nat) :
    l.foldlM (fun len (_ : ε) => (.ok (len + 1) : Except Empty Nat)) n = .ok (n + l.length) := by
  induction l generalizing n with
  | nil => rfl
  | cons a l ih =>
    rw [List.foldlM_cons]
    exact (ih (n + 1)).trans (by rw [List.length_cons]; congr 1; omega)

theorem llistLength_eq (h : Represents Ls Es m S) {L : ℓ} (hL : L ∈ Ls) {fuel : Nat}
    (hfuel : (S L).length ≤ fuel) : llistLength m fuel L = some (S L).length := by
  rw [llistLength, h.llistForEach_eq hL _ _ hfuel, foldlM_length]
  simp

/-- The countdown leaves the loop at the entry whose position is the index. -/
private theorem foldlM_countdown (l : List ε) (i : UInt32) :
    leftWith (l.foldlM (fun index cursor => countdown cursor index) i) = l[i.toNat]? := by
  induction l generalizing i with
  | nil => rfl
  | cons a l ih =>
    rw [List.foldlM_cons]
    by_cases hi : i = 0
    · subst hi
      rfl
    · have hpos : i.toNat ≠ 0 := fun h0 => hi (UInt32.toNat_inj.mp h0)
      have hone : 1 ≤ i := UInt32.le_iff_toNat_le.mpr (Nat.one_le_iff_ne_zero.mpr hpos)
      have hpred : (i - 1).toNat = i.toNat - 1 := UInt32.toNat_sub_of_le _ _ hone
      rw [countdown, if_neg hi, List.getElem?_cons, if_neg hpos, ← hpred, ← ih (i - 1)]
      rfl

theorem llistGetEntry_eq (h : Represents Ls Es m S) {L : ℓ} (hL : L ∈ Ls) (i : UInt32)
    {fuel : Nat} (hfuel : (S L).length ≤ fuel) :
    llistGetEntry m fuel L i = some (S L)[i.toNat]? := by
  rw [llistGetEntry, h.llistForEach_eq hL _ _ hfuel, Option.map_some, foldlM_countdown]

/-- `llist_get_entry(L, 0)` needs one step of the loop only. -/
theorem llistGetEntry_zero (h : Represents Ls Es m S) {L : ℓ} (hL : L ∈ Ls) (fuel : Nat) :
    llistGetEntry m (fuel + 1) L 0 = some (S L).head? := by
  rw [llistGetEntry, chain_head (h.forward L hL)]
  cases S L <;> rfl

theorem llistIsEmpty_eq (h : Represents Ls Es m S) {L : ℓ} (hL : L ∈ Ls) :
    llistIsEmpty m L = (S L).isEmpty := by
  rw [llistIsEmpty, chain_head (h.forward L hL)]
  cases S L <;> rfl

end Represents

/-! ## Whole runs -/

inductive Op (ε ℓ : Type) where
  | append (llist : ℓ) (entry : ε)
  | remove (entry : ε)

section Runs

/-! ### Initialised memory -/

theorem foldl_llistInit [DecidableEq ℓ] (Ls : List ℓ) (m : Mem ε ℓ) {L : ℓ}
    (h : L ∈ Ls ∨ m.head L = none ∧ m.tail L = none) :
    (Ls.foldl llistInit m).head L = none ∧ (Ls.foldl llistInit m).tail L = none := by
  induction Ls generalizing m with
  | nil => simpa using h
  | cons L' Ls ih =>
    apply ih
    by_cases hL : L = L'
    · subst hL
      exact .inr ⟨by simp [llistInit], by simp [llistInit]⟩
    · simpa [llistInit, hL] using h

theorem foldl_llistEntryInit_head [DecidableEq ε] (Es : List ε) (m : Mem ε ℓ) :
    (Es.foldl llistEntryInit m).head = m.head ∧ (Es.foldl llistEntryInit m).tail = m.tail := by
  induction Es generalizing m with
  | nil => exact ⟨rfl, rfl⟩
  | cons e Es ih => exact ih (llistEntryInit m e)

theorem foldl_llistEntryInit [DecidableEq ε] (Es : List ε) (m : Mem ε ℓ) {e : ε}
    (h : e ∈ Es ∨ m.next e = none ∧ m.prev e = none ∧ m.list e = none) :
    (Es.foldl llistEntryInit m).next e = none ∧ (Es.foldl llistEntryInit m).prev e = none ∧
      (Es.foldl llistEntryInit m).list e = none := by
  induction Es generalizing m with
  | nil => simpa using h
  | cons e' Es ih =>
    apply ih
    by_cases he : e = e'
    · subst he
      exact .inr ⟨by simp [llistEntryInit], by simp [llistEntryInit], by simp [llistEntryInit]⟩
    · simpa [llistEntryInit, he] using h

variable [DecidableEq ε] [DecidableEq ℓ]

/-- Memory of any content in which `llist_init` has run on the lists `Ls` and
`llist_entry_init` on the entries `Es`. -/
def initMem (m : Mem ε ℓ) (Ls : List ℓ) (Es : List ε) : Mem ε ℓ :=
  Es.foldl llistEntryInit (Ls.foldl llistInit m)

theorem initMem_represents (m : Mem ε ℓ) (Ls : List ℓ) (Es : List ε) :
    Represents {L | L ∈ Ls} {e | e ∈ Es} (initMem m Ls Es) fun _ => [] := by
  have hlists : ∀ L ∈ Ls, (initMem m Ls Es).head L = none ∧ (initMem m Ls Es).tail L = none := by
    intro L hL
    obtain ⟨hh, ht⟩ := foldl_llistEntryInit_head Es (Ls.foldl llistInit m)
    rw [initMem, hh, ht]
    exact foldl_llistInit Ls m (.inl hL)
  have hentries : ∀ e ∈ Es, _ := fun e he => foldl_llistEntryInit Es (Ls.foldl llistInit m) (.inl he)
  constructor
  case forward => exact fun L hL => (hlists L hL).1
  case backward => exact fun L hL => (hlists L hL).2
  case nodup => exact fun L _ => List.nodup_nil
  case known => exact fun L _ e he => absurd he List.not_mem_nil
  case owner =>
    intro e he L
    rw [initMem, (hentries e he).2.2]
    simp
  case loose => exact fun e he _ => ⟨(hentries e he).1, (hentries e he).2.1⟩

/-! ### Operations -/

/-- One operation on the memory. -/
def Op.exec (m : Mem ε ℓ) : Op ε ℓ → Option (Mem ε ℓ)
  | .append llist entry => llistAppend m llist entry
  | .remove entry => llistRemove m entry

/-- One operation on the sequences. -/
def Op.apply (S : Family ε ℓ) : Op ε ℓ → Family ε ℓ
  | .append llist entry => S.append llist entry
  | .remove entry => S.remove entry

/-- Entries are appended only while in no list, and removed only while in one. -/
def Op.Legal (Ls : List ℓ) (Es : List ε) (S : Family ε ℓ) : Op ε ℓ → Prop
  | .append llist entry => llist ∈ Ls ∧ entry ∈ Es ∧ ∀ L ∈ Ls, entry ∉ S L
  | .remove entry => ∃ L ∈ Ls, entry ∈ S L

def execOps (m : Mem ε ℓ) : List (Op ε ℓ) → Option (Mem ε ℓ)
  | [] => some m
  | op :: ops => (op.exec m).bind fun m' => execOps m' ops

def applyOps (S : Family ε ℓ) : List (Op ε ℓ) → Family ε ℓ
  | [] => S
  | op :: ops => applyOps (op.apply S) ops

def LegalOps (Ls : List ℓ) (Es : List ε) (S : Family ε ℓ) : List (Op ε ℓ) → Prop
  | [] => True
  | op :: ops => op.Legal Ls Es S ∧ LegalOps Ls Es (op.apply S) ops

instance (Ls : List ℓ) (Es : List ε) (S : Family ε ℓ) (op : Op ε ℓ) : Decidable (op.Legal Ls Es S) :=
  match op with
  | .append llist entry =>
      inferInstanceAs (Decidable (llist ∈ Ls ∧ entry ∈ Es ∧ ∀ L ∈ Ls, entry ∉ S L))
  | .remove entry => inferInstanceAs (Decidable (∃ L ∈ Ls, entry ∈ S L))

instance decidableLegalOps (Ls : List ℓ) (Es : List ε) (S : Family ε ℓ) (ops : List (Op ε ℓ)) :
    Decidable (LegalOps Ls Es S ops) :=
  match ops with
  | [] => isTrue trivial
  | op :: ops =>
      have := decidableLegalOps Ls Es (op.apply S) ops
      inferInstanceAs (Decidable (op.Legal Ls Es S ∧ LegalOps Ls Es (op.apply S) ops))

theorem Op.exec_represents {Ls : List ℓ} {Es : List ε} {m : Mem ε ℓ} {S : Family ε ℓ} {op : Op ε ℓ}
    (h : Represents {L | L ∈ Ls} {e | e ∈ Es} m S) (hop : op.Legal Ls Es S) :
    ∃ m', op.exec m = some m' ∧ Represents {L | L ∈ Ls} {e | e ∈ Es} m' (op.apply S) := by
  cases op with
  | append llist entry => exact h.append_represents hop.1 hop.2.1 hop.2.2
  | remove entry =>
    obtain ⟨L, hL, he⟩ := hop
    exact h.remove_represents hL he

/-- **Run lemma.** A legal run never stops, and ends in memory that holds the
sequences of the run. -/
theorem execOps_represents {Ls : List ℓ} {Es : List ε} {m : Mem ε ℓ} {S : Family ε ℓ}
    (ops : List (Op ε ℓ)) (h : Represents {L | L ∈ Ls} {e | e ∈ Es} m S)
    (hops : LegalOps Ls Es S ops) :
    ∃ m', execOps m ops = some m' ∧
      Represents {L | L ∈ Ls} {e | e ∈ Es} m' (applyOps S ops) := by
  induction ops generalizing m S with
  | nil => exact ⟨m, rfl, h⟩
  | cons op ops ih =>
    obtain ⟨m₁, hm₁, h₁⟩ := op.exec_represents h hops.1
    obtain ⟨m₂, hm₂, h₂⟩ := ih h₁ hops.2
    exact ⟨m₂, by rw [execOps, hm₁, Option.bind_some, hm₂], h₂⟩

/-- **The list refines a family of sequences.** From memory of any content in
which the lists and entries have been initialised, every legal run goes through
and its memory holds the sequences that the run computes; the walks of
`llist_length` and `llist_get_entry` end and read these sequences. -/
theorem llist_refines_sequences (garbage : Mem ε ℓ) (Ls : List ℓ) (Es : List ε)
    (ops : List (Op ε ℓ)) (hops : LegalOps Ls Es (fun _ => []) ops) :
    ∃ m S, S = applyOps (fun _ => []) ops ∧ execOps (initMem garbage Ls Es) ops = some m ∧
      (∀ L ∈ Ls, (S L).Nodup ∧ ∀ L' ∈ Ls, L ≠ L' → List.Disjoint (S L) (S L')) ∧
      (∀ L ∈ Ls, Chain m.next (m.head L) (S L) ∧ Chain m.prev (m.tail L) (S L).reverse) ∧
      (∀ L ∈ Ls, (m.head L = none ↔ m.tail L = none) ∧ (m.tail L = none ↔ S L = [])) ∧
      (∀ e ∈ Es, ∀ L ∈ Ls, m.list e = some L ↔ e ∈ S L) ∧
      (∀ e ∈ Es, (∀ L ∈ Ls, e ∉ S L) →
        m.next e = none ∧ m.prev e = none ∧ m.list e = none) ∧
      (∀ L ∈ Ls, ∀ e ∈ Es, (∀ L ∈ Ls, e ∉ S L) →
        ∃ m', llistAppend m L e = some m' ∧
          Represents {L | L ∈ Ls} {e | e ∈ Es} m' (update S L (S L ++ [e]))) ∧
      (∀ L ∈ Ls, ∀ e ∈ S L,
        ∃ m', llistRemove m e = some m' ∧
          Represents {L | L ∈ Ls} {e | e ∈ Es} m' (update S L ((S L).erase e))) ∧
      (∀ L ∈ Ls, ∀ fuel, (S L).length ≤ fuel →
        llistLength m fuel L = some (S L).length ∧
          ∀ i : UInt32, llistGetEntry m fuel L i = some (S L)[i.toNat]?) := by
  obtain ⟨m, hm, h⟩ := execOps_represents ops (initMem_represents garbage Ls Es) hops
  refine ⟨m, _, rfl, hm, ?_, fun L hL => ⟨h.forward L hL, h.backward L hL⟩, ?_, ?_, ?_, ?_, ?_, ?_⟩
  · intro L hL
    refine ⟨h.nodup L hL, fun L' hL' hne e he he' => ?_⟩
    exact hne (h.mem_unique hL hL' he he')
  · intro L hL
    rw [h.tail_none_iff hL, h.head_none_iff hL]
    exact ⟨Iff.rfl, Iff.rfl⟩
  · intro e he L hL
    rw [h.owner e he L]
    exact and_iff_right hL
  · intro e he hfree
    obtain ⟨hn, hp⟩ := h.loose e he hfree
    exact ⟨hn, hp, h.list_none he hfree⟩
  · exact fun L hL e he hfree => h.append_represents hL he hfree
  · intro L hL e he
    obtain ⟨m', hm', h'⟩ := h.remove_represents hL he
    exact ⟨m', hm', h'.congr fun L' hL' => h.remove_eq hL he hL'⟩
  · intro L hL fuel hfuel
    exact ⟨h.llistLength_eq hL hfuel, fun i => h.llistGetEntry_eq hL i hfuel⟩

/-- Two lists over uninitialised memory whose links all point at entry 7: the
first entry of one list is removed, and the other list keeps its entry. -/
theorem llist_refines_sequences_two_lists :
    ∃ m : Mem Nat Bool,
      execOps (initMem ⟨fun _ => some 7, fun _ => some 7, fun _ => some 7, fun _ => some 7,
          fun _ => some true⟩ [true, false] [1, 2, 3])
        [.append true 1, .append false 2, .append true 3, .remove 1] = some m ∧
      Chain m.next (m.head true) [3] ∧ Chain m.prev (m.tail false) [2] ∧
      m.list 1 = none ∧ llistLength m 5 true = some 1 ∧ llistGetEntry m 5 false 0 = some (some 2) := by
  obtain ⟨m, S, rfl, hm, -, hchain, -, -, hloose, -, -, hwalk⟩ :=
    llist_refines_sequences (ε := Nat) (ℓ := Bool) ⟨fun _ => some 7, fun _ => some 7,
      fun _ => some 7, fun _ => some 7, fun _ => some true⟩ [true, false] [1, 2, 3]
      [.append true 1, .append false 2, .append true 3, .remove 1] (by decide)
  refine ⟨m, hm, (hchain true (by decide)).1, (hchain false (by decide)).2, ?_, ?_, ?_⟩
  · exact (hloose 1 (by decide) (by decide)).2.2
  · exact (hwalk true (by decide) 5 (by decide)).1
  · exact (hwalk false (by decide) 5 (by decide)).2 0

end Runs

end Pixelflut.LList
