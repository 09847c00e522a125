import Mathlib.Data.List.Induction

/-!
# Rasters

What a picture memory is for: a rectangle of cells that shows, at every place,
the value drawn there last. Drawing outside the rectangle has no effect;
clearing sets a new size and forgets all drawings.

`colour_foldl` and `drawn_foldl` describe a raster after any sequence of
events by its history: the last drawing of a place since the last clearing, and
the number of drawings that fell inside the rectangle of their time.
-/

namespace Lib.Drawing

variable {κ : Type}

structure Raster (κ : Type) where
  width : Nat
  height : Nat
  colour : Nat → Nat → κ
  /-- The number of drawings inside the rectangle, over all sizes. -/
  drawn : Nat

inductive Event (κ : Type) where
  | draw (x y : Nat) (v : κ)
  | clear (width height : Nat)
  deriving DecidableEq

def Raster.draw (r : Raster κ) (x y : Nat) (v : κ) : Raster κ :=
  if x < r.width ∧ y < r.height then
    { r with
      colour := fun x' y' => if x' = x ∧ y' = y then v else r.colour x' y'
      drawn := r.drawn + 1 }
  else r

/-- An empty raster, with `drawn` drawings made before. -/
def blank [Zero κ] (width height drawn : Nat) : Raster κ := ⟨width, height, fun _ _ => 0, drawn⟩

def Raster.apply [Zero κ] (r : Raster κ) : Event κ → Raster κ
  | .draw x y v => r.draw x y v
  | .clear width height => blank width height r.drawn

/-! ## The history -/

/-- The drawings since the last clearing, in order. -/
def sinceClear (evs : List (Event κ)) : List (Nat × Nat × κ) :=
  evs.foldl (fun past ev => match ev with
    | .draw x y v => past ++ [(x, y, v)]
    | .clear _ _ => []) []

/-- The value drawn last at `(x, y)`, or `0` when there is none. -/
def lastAt [Zero κ] (past : List (Nat × Nat × κ)) (x y : Nat) : κ :=
  ((past.filter fun d => d.1 = x ∧ d.2.1 = y).getLast?.map fun d => d.2.2).getD 0

/-- The number of drawings inside the rectangle of their time; the first
rectangle is `width` by `height`. -/
def hits (width height : Nat) : List (Event κ) → Nat
  | [] => 0
  | .draw x y _ :: evs => (if x < width ∧ y < height then 1 else 0) + hits width height evs
  | .clear width height :: evs => hits width height evs

theorem sinceClear_concat (evs : List (Event κ)) (ev : Event κ) :
    sinceClear (evs ++ [ev]) = match ev with
      | .draw x y v => sinceClear evs ++ [(x, y, v)]
      | .clear _ _ => [] := by
  simp [sinceClear, List.foldl_append]

theorem lastAt_concat [Zero κ] (past : List (Nat × Nat × κ)) (x y : Nat) (v : κ) (x' y' : Nat) :
    lastAt (past ++ [(x, y, v)]) x' y' = if x' = x ∧ y' = y then v else lastAt past x' y' := by
  by_cases h : x' = x ∧ y' = y
  · obtain ⟨rfl, rfl⟩ := h
    simp [lastAt]
  · have h' : ¬(x = x' ∧ y = y') := fun ⟨hx, hy⟩ => h ⟨hx.symm, hy.symm⟩
    rw [if_neg h, lastAt, List.filter_append, List.filter_cons_of_neg (by simpa using h'),
      List.filter_nil, List.append_nil]
    rfl

/-- **A raster shows the last drawing since the last clearing.** -/
theorem colour_foldl [Zero κ] (evs : List (Event κ)) (w h : Nat) {x y : Nat}
    (hx : x < (evs.foldl Raster.apply (blank w h 0)).width)
    (hy : y < (evs.foldl Raster.apply (blank w h 0)).height) :
    (evs.foldl Raster.apply (blank w h 0)).colour x y = lastAt (sinceClear evs) x y := by
  induction evs using List.reverseRecOn with
  | nil => rfl
  | append_singleton evs ev ih =>
    rw [List.foldl_append, List.foldl_cons, List.foldl_nil] at hx hy ⊢
    rw [sinceClear_concat]
    generalize evs.foldl Raster.apply (blank w h 0) = r at ih hx hy ⊢
    cases ev with
    | clear w' h' => rfl
    | draw x' y' v =>
      rw [lastAt_concat]
      by_cases hin : x' < r.width ∧ y' < r.height
      · rw [Raster.apply, Raster.draw, if_pos hin] at hx hy ⊢
        rw [← ih hx hy]
      · -- a drawing outside the rectangle is not one at `(x, y)`
        rw [Raster.apply, Raster.draw, if_neg hin] at hx hy ⊢
        rw [if_neg, ih hx hy]
        rintro ⟨rfl, rfl⟩
        exact hin ⟨hx, hy⟩

theorem drawn_foldl [Zero κ] (evs : List (Event κ)) (r : Raster κ) :
    (evs.foldl Raster.apply r).drawn = r.drawn + hits r.width r.height evs := by
  induction evs generalizing r with
  | nil => rfl
  | cons ev evs ih =>
    rw [List.foldl_cons, ih]
    cases ev with
    | clear w h => rfl
    | draw x y v =>
      by_cases hin : x < r.width ∧ y < r.height
      · simp only [Raster.apply, Raster.draw, hits, if_pos hin]
        omega
      · simp only [Raster.apply, Raster.draw, hits, if_neg hin]
        omega

end Lib.Drawing
