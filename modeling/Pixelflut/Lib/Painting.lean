import Pixelflut.Lib.Drawing

/-!
# Drawings that agree

A list of drawings in which every place has one value leaves the same picture in any
order and with any repetition: `colour_paint`. `paint_append` puts lists together that
do not agree with one another.
-/

namespace Lib.Drawing

variable {κ : Type}

abbrev Dot (κ : Type) := Nat × Nat × κ

def Raster.paint (r : Raster κ) (ds : List (Dot κ)) : Raster κ :=
  ds.foldl (fun r d => r.draw d.1 d.2.1 d.2.2) r

/-- Where something is drawn. -/
def places (ds : List (Dot κ)) : List (Nat × Nat) := ds.map fun d => (d.1, d.2.1)

theorem mem_places_append {ds ds' : List (Dot κ)} {p : Nat × Nat} :
    p ∈ places (ds ++ ds') ↔ p ∈ places ds ∨ p ∈ places ds' := by
  rw [places, List.map_append, List.mem_append]
  rfl

theorem foldl_draw [Zero κ] (r : Raster κ) (ds : List (Dot κ)) :
    (ds.map fun d => Event.draw d.1 d.2.1 d.2.2).foldl Raster.apply r = r.paint ds := by
  rw [List.foldl_map]
  rfl

@[simp] theorem paint_nil (r : Raster κ) : r.paint [] = r := rfl

theorem paint_append (r : Raster κ) (ds ds' : List (Dot κ)) :
    r.paint (ds ++ ds') = (r.paint ds).paint ds' :=
  List.foldl_append

theorem draw_size (r : Raster κ) (x y : Nat) (v : κ) :
    (r.draw x y v).width = r.width ∧ (r.draw x y v).height = r.height := by
  unfold Raster.draw
  split
  · exact ⟨rfl, rfl⟩
  · exact ⟨rfl, rfl⟩

theorem colour_draw {r : Raster κ} {x y : Nat} (hx : x < r.width) (hy : y < r.height) (x' y' : Nat)
    (v : κ) : (r.draw x' y' v).colour x y = if x = x' ∧ y = y' then v else r.colour x y := by
  unfold Raster.draw
  split
  · rfl
  · next hout =>
    rw [if_neg]
    rintro ⟨rfl, rfl⟩
    exact hout ⟨hx, hy⟩

theorem paint_size (r : Raster κ) (ds : List (Dot κ)) :
    (r.paint ds).width = r.width ∧ (r.paint ds).height = r.height := by
  induction ds generalizing r with
  | nil => exact ⟨rfl, rfl⟩
  | cons d ds ih =>
    obtain ⟨hw, hh⟩ := ih (r.draw d.1 d.2.1 d.2.2)
    obtain ⟨hw', hh'⟩ := draw_size r d.1 d.2.1 d.2.2
    exact ⟨hw.trans hw', hh.trans hh'⟩

/-- **Neither the order nor the repetitions matter.** -/
theorem colour_paint {r : Raster κ} {ds : List (Dot κ)} {c : Nat → Nat → κ}
    (hc : ∀ d ∈ ds, d.2.2 = c d.1 d.2.1) {x y : Nat} (hx : x < r.width) (hy : y < r.height) :
    (r.paint ds).colour x y = if (x, y) ∈ places ds then c x y else r.colour x y := by
  induction ds using List.reverseRecOn with
  | nil => simp [places]
  | append_singleton ds d ih =>
    obtain ⟨hw, hh⟩ := paint_size r ds
    have ih := ih fun d hd => hc d (List.mem_append_left _ hd)
    have hd := hc d (by simp)
    rw [paint_append]
    show ((r.paint ds).draw d.1 d.2.1 d.2.2).colour x y = _
    rw [colour_draw (hw ▸ hx) (hh ▸ hy), ih]
    have hplace : (x, y) ∈ places (ds ++ [d]) ↔ (x, y) ∈ places ds ∨ (x = d.1 ∧ y = d.2.1) := by
      rw [mem_places_append]
      simp [places]
    by_cases he : x = d.1 ∧ y = d.2.1
    · rw [if_pos he, if_pos (hplace.mpr (Or.inr he)), hd, he.1, he.2]
    · simp only [hplace, he, or_false, ↓reduceIte]

theorem drawn_paint {r : Raster κ} {ds : List (Dot κ)}
    (hin : ∀ d ∈ ds, d.1 < r.width ∧ d.2.1 < r.height) :
    (r.paint ds).drawn = r.drawn + ds.length := by
  induction ds generalizing r with
  | nil => rfl
  | cons d ds ih =>
    obtain ⟨hw, hh⟩ := draw_size r d.1 d.2.1 d.2.2
    have ih := @ih (r.draw d.1 d.2.1 d.2.2) fun d' hd' => by
      rw [hw, hh]
      exact hin d' (List.mem_cons_of_mem d hd')
    have hdrawn : (r.draw d.1 d.2.1 d.2.2).drawn = r.drawn + 1 := by
      rw [Raster.draw, if_pos (hin d List.mem_cons_self)]
    rw [List.length_cons, Nat.add_comm ds.length, ← Nat.add_assoc, ← hdrawn]
    exact ih

end Lib.Drawing
