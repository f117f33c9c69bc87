import Mathlib

/-! Boxes in the plane, and lists of boxes inside one that do not overlap; intervals laid one after
the other. -/

namespace Tiling
universe u v

structure Box (K : Type u) where
  x : K
  y : K
  w : K
  h : K

variable {K : Type u} [AddCommGroup K] [LinearOrder K]

namespace Box

def interior (b : Box K) : Set (K × K) := Set.Ioo b.x (b.x + b.w) ×ˢ Set.Ioo b.y (b.y + b.h)

structure Inside (r b : Box K) : Prop where
  w_nonneg : 0 ≤ r.w
  h_nonneg : 0 ≤ r.h
  left : b.x ≤ r.x
  right : r.x + r.w ≤ b.x + b.w
  top : b.y ≤ r.y
  bottom : r.y + r.h ≤ b.y + b.h

variable {b r s : Box K}

theorem inside_self (hw : 0 ≤ b.w) (hh : 0 ≤ b.h) : b.Inside b :=
  ⟨hw, hh, le_rfl, le_rfl, le_rfl, le_rfl⟩

theorem Inside.trans (hr : r.Inside s) (hs : s.Inside b) : r.Inside b :=
  ⟨hr.w_nonneg, hr.h_nonneg, hs.left.trans hr.left, hr.right.trans hs.right, hs.top.trans hr.top,
    hr.bottom.trans hs.bottom⟩

theorem Inside.interior_subset (h : r.Inside b) : r.interior ⊆ b.interior :=
  Set.prod_mono (Set.Ioo_subset_Ioo h.left h.right) (Set.Ioo_subset_Ioo h.top h.bottom)

theorem disjoint_of_left (h : r.x + r.w ≤ s.x) : Disjoint r.interior s.interior := by
  refine Set.disjoint_left.2 fun p hr hs => ?_
  exact (hr.1.2.trans_le h).not_gt hs.1.1

theorem disjoint_of_above (h : r.y + r.h ≤ s.y) : Disjoint r.interior s.interior := by
  refine Set.disjoint_left.2 fun p hr hs => ?_
  exact (hr.2.2.trans_le h).not_gt hs.2.1

end Box

structure Tiles (b : Box K) (rs : List (Box K)) : Prop where
  inside : ∀ r ∈ rs, r.Inside b
  disjoint : rs.Pairwise fun r s => Disjoint r.interior s.interior

variable {b c d : Box K} {rs ss : List (Box K)}

theorem tiles_nil (b : Box K) : Tiles b [] := ⟨fun _ h => absurd h List.not_mem_nil, .nil⟩

theorem tiles_singleton (hw : 0 ≤ b.w) (hh : 0 ≤ b.h) : Tiles b [b] := by
  refine ⟨fun r hr => ?_, List.pairwise_singleton _ _⟩
  rw [List.mem_singleton.1 hr]
  exact Box.inside_self hw hh

/-- Two tilings of parts that do not overlap make one of the whole. -/
theorem Tiles.append (hrs : Tiles c rs) (hss : Tiles d ss) (hc : c.Inside b) (hd : d.Inside b)
    (hdisj : Disjoint c.interior d.interior) : Tiles b (rs ++ ss) := by
  refine ⟨fun r hr => ?_, List.pairwise_append.2 ⟨hrs.disjoint, hss.disjoint, fun r hr s hs => ?_⟩⟩
  · rcases List.mem_append.1 hr with hr | hr
    · exact (hrs.inside r hr).trans hc
    · exact (hss.inside r hr).trans hd
  · exact hdisj.mono (hrs.inside r hr).interior_subset (hss.inside s hs).interior_subset

/-! ## Cuts -/

section Cuts
variable [IsOrderedAddMonoid K] {x y w h t : K}

theorem Tiles.append_below (hrs : Tiles ⟨x, y, w, t⟩ rs) (hss : Tiles ⟨x, y + t, w, h - t⟩ ss)
    (hw : 0 ≤ w) (ht : 0 ≤ t) (hle : t ≤ h) : Tiles ⟨x, y, w, h⟩ (rs ++ ss) := by
  refine hrs.append hss ⟨hw, ht, le_rfl, le_rfl, le_rfl, add_le_add_right hle y⟩
    ⟨hw, sub_nonneg.2 hle, le_rfl, le_rfl, le_add_of_nonneg_right ht, ?_⟩
    (Box.disjoint_of_above le_rfl)
  rw [add_assoc, add_sub_cancel]

theorem Tiles.append_right (hrs : Tiles ⟨x, y, t, h⟩ rs) (hss : Tiles ⟨x + t, y, w - t, h⟩ ss)
    (hh : 0 ≤ h) (ht : 0 ≤ t) (hle : t ≤ w) : Tiles ⟨x, y, w, h⟩ (rs ++ ss) := by
  refine hrs.append hss ⟨ht, hh, le_rfl, add_le_add_right hle x, le_rfl, le_rfl⟩
    ⟨sub_nonneg.2 hle, hh, le_add_of_nonneg_right ht, ?_, le_rfl, le_rfl⟩
    (Box.disjoint_of_left le_rfl)
  rw [add_assoc, add_sub_cancel]

end Cuts

/-! ## Intervals -/

section Intervals
variable [IsOrderedAddMonoid K] {α : Type v} {start size : α → K} {x : K} {as : List α}

/-- From `x` on each interval starts where the one before it ends. -/
inductive Consecutive (start size : α → K) : K → List α → Prop
  | nil (x : K) : Consecutive start size x []
  | cons {a : α} {as : List α} (nonneg : 0 ≤ size a)
      (rest : Consecutive start size (start a + size a) as) :
      Consecutive start size (start a) (a :: as)

theorem Consecutive.bounds (h : Consecutive start size x as) :
    0 ≤ (as.map size).sum ∧
      ∀ a ∈ as, x ≤ start a ∧ start a + size a ≤ x + (as.map size).sum := by
  induction h with
  | nil x => exact ⟨le_rfl, fun _ ha => absurd ha List.not_mem_nil⟩
  | cons nonneg _ ih =>
    rw [List.map_cons, List.sum_cons]
    refine ⟨add_nonneg nonneg ih.1, fun b hb => ?_⟩
    rw [← add_assoc]
    rcases List.mem_cons.1 hb with rfl | hb
    · exact ⟨le_rfl, le_add_of_nonneg_right ih.1⟩
    · exact ⟨(le_add_of_nonneg_right nonneg).trans (ih.2 b hb).1, (ih.2 b hb).2⟩

theorem Consecutive.apart (h : Consecutive start size x as) :
    as.Pairwise fun a b =>
      Disjoint (Set.Ioo (start a) (start a + size a)) (Set.Ioo (start b) (start b + size b)) := by
  induction h with
  | nil => exact .nil
  | cons _ rest ih =>
    refine .cons (fun b hb => Set.disjoint_left.2 fun p hp hp' => ?_) ih
    exact (hp.2.trans_le (rest.bounds.2 b hb).1).not_gt hp'.1

omit [IsOrderedAddMonoid K] in
theorem Consecutive.map {β : Type v} {g : α → β} {start' size' : β → K}
    (h : Consecutive start size x as) (hstart : ∀ a, start' (g a) = start a)
    (hsize : ∀ a, size' (g a) = size a) : Consecutive start' size' x (as.map g) := by
  induction h with
  | nil x => exact .nil x
  | @cons a as nonneg rest ih =>
    rw [← hstart a]
    refine .cons (by rwa [hsize]) ?_
    rw [hstart, hsize]
    exact ih

/-- Tilings of the columns over consecutive intervals make one of a box that is wide enough. -/
theorem Consecutive.tiles {y w h : K} {f : α → List (Box K)} (hcons : Consecutive start size x as)
    (hf : ∀ a ∈ as, Tiles ⟨start a, y, size a, h⟩ (f a)) (hh : 0 ≤ h)
    (hw : (as.map size).sum ≤ w) : Tiles ⟨x, y, w, h⟩ (as.flatMap f) := by
  induction hcons generalizing w with
  | nil x => exact tiles_nil _
  | @cons a as nonneg rest ih =>
    rw [List.map_cons, List.sum_cons] at hw
    have hle : size a ≤ w := (le_add_of_nonneg_right rest.bounds.1).trans hw
    rw [List.flatMap_cons]
    exact (hf a List.mem_cons_self).append_right
      (ih (fun b hb => hf b (List.mem_cons_of_mem _ hb)) (le_sub_iff_add_le'.2 hw)) hh nonneg hle

end Intervals

end Tiling
