import Mathlib
import Herve.Lib.Tiling

/-! The treemap layout `squarify` of `profiler_visualizer.html`, with rational numbers. -/

namespace Herve
open Tiling

structure Item (α : Type) where
  value : ℚ
  node : α

/-- A laid out item. -/
structure Rect (α : Type) extends Box ℚ where
  node : α
  value : ℚ

section Source
variable {α : Type}

/-- `row.reduce((s, c) => s + c.value, 0)` -/
def sumValues (row : List (Item α)) : ℚ := (row.map Item.value).sum

/-- Sorted descending by value, equal values in their order. -/
def sorted (children : List (Item α)) : List (Item α) :=
  children.insertionSort fun a b => b.value ≤ a.value

/-- The worst aspect ratio, `Infinity` for an empty row. -/
def worst (row : List (Item α)) (len : ℚ) : WithTop ℚ :=
  if row.length = 0 then ⊤
  else
    let rowSum := sumValues row
    let l := max len 1
    (row.foldl (fun maxR c =>
      let r := l * l * c.value / (rowSum * rowSum)
      let ratio := max r (1 / r)
      if ratio > maxR then ratio else maxR) 0 : ℚ)

/-- `while (remaining.length > 0)`, from `row` and `remaining`. -/
def fillRow (len : ℚ) : List (Item α) → List (Item α) → List (Item α) × List (Item α)
  | row, [] => (row, [])
  | row, next :: remaining =>
    if row.length > 0 ∧ worst (row ++ [next]) len > worst row len then (row, next :: remaining)
    else fillRow len (row ++ [next]) remaining

/-- `for (const c of row)` in `layoutRow`, from `curX` and `curY`. -/
def placeAll (rowSum rw rh : ℚ) : ℚ → ℚ → List (Item α) → List (Rect α) × ℚ × ℚ
  | curX, curY, [] => ([], curX, curY)
  | curX, curY, c :: row =>
    let f := c.value / rowSum
    if rw ≥ rh then
      let ch := rh * f
      let p := placeAll rowSum rw rh curX (curY + ch) row
      (⟨⟨curX, curY, rw, ch⟩, c.node, c.value⟩ :: p.1, p.2)
    else
      let cw := rw * f
      let p := placeAll rowSum rw rh (curX + cw) curY row
      (⟨⟨curX, curY, cw, rh⟩, c.node, c.value⟩ :: p.1, p.2)

/-- The rectangles of a row, and the space that remains. -/
def layoutRow (row : List (Item α)) (rx ry rw rh : ℚ) : List (Rect α) × Box ℚ :=
  let rowSum := sumValues row
  if rowSum ≤ 0 then ([], ⟨rx, ry, rw, rh⟩)
  else
    let p := placeAll rowSum rw rh rx ry row
    if rw ≥ rh then (p.1, ⟨rx, p.2.2, rw, rh - (p.2.2 - ry)⟩)
    else (p.1, ⟨p.2.1, ry, rw - (p.2.1 - rx), rh⟩)

/-- The row takes at least one item, and no item is lost. -/
theorem fillRow_append (len : ℚ) (row remaining : List (Item α)) :
    ∃ s, (fillRow len row remaining).1 = row ++ s ∧
      s ++ (fillRow len row remaining).2 = remaining := by
  induction remaining generalizing row with
  | nil => exact ⟨[], (List.append_nil _).symm, rfl⟩
  | cons next remaining ih =>
    unfold fillRow
    split_ifs
    · exact ⟨[], (List.append_nil _).symm, rfl⟩
    · obtain ⟨s, hrow, hrest⟩ := ih (row ++ [next])
      refine ⟨next :: s, ?_, ?_⟩
      · rw [hrow, List.append_assoc, List.singleton_append]
      · rw [List.cons_append, hrest]

theorem fillRow_split (len : ℚ) (c : Item α) (items : List (Item α)) :
    ∃ s, (fillRow len [] (c :: items)).1 = c :: s ∧
      s ++ (fillRow len [] (c :: items)).2 = items := by
  have hfirst : fillRow len [] (c :: items) = fillRow len [c] items :=
    if_neg fun h => absurd h.1 (Nat.lt_irrefl 0)
  rw [hfirst]
  exact fillRow_append len [c] items

theorem fillRow_length_lt (len : ℚ) (c : Item α) (items : List (Item α)) :
    (fillRow len [] (c :: items)).2.length < (c :: items).length := by
  obtain ⟨s, -, hrest⟩ := fillRow_split len c items
  rw [List.length_cons, ← congrArg List.length hrest, List.length_append]
  omega

def squarifyInner (items : List (Item α)) (rx ry rw rh itemTotal : ℚ) : List (Rect α) :=
  match items with
  | [] => []
  | [c] => [⟨⟨rx, ry, rw, rh⟩, c.node, c.value⟩]
  | c :: d :: rest =>
    let len := if rw ≥ rh then rh else rw
    let p := fillRow len [] (c :: d :: rest)
    let rowSum := sumValues p.1
    if rw ≥ rh then
      let rowH := rh * (rowSum / itemTotal)
      (layoutRow p.1 rx ry rw rowH).1 ++
        squarifyInner p.2 rx (ry + rowH) rw (rh - rowH) (itemTotal - rowSum)
    else
      let rowW := rw * (rowSum / itemTotal)
      (layoutRow p.1 rx ry rowW rh).1 ++
        squarifyInner p.2 (rx + rowW) ry (rw - rowW) rh (itemTotal - rowSum)
termination_by items.length
decreasing_by
  · exact fillRow_length_lt _ c (d :: rest)
  · exact fillRow_length_lt _ c (d :: rest)

def squarify (children : List (Item α)) (x y w h : ℚ) : List (Rect α) :=
  if children.length = 0 then []
  else
    let total := sumValues children
    if total ≤ 0 then [] else squarifyInner (sorted children) x y w h total

end Source

variable {α : Type}

def Rect.item (r : Rect α) : Item α := ⟨r.value, r.node⟩

/-- One rectangle an item, in their order, that tile the box with `d` of its area a value of 1. -/
structure Fills (b : Box ℚ) (d : ℚ) (items : List (Item α)) (rs : List (Rect α)) : Prop where
  items : rs.map Rect.item = items
  tiles : Tiles b (rs.map Rect.toBox)
  area : ∀ r ∈ rs, r.w * r.h = r.value * d

variable {b b' c : Box ℚ} {d x y w h t : ℚ} {items items' row : List (Item α)}
  {rs ss : List (Rect α)}

/-! ## Values -/

theorem sumValues_cons (c : Item α) (row : List (Item α)) :
    sumValues (c :: row) = c.value + sumValues row := by
  rw [sumValues, List.map_cons, List.sum_cons, sumValues]

theorem sumValues_append (row items : List (Item α)) :
    sumValues (row ++ items) = sumValues row + sumValues items := by
  rw [sumValues, List.map_append, List.sum_append, sumValues, sumValues]

theorem sumValues_nonneg (h : ∀ c ∈ row, 0 < c.value) : 0 ≤ sumValues row := by
  refine List.sum_nonneg fun v hv => ?_
  obtain ⟨c, hc, rfl⟩ := List.mem_map.1 hv
  exact (h c hc).le

theorem sumValues_pos {c : Item α} (h : ∀ e ∈ c :: row, 0 < e.value) :
    0 < sumValues (c :: row) := by
  rw [sumValues_cons]
  exact add_pos_of_pos_of_nonneg (h c List.mem_cons_self)
    (sumValues_nonneg fun e he => h e (List.mem_cons_of_mem c he))

/-! ## Filled boxes -/

theorem fills_nil (b : Box ℚ) (d : ℚ) : Fills b d ([] : List (Item α)) [] :=
  ⟨rfl, tiles_nil b, fun _ h => absurd h List.not_mem_nil⟩

theorem fills_singleton {c : Item α} (hw : 0 ≤ w) (hh : 0 ≤ h) (harea : w * h = c.value * d) :
    Fills ⟨x, y, w, h⟩ d [c] [⟨⟨x, y, w, h⟩, c.node, c.value⟩] := by
  refine ⟨rfl, tiles_singleton hw hh, fun r hr => ?_⟩
  rw [List.mem_singleton.1 hr]
  exact harea

theorem Fills.append (hrs : Fills b d items rs) (hss : Fills b' d items' ss)
    (htiles : Tiles c (rs.map Rect.toBox ++ ss.map Rect.toBox)) :
    Fills c d (items ++ items') (rs ++ ss) := by
  refine ⟨?_, ?_, fun r hr => ?_⟩
  · rw [List.map_append, hrs.items, hss.items]
  · rw [List.map_append]
    exact htiles
  · rcases List.mem_append.1 hr with hr | hr
    · exact hrs.area r hr
    · exact hss.area r hr

theorem Fills.append_below (hrs : Fills ⟨x, y, w, t⟩ d items rs)
    (hss : Fills ⟨x, y + t, w, h - t⟩ d items' ss) (hw : 0 ≤ w) (ht : 0 ≤ t) (hle : t ≤ h) :
    Fills ⟨x, y, w, h⟩ d (items ++ items') (rs ++ ss) :=
  hrs.append hss (hrs.tiles.append_below hss.tiles hw ht hle)

theorem Fills.append_right (hrs : Fills ⟨x, y, t, h⟩ d items rs)
    (hss : Fills ⟨x + t, y, w - t, h⟩ d items' ss) (hh : 0 ≤ h) (ht : 0 ≤ t) (hle : t ≤ w) :
    Fills ⟨x, y, w, h⟩ d (items ++ items') (rs ++ ss) :=
  hrs.append hss (hrs.tiles.append_right hss.tiles hh ht hle)

/-! ## Shares of a side -/

section Share
variable {k l m v total : ℚ}

theorem share_nonneg (hl : 0 ≤ l) (hv : 0 ≤ v) (ht : 0 ≤ total) : 0 ≤ l * (v / total) :=
  mul_nonneg hl (div_nonneg hv ht)

theorem share_le (hl : 0 ≤ l) (hv : v ≤ m) (ht : 0 ≤ total) : l * (v / total) ≤ l * (m / total) :=
  mul_le_mul_of_nonneg_left (div_le_div_of_nonneg_right hv ht) hl

theorem share_all (ht : 0 < total) : l * (total / total) = l := by
  rw [div_self ht.ne', mul_one]

/-- What is left after the first of the shares. -/
theorem share_sub (l total v m : ℚ) :
    l * ((v + m) / total) - l * (v / total) = l * (m / total) := by
  ring

theorem share_area (ht : 0 < total) (harea : k * l = total * d) :
    k * (l * (v / total)) = v * d := by
  rw [← mul_assoc, harea]
  field_simp

/-- The first share of a side, and what it leaves of the side and of the area. -/
theorem share_cut (hl : 0 ≤ l) (hv : 0 < v) (hm : 0 ≤ m) (hsum : v + m = total)
    (harea : k * l = total * d) :
    0 ≤ l * (v / total) ∧ l * (v / total) ≤ l ∧ k * (l * (v / total)) = v * d ∧
      k * (l - l * (v / total)) = (total - v) * d := by
  have ht : 0 < total := hsum ▸ add_pos_of_pos_of_nonneg hv hm
  have hpart := share_area ht harea (v := v)
  refine ⟨share_nonneg hl hv.le ht.le, ?_, hpart, ?_⟩
  · exact (share_le hl (hsum ▸ le_add_of_nonneg_right hm) ht.le).trans (share_all ht).le
  · rw [mul_sub, harea, hpart, sub_mul]

end Share

/-! ## Rows -/

section Row
variable {rowSum : ℚ} (hsum : 0 < rowSum) (hw : 0 ≤ w) (hh : 0 ≤ h) (harea : w * h = rowSum * d)
include hsum hw hh harea

/-- The items placed so far have used up their share of the height. -/
theorem placeAll_below (hle : w ≥ h) (hpos : ∀ c ∈ row, 0 < c.value) (x y : ℚ) :
    Fills ⟨x, y, w, h * (sumValues row / rowSum)⟩ d row (placeAll rowSum w h x y row).1 := by
  induction row generalizing y with
  | nil => exact fills_nil _ _
  | cons c row ih =>
    have hval := hpos c List.mem_cons_self
    have hrow : ∀ e ∈ row, 0 < e.value := fun e he => hpos e (List.mem_cons_of_mem c he)
    have hrest := ih hrow (y + h * (c.value / rowSum))
    have hfirst : Fills ⟨x, y, w, h * (c.value / rowSum)⟩ d [c]
        [⟨⟨x, y, w, h * (c.value / rowSum)⟩, c.node, c.value⟩] :=
      fills_singleton hw (share_nonneg hh hval.le hsum.le) (share_area hsum harea)
    rw [← share_sub h rowSum c.value (sumValues row)] at hrest
    unfold placeAll
    dsimp only
    rw [if_pos hle, sumValues_cons]
    exact hfirst.append_below hrest hw (share_nonneg hh hval.le hsum.le)
      (share_le hh (le_add_of_nonneg_right (sumValues_nonneg hrow)) hsum.le)

theorem placeAll_right (hlt : ¬ w ≥ h) (hpos : ∀ c ∈ row, 0 < c.value) (x y : ℚ) :
    Fills ⟨x, y, w * (sumValues row / rowSum), h⟩ d row (placeAll rowSum w h x y row).1 := by
  induction row generalizing x with
  | nil => exact fills_nil _ _
  | cons c row ih =>
    have hval := hpos c List.mem_cons_self
    have hrow : ∀ e ∈ row, 0 < e.value := fun e he => hpos e (List.mem_cons_of_mem c he)
    have hrest := ih hrow (x + w * (c.value / rowSum))
    have hfirst : Fills ⟨x, y, w * (c.value / rowSum), h⟩ d [c]
        [⟨⟨x, y, w * (c.value / rowSum), h⟩, c.node, c.value⟩] := by
      refine fills_singleton (share_nonneg hw hval.le hsum.le) hh ?_
      rw [mul_comm]
      exact share_area hsum (mul_comm w h ▸ harea)
    rw [← share_sub w rowSum c.value (sumValues row)] at hrest
    unfold placeAll
    dsimp only
    rw [if_neg hlt, sumValues_cons]
    exact hfirst.append_right hrest hh (share_nonneg hw hval.le hsum.le)
      (share_le hw (le_add_of_nonneg_right (sumValues_nonneg hrow)) hsum.le)

end Row

theorem layoutRow_fills (hpos : ∀ c ∈ row, 0 < c.value) (hsum : 0 < sumValues row) (hw : 0 ≤ w)
    (hh : 0 ≤ h) (harea : w * h = sumValues row * d) :
    Fills ⟨x, y, w, h⟩ d row (layoutRow row x y w h).1 := by
  unfold layoutRow
  dsimp only
  rw [if_neg (not_le.2 hsum)]
  by_cases hle : w ≥ h
  · have hrow := placeAll_below hsum hw hh harea hle hpos x y
    rw [share_all hsum] at hrow
    rw [if_pos hle]
    exact hrow
  · have hrow := placeAll_right hsum hw hh harea hle hpos x y
    rw [share_all hsum] at hrow
    rw [if_neg hle]
    exact hrow

/-! ## The whole layout -/

section Split
variable {c e : Item α} {rest : List (Item α)} {len total : ℚ}

/-- How a row divides the items and their values. -/
theorem fillRow_values (hfill : fillRow len [] (c :: items) = (row, rest))
    (hpos : ∀ e ∈ c :: items, 0 < e.value) :
    row ++ rest = c :: items ∧ (∀ e ∈ row, 0 < e.value) ∧ (∀ e ∈ rest, 0 < e.value) ∧
      0 < sumValues row ∧ sumValues row + sumValues rest = sumValues (c :: items) ∧
      rest.length < (c :: items).length := by
  have hlt := fillRow_length_lt len c items
  obtain ⟨s, hrow, hrest⟩ := fillRow_split len c items
  rw [hfill] at hlt hrow hrest
  dsimp only at hlt hrow hrest
  have happ : row ++ rest = c :: items := by
    rw [hrow, List.cons_append, hrest]
  have hleft : ∀ e ∈ row, 0 < e.value := fun e he => hpos e (happ ▸ List.mem_append_left _ he)
  refine ⟨happ, hleft, fun e he => hpos e (happ ▸ List.mem_append_right _ he), ?_, ?_, hlt⟩
  · rw [hrow] at hleft ⊢
    exact sumValues_pos hleft
  · rw [← happ, sumValues_append]

theorem squarifyInner_below (hle : w ≥ h) (hfill : fillRow h [] (c :: e :: items) = (row, rest)) :
    squarifyInner (c :: e :: items) x y w h total =
      (layoutRow row x y w (h * (sumValues row / total))).1 ++
        squarifyInner rest x (y + h * (sumValues row / total)) w
          (h - h * (sumValues row / total)) (total - sumValues row) := by
  rw [squarifyInner]
  dsimp only
  rw [if_pos hle, if_pos hle, hfill]

theorem squarifyInner_right (hlt : ¬ w ≥ h)
    (hfill : fillRow w [] (c :: e :: items) = (row, rest)) :
    squarifyInner (c :: e :: items) x y w h total =
      (layoutRow row x y (w * (sumValues row / total)) h).1 ++
        squarifyInner rest (x + w * (sumValues row / total)) y
          (w - w * (sumValues row / total)) h (total - sumValues row) := by
  rw [squarifyInner]
  dsimp only
  rw [if_neg hlt, if_neg hlt, hfill]

end Split

/-- Every row and what remains after it keep the area that a value of 1 gets. -/
theorem squarifyInner_fills (n : ℕ) {itemTotal : ℚ} (hn : items.length ≤ n)
    (hpos : ∀ c ∈ items, 0 < c.value) (hw : 0 ≤ w) (hh : 0 ≤ h)
    (htotal : sumValues items = itemTotal) (harea : w * h = itemTotal * d) :
    Fills ⟨x, y, w, h⟩ d items (squarifyInner items x y w h itemTotal) := by
  induction n generalizing items x y w h itemTotal with
  | zero =>
    rw [List.length_eq_zero_iff.1 (Nat.le_zero.1 hn), squarifyInner]
    exact fills_nil _ _
  | succ n ih =>
    match items with
    | [] =>
      rw [squarifyInner]
      exact fills_nil _ _
    | [c] =>
      rw [squarifyInner]
      refine fills_singleton hw hh ?_
      rw [harea, ← htotal, sumValues_cons]
      exact congrArg (· * d) (add_zero c.value)
    | c :: e :: items =>
      by_cases hle : w ≥ h
      · rcases hfill : fillRow h [] (c :: e :: items) with ⟨row, rest⟩
        obtain ⟨happ, hrow, hrest, hsum, hsplit, hlen⟩ := fillRow_values hfill hpos
        rw [htotal] at hsplit
        obtain ⟨ht, htle, hrowArea, hrestArea⟩ :=
          share_cut hh hsum (sumValues_nonneg hrest) hsplit harea
        have hrects := layoutRow_fills (x := x) (y := y) hrow hsum hw ht hrowArea
        have hinner := ih (x := x) (y := y + h * (sumValues row / itemTotal)) (by omega) hrest hw
          (sub_nonneg.2 htle) (eq_sub_of_add_eq' hsplit) hrestArea
        rw [squarifyInner_below hle hfill, ← happ]
        exact hrects.append_below hinner hw ht htle
      · rcases hfill : fillRow w [] (c :: e :: items) with ⟨row, rest⟩
        obtain ⟨happ, hrow, hrest, hsum, hsplit, hlen⟩ := fillRow_values hfill hpos
        rw [htotal] at hsplit
        obtain ⟨ht, htle, hrowArea, hrestArea⟩ :=
          share_cut hw hsum (sumValues_nonneg hrest) hsplit (mul_comm w h ▸ harea)
        rw [mul_comm] at hrowArea hrestArea
        have hrects := layoutRow_fills (x := x) (y := y) hrow hsum ht hh hrowArea
        have hinner := ih (x := x + w * (sumValues row / itemTotal)) (y := y) (by omega) hrest
          (sub_nonneg.2 htle) hh (eq_sub_of_add_eq' hsplit) hrestArea
        rw [squarifyInner_right hle hfill, ← happ]
        exact hrects.append_right hinner hh ht htle

theorem sorted_perm (children : List (Item α)) : (sorted children).Perm children :=
  List.perm_insertionSort _ _

theorem squarify_fills {children : List (Item α)} (hpos : ∀ c ∈ children, 0 < c.value)
    (hw : 0 ≤ w) (hh : 0 ≤ h) :
    Fills ⟨x, y, w, h⟩ (w * h / sumValues children) (sorted children)
      (squarify children x y w h) := by
  unfold squarify
  cases children with
  | nil => exact fills_nil _ _
  | cons c children =>
    have hsum := sumValues_pos hpos
    have hperm := sorted_perm (c :: children)
    have htotal : sumValues (sorted (c :: children)) = sumValues (c :: children) :=
      (hperm.map Item.value).sum_eq
    dsimp only
    rw [if_neg (show ¬(c :: children).length = 0 from Nat.succ_ne_zero _), if_neg (not_le.2 hsum)]
    refine squarifyInner_fills _ le_rfl (fun e he => hpos e (hperm.mem_iff.1 he)) hw hh htotal ?_
    exact (mul_div_cancel₀ _ hsum.ne').symm

/-- One rectangle an item inside the given one, no two of them overlap, and the areas are those
of the values. -/
theorem squarify_tiles {children : List (Item α)} (hpos : ∀ c ∈ children, 0 < c.value)
    (hw : 0 < w) (hh : 0 < h) (x y : ℚ) :
    ((squarify children x y w h).map Rect.item).Perm children ∧
      (∀ r ∈ squarify children x y w h, r.toBox.Inside ⟨x, y, w, h⟩) ∧
      (squarify children x y w h).Pairwise
        (fun r s => Disjoint r.toBox.interior s.toBox.interior) ∧
      ∀ r ∈ squarify children x y w h, r.w * r.h = r.value / sumValues children * (w * h) := by
  have hfills := squarify_fills (x := x) (y := y) hpos hw.le hh.le
  refine ⟨?_, fun r hr => ?_, ?_, fun r hr => ?_⟩
  · rw [hfills.items]
    exact sorted_perm children
  · exact hfills.tiles.inside _ (List.mem_map_of_mem hr)
  · exact (List.pairwise_map (f := Rect.toBox)).1 hfills.tiles.disjoint
  · rw [hfills.area r hr]
    ring

/-- Values 1 and 2 in a box 3 wide and 2 high: a rectangle for each, of areas 2 and 4. -/
theorem squarify_tiles_two :
    let rs := squarify [⟨1, 0⟩, (⟨2, 1⟩ : Item ℕ)] 0 0 3 2
    (rs.map Rect.item).Perm [⟨1, 0⟩, ⟨2, 1⟩] ∧ (∀ r ∈ rs, r.toBox.Inside ⟨0, 0, 3, 2⟩) ∧
      rs.Pairwise (fun r s => Disjoint r.toBox.interior s.toBox.interior) ∧
      ∀ r ∈ rs, r.w * r.h = 2 * r.value := by
  have hpos : ∀ c ∈ [⟨1, 0⟩, (⟨2, 1⟩ : Item ℕ)], 0 < c.value := by simp
  have hsum : sumValues [⟨1, 0⟩, (⟨2, 1⟩ : Item ℕ)] = 3 := by
    norm_num [sumValues]
  obtain ⟨hitems, hinside, hdisj, harea⟩ := squarify_tiles hpos (by norm_num : (0 : ℚ) < 3)
    (by norm_num : (0 : ℚ) < 2) 0 0
  refine ⟨hitems, hinside, hdisj, fun r hr => ?_⟩
  rw [harea r hr, hsum]
  ring

end Herve
