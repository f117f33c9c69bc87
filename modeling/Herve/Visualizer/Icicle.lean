import Herve.Lib.Rose
import Herve.Lib.Tiling
import Herve.Profile.Hierarchy

/-! The hierarchy that `profiler_visualizer.html` builds from a profile, and its icicle layout, with
rational numbers. -/

namespace Herve
open Tiling

structure NodeData (F : Type) where
  name : CStr
  totalCycles : ℚ
  calls : ℚ
  cyclesPerCall : CyclesPerCall F
  pct : ℚ
  instructions : List (CStr × InsnEntry)
  parentPct : Option ℚ

abbrev Node (F : Type) := Rose (NodeData F)

structure IcicleRect (F : Type) where
  node : Node F
  x : ℚ
  y : ℚ
  w : ℚ
  h : ℚ
  level : ℕ

structure Icicle (F : Type) where
  allRects : List (IcicleRect F)
  rows : List (List (IcicleRect F))

section Source
variable {F : Type}

/-! ## `buildHierarchy` -/

/-- `meta.total_cycles || 1`, an integer as `parse_csv` has read it. -/
def metaTotal (profileData : Hierarchy F) : ℚ :=
  match Dict.get (ascii "total_cycles") profileData.metadata with
  | some (.int n) => if n = 0 then 1 else n
  | _ => 1

def setParentPct (total : ℚ) : Node F → Node F
  | .node child children =>
    .node { child with
      parentPct := some (if total > 0 then child.totalCycles / total * 100 else 0) } children

def build (profileData : Hierarchy F) (d : ℕ) (name : CStr) : Option (Node F) :=
  (Dict.get name profileData.functions).map fun f =>
    let children : List (Node F) :=
      match d with
      | 0 => []
      | d + 1 => f.subFunctions.filterMap fun c =>
        (build profileData d c.1).map (setParentPct f.totalCycles)
    .node
      { name := name
        totalCycles := f.totalCycles
        calls := f.calls
        cyclesPerCall := f.cyclesPerCall
        pct := f.totalCycles / metaTotal profileData * 100
        instructions := f.instructions
        parentPct := none }
      (children.insertionSort fun a b => b.value.totalCycles ≤ a.value.totalCycles)

def buildHierarchy (profileData : Hierarchy F) (funcName : CStr) (depth : ℕ) : Option (Node F) :=
  build profileData depth funcName

/-! ## `layoutIcicle` -/

/-- The rectangle that `collect` makes; its width is a share of the whole canvas. -/
def nodeRect (canvasW rowH : ℚ) (n : Node F) (level : ℕ) (xOffset parentTotal : ℚ) :
    IcicleRect F where
  node := n
  x := xOffset
  y := level * rowH
  w := if parentTotal > 0 then n.value.totalCycles / parentTotal * canvasW else canvasW
  h := rowH
  level := level

/-- `while (rows.length <= level) rows.push([])`, and `rect` in both lists. -/
def Icicle.push (out : Icicle F) (rect : IcicleRect F) : Icicle F where
  allRects := out.allRects ++ [rect]
  rows := (out.rows ++ List.replicate (rect.level + 1 - out.rows.length) []).modify rect.level
    (· ++ [rect])

mutual
def collect (canvasW rowH : ℚ) : Node F → ℕ → ℚ → ℚ → Icicle F → Icicle F
  | .node d children, level, xOffset, parentTotal, out =>
    let rect := nodeRect canvasW rowH (.node d children) level xOffset parentTotal
    collectChildren canvasW rowH children d.totalCycles rect.w (level + 1) xOffset (out.push rect)

/-- `for (const child of n.children)`, from `cx`. -/
def collectChildren (canvasW rowH : ℚ) : List (Node F) → ℚ → ℚ → ℕ → ℚ → Icicle F → Icicle F
  | [], _, _, _, _, out => out
  | child :: children, total, w, level, cx, out =>
    collectChildren canvasW rowH children total w level
      (cx + child.value.totalCycles / total * w) (collect canvasW rowH child level cx total out)
end

def layoutIcicle (node : Node F) (canvasW rowH : ℚ) : Icicle F :=
  let total := if node.value.totalCycles = 0 then 1 else node.value.totalCycles
  collect canvasW rowH node 0 0 total ⟨[], []⟩

end Source

variable {F : Type} {canvasW rowH total w x cx parentTotal : ℚ} {level : ℕ} {d : NodeData F}
  {n : Node F} {children : List (Node F)} {out : Icicle F}

/-! ## What the layout should be -/

/-- Every total is positive, and at least the sum of those of the children. -/
structure TotalsFit (d : NodeData F) (children : List (NodeData F)) : Prop where
  pos : 0 < d.totalCycles
  sum_le : (children.map NodeData.totalCycles).sum ≤ d.totalCycles

structure IntervalsNest (r : IcicleRect F) (children : List (IcicleRect F)) : Prop where
  inside : ∀ c ∈ children, r.x ≤ c.x ∧ c.x + c.w ≤ r.x + r.w
  width : ∀ c ∈ children,
    c.w = c.node.value.totalCycles / r.node.value.totalCycles * r.w
  apart : children.Pairwise fun c c' =>
    Disjoint (Set.Ioo c.x (c.x + c.w)) (Set.Ioo c'.x (c'.x + c'.w))

/-- The list of rectangles as a tree of the hierarchy's shape has nested intervals everywhere. -/
def Nests (n : Node F) (rects : List (IcicleRect F)) : Prop :=
  ∃ t : Rose (IcicleRect F), t.map (fun r => r.node.value) = n ∧ t.preorder = rects ∧
    t.Each IntervalsNest

/-! ## Profiles -/

/-- Every function has cycles, and at least as many as its callees have together. -/
def CoversCallees (p : Hierarchy F) : Prop :=
  ∀ name f, Dict.get name p.functions = some f → 0 < f.totalCycles ∧
    (f.subFunctions.map fun c =>
      ((Dict.get c.1 p.functions).map FuncEntry.totalCycles).getD 0).sum ≤ f.totalCycles

theorem build_total (p : Hierarchy F) (d : ℕ) (name : CStr) :
    (build p d name).map (fun n => n.value.totalCycles) =
      (Dict.get name p.functions).map fun f => (f.totalCycles : ℚ) := by
  cases d <;> rw [build, Option.map_map] <;> rfl

theorem value_setParentPct (t : ℚ) (n : Node F) :
    (setParentPct t n).value.totalCycles = n.value.totalCycles := by
  cases n
  rfl

theorem each_setParentPct (t : ℚ) (h : n.Each TotalsFit) : (setParentPct t n).Each TotalsFit := by
  obtain ⟨hroot, hbelow⟩ := h
  exact .node ⟨hroot.pos, hroot.sum_le⟩ hbelow

/-- The nodes below a function have the totals of its callees. -/
theorem callees_sum (p : Hierarchy F) (d : ℕ) (t : ℚ) (callees : List (CStr × ℤ)) :
    (((callees.filterMap fun c => (build p d c.1).map (setParentPct t)).map Rose.value).map
      NodeData.totalCycles).sum =
      ((callees.map fun c => ((Dict.get c.1 p.functions).map FuncEntry.totalCycles).getD 0).sum :
        ℤ) := by
  induction callees with
  | nil => rfl
  | cons c callees ih =>
    have htotal := build_total p d c.1
    rw [List.map_cons, List.sum_cons, Int.cast_add, ← ih]
    cases hc : build p d c.1 with
    | none =>
      rw [hc] at htotal
      rw [List.filterMap_cons_none (by rw [hc]; rfl), Option.map_eq_none_iff.1 htotal.symm]
      simp
    | some child =>
      rw [hc] at htotal
      obtain ⟨f, hf, hval⟩ := Option.map_eq_some_iff.1 htotal.symm
      have hchild : child.value.totalCycles = f.totalCycles := hval.symm
      rw [List.filterMap_cons_some (by rw [hc]; rfl), List.map_cons, List.map_cons, List.sum_cons,
        value_setParentPct, hchild, hf]
      rfl

/-- From such a profile only hierarchies are built that the layout is meant for. -/
theorem buildHierarchy_totalsFit {p : Hierarchy F} (hp : CoversCallees p) {depth : ℕ}
    {name : CStr} (h : buildHierarchy p name depth = some n) : n.Each TotalsFit := by
  induction depth generalizing name n with
  | zero =>
    rw [buildHierarchy, build] at h
    obtain ⟨f, hf, rfl⟩ := Option.map_eq_some_iff.1 h
    have hpos : (0 : ℚ) < f.totalCycles := Int.cast_pos.2 (hp name f hf).1
    exact .node ⟨hpos, hpos.le⟩ fun c hc => absurd hc List.not_mem_nil
  | succ depth ih =>
    rw [buildHierarchy, build] at h
    obtain ⟨f, hf, rfl⟩ := Option.map_eq_some_iff.1 h
    obtain ⟨hpos, hsum⟩ := hp name f hf
    have hperm := List.perm_insertionSort
      (fun a b : Node F => b.value.totalCycles ≤ a.value.totalCycles)
      (f.subFunctions.filterMap fun c => (build p depth c.1).map (setParentPct f.totalCycles))
    refine .node ⟨Int.cast_pos.2 hpos, ?_⟩ fun c hc => ?_
    · rw [((hperm.map Rose.value).map NodeData.totalCycles).sum_eq, callees_sum]
      exact Int.cast_le.2 hsum
    · obtain ⟨e, -, he⟩ := List.mem_filterMap.1 (hperm.mem_iff.1 hc)
      obtain ⟨child, hchild, rfl⟩ := Option.map_eq_some_iff.1 he
      exact each_setParentPct _ (ih hchild)

/-! ## The tree of rectangles -/

mutual
def placed (canvasW rowH : ℚ) : Node F → ℕ → ℚ → ℚ → Rose (IcicleRect F)
  | .node d children, level, xOffset, parentTotal =>
    let rect := nodeRect canvasW rowH (.node d children) level xOffset parentTotal
    .node rect (placedChildren canvasW rowH children d.totalCycles rect.w (level + 1) xOffset)

def placedChildren (canvasW rowH : ℚ) :
    List (Node F) → ℚ → ℚ → ℕ → ℚ → List (Rose (IcicleRect F))
  | [], _, _, _, _ => []
  | child :: children, total, w, level, cx =>
    placed canvasW rowH child level cx total ::
      placedChildren canvasW rowH children total w level (cx + child.value.totalCycles / total * w)
end

theorem placed_node :
    placed canvasW rowH (.node d children) level x parentTotal =
      .node (nodeRect canvasW rowH (.node d children) level x parentTotal)
        (placedChildren canvasW rowH children d.totalCycles
          (nodeRect canvasW rowH (.node d children) level x parentTotal).w (level + 1) x) := by
  rw [placed]

theorem placed_value :
    (placed canvasW rowH n level x parentTotal).value =
      nodeRect canvasW rowH n level x parentTotal := by
  cases n
  rw [placed_node, Rose.value_node]

theorem allRects_pushAll (rects : List (IcicleRect F)) :
    (rects.foldl Icicle.push out).allRects = out.allRects ++ rects := by
  induction rects generalizing out with
  | nil => exact (List.append_nil _).symm
  | cons rect rects ih =>
    rw [List.foldl_cons, ih, Icicle.push, List.append_assoc, List.singleton_append]

/-- `collect` pushes the rectangles of the tree, every parent before its children. -/
theorem collect_eq (n : Node F) (level : ℕ) (x parentTotal : ℚ) (out : Icicle F) :
    collect canvasW rowH n level x parentTotal out =
      (placed canvasW rowH n level x parentTotal).preorder.foldl Icicle.push out := by
  induction n using Rose.induction generalizing level x parentTotal out with
  | node d children ih =>
    rw [collect, placed_node, Rose.preorder_node, List.foldl_cons]
    generalize (nodeRect canvasW rowH (.node d children) level x parentTotal).w = w
    generalize out.push _ = out
    induction children generalizing x out with
    | nil => rw [collectChildren, placedChildren, Rose.preorderAll_nil, List.foldl_nil]
    | cons child children ihs =>
      rw [collectChildren, placedChildren, Rose.preorderAll_cons, List.foldl_append,
        ih child List.mem_cons_self, ihs fun c hc => ih c (List.mem_cons_of_mem _ hc)]

/-- The rows hold the rectangles of their level, in the order of `allRects`. -/
def RowsByLevel (out : Icicle F) : Prop :=
  ∀ l, (out.rows[l]?).getD [] = out.allRects.filter fun r => r.level = l

theorem rowsByLevel_push (h : RowsByLevel out) (rect : IcicleRect F) :
    RowsByLevel (out.push rect) := by
  intro l
  have hpad : ((out.rows ++ List.replicate (rect.level + 1 - out.rows.length) [])[l]?).getD [] =
      (out.rows[l]?).getD [] := by
    rcases Nat.lt_or_ge l out.rows.length with hlt | hge
    · rw [List.getElem?_append_left hlt]
    · rw [List.getElem?_append_right hge, List.getElem?_eq_none hge, List.getElem?_replicate]
      split_ifs <;> rfl
  unfold Icicle.push
  dsimp only
  rw [List.filter_append, ← h l, ← hpad]
  by_cases hl : rect.level = l
  · subst hl
    have hlt : rect.level < (out.rows ++
        List.replicate (rect.level + 1 - out.rows.length) []).length := by
      rw [List.length_append, List.length_replicate]
      omega
    rw [List.getElem?_modify_eq, List.getElem?_eq_getElem hlt]
    simp
  · rw [List.getElem?_modify_ne _ _ hl]
    simp [hl]

theorem layoutIcicle_rows (n : Node F) (canvasW rowH : ℚ) :
    RowsByLevel (layoutIcicle n canvasW rowH) := by
  have hpush : ∀ (rects : List (IcicleRect F)) (out : Icicle F), RowsByLevel out →
      RowsByLevel (rects.foldl Icicle.push out) := by
    intro rects
    induction rects with
    | nil => exact fun _ h => h
    | cons rect rects ih => exact fun out h => ih _ (rowsByLevel_push h rect)
  rw [layoutIcicle, collect_eq]
  exact hpush _ _ fun l => rfl

theorem placed_map (canvasW rowH : ℚ) (n : Node F) (level : ℕ) (x parentTotal : ℚ) :
    (placed canvasW rowH n level x parentTotal).map (fun r => r.node.value) = n := by
  induction n using Rose.induction generalizing level x parentTotal with
  | node d children ih =>
    rw [placed_node, Rose.map_node]
    generalize (nodeRect canvasW rowH (.node d children) level x parentTotal).w = w
    refine congrArg (Rose.node d) ?_
    induction children generalizing x with
    | nil => rw [placedChildren, List.map_nil]
    | cons child children ihs =>
      rw [placedChildren, List.map_cons, ih child List.mem_cons_self,
        ihs fun c hc => ih c (List.mem_cons_of_mem _ hc)]

/-! ## Siblings -/

theorem nodeRect_w (h : 0 < parentTotal) :
    (nodeRect canvasW rowH n level x parentTotal).w =
      n.value.totalCycles / parentTotal * canvasW := if_pos h

/-- Every child has one rectangle, at an offset that depends on those before it. -/
theorem mem_placedChildren {t : Rose (IcicleRect F)}
    (ht : t ∈ placedChildren canvasW rowH children total w level cx) :
    ∃ c ∈ children, ∃ cx', t = placed canvasW rowH c level cx' total := by
  induction children generalizing cx with
  | nil =>
    rw [placedChildren] at ht
    exact absurd ht List.not_mem_nil
  | cons child children ih =>
    rw [placedChildren] at ht
    rcases List.mem_cons.1 ht with rfl | ht
    · exact ⟨child, List.mem_cons_self, cx, rfl⟩
    · obtain ⟨c, hc, cx', rfl⟩ := ih ht
      exact ⟨c, List.mem_cons_of_mem _ hc, cx', rfl⟩

theorem placed_mem_children {c : Node F} (hc : c ∈ children) (canvasW rowH total w : ℚ)
    (level : ℕ) (cx : ℚ) :
    ∃ cx', placed canvasW rowH c level cx' total ∈
      placedChildren canvasW rowH children total w level cx := by
  induction children generalizing cx with
  | nil => exact absurd hc List.not_mem_nil
  | cons child children ih =>
    rw [placedChildren]
    rcases List.mem_cons.1 hc with rfl | hc
    · exact ⟨cx, List.mem_cons_self⟩
    · obtain ⟨cx', h⟩ := ih hc (cx + child.value.totalCycles / total * w)
      exact ⟨cx', List.mem_cons_of_mem _ h⟩

section Siblings
variable (htotal : 0 < total)
include htotal

theorem widths_sum :
    (((placedChildren canvasW rowH children total w level cx).map Rose.value).map
      IcicleRect.w).sum =
      (children.map fun c => c.value.totalCycles).sum / total * canvasW := by
  induction children generalizing cx with
  | nil => rw [placedChildren, List.map_nil, List.map_nil, List.sum_nil, List.map_nil, List.sum_nil,
      zero_div, zero_mul]
  | cons child children ih =>
    rw [placedChildren, List.map_cons, List.map_cons, List.sum_cons, ih, placed_value,
      nodeRect_w htotal, List.map_cons, List.sum_cons, add_div, add_mul]

/-- Where the parent is as wide as the canvas, the offsets and the widths agree. -/
theorem placedChildren_consecutive (hw : 0 ≤ canvasW)
    (hpos : ∀ c ∈ children, 0 < c.value.totalCycles) (rowH : ℚ) (level : ℕ) (cx : ℚ) :
    Consecutive IcicleRect.x IcicleRect.w cx
      ((placedChildren canvasW rowH children total canvasW level cx).map Rose.value) := by
  induction children generalizing cx with
  | nil =>
    rw [placedChildren]
    exact .nil cx
  | cons child children ih =>
    have hchild := hpos child List.mem_cons_self
    have hrest := ih (fun c hc => hpos c (List.mem_cons_of_mem _ hc))
      (cx + child.value.totalCycles / total * canvasW)
    rw [placedChildren, List.map_cons, placed_value]
    change Consecutive _ _ (nodeRect canvasW rowH child level cx total).x _
    refine .cons ?_ ?_
    · rw [nodeRect_w htotal]
      exact mul_nonneg (div_nonneg hchild.le htotal.le) hw
    · rw [nodeRect_w htotal]
      exact hrest

end Siblings

/-! ## One node -/

section Node
variable (hW : 0 < canvasW) (hT : 0 < parentTotal)
  (hfit : TotalsFit d (children.map Rose.value)) (hpos : ∀ c ∈ children, 0 < c.value.totalCycles)
include hW hT hfit hpos

/-- The intervals of the children nest if the node is as wide as the canvas, or has none. -/
theorem intervalsNest_iff (rowH : ℚ) (level : ℕ) (x : ℚ) :
    IntervalsNest (nodeRect canvasW rowH (.node d children) level x parentTotal)
        ((placedChildren canvasW rowH children d.totalCycles
          (nodeRect canvasW rowH (.node d children) level x parentTotal).w (level + 1) x).map
            Rose.value) ↔
      (children.map Rose.value ≠ [] → d.totalCycles = parentTotal) := by
  have hd := hfit.pos
  constructor
  · intro h hne
    obtain ⟨c, hc⟩ := List.exists_mem_of_ne_nil _ fun h0 => hne (List.map_eq_nil_iff.2 h0)
    obtain ⟨cx', hmem⟩ := placed_mem_children hc canvasW rowH d.totalCycles
      (nodeRect canvasW rowH (.node d children) level x parentTotal).w (level + 1) x
    have hwidth := h.width _ (List.mem_map_of_mem hmem)
    have hcpos := hpos c hc
    rw [placed_value, nodeRect_w hd, nodeRect_w hT] at hwidth
    -- the share of the canvas is that of the parent's width only if the parent takes all of it
    have hshare : c.value.totalCycles / d.totalCycles ≠ 0 := (div_pos hcpos hd).ne'
    have hall := mul_left_cancel₀ hshare hwidth
    rw [Rose.value_node, eq_comm, mul_eq_right₀ hW.ne', div_eq_one_iff_eq hT.ne'] at hall
    exact hall
  · intro h
    by_cases hnil : children = []
    · rw [hnil, placedChildren]
      exact ⟨fun _ hc => absurd hc List.not_mem_nil, fun _ hc => absurd hc List.not_mem_nil, .nil⟩
    · have hall := h fun h0 => hnil (List.map_eq_nil_iff.1 h0)
      have hw : (nodeRect canvasW rowH (.node d children) level x parentTotal).w = canvasW := by
        rw [nodeRect_w hT, Rose.value_node, hall, div_self hT.ne', one_mul]
      have hcons := placedChildren_consecutive hd hW.le hpos rowH (level + 1) x
      have hsum : (((placedChildren canvasW rowH children d.totalCycles canvasW (level + 1) x).map
          Rose.value).map IcicleRect.w).sum ≤ canvasW := by
        have hle := hfit.sum_le
        rw [List.map_map] at hle
        rw [widths_sum hd]
        exact mul_le_of_le_one_left hW.le ((div_le_one hd).2 hle)
      rw [hw]
      refine ⟨fun c hc => ?_, fun c hc => ?_, hcons.apart⟩
      · have hbounds := hcons.bounds.2 c hc
        rw [hw]
        exact ⟨hbounds.1, hbounds.2.trans (add_le_add_right hsum x)⟩
      · obtain ⟨t, ht, rfl⟩ := List.mem_map.1 hc
        obtain ⟨c, -, cx', rfl⟩ := mem_placedChildren ht
        rw [placed_value, nodeRect_w hd, hw]
        rfl

end Node

/-! ## The whole hierarchy -/

theorem totals_pos (h : n.Each TotalsFit) : 0 < n.value.totalCycles := by
  obtain ⟨hroot, -⟩ := h
  exact hroot.pos

theorem placed_nests_iff (hW : 0 < canvasW) (hT : 0 < total) (n : Node F) (h : n.Each TotalsFit)
    (level : ℕ) (x : ℚ) :
    (placed canvasW rowH n level x total).Each IntervalsNest ↔
      n.Each fun d children => children ≠ [] → d.totalCycles = total := by
  induction n using Rose.induction generalizing level x with
  | node d children ih =>
    obtain ⟨hfit, hbelow⟩ := Rose.each_node_iff.1 h
    have hroot := intervalsNest_iff hW hT hfit (fun c hc => totals_pos (hbelow c hc)) rowH level x
    rw [placed_node, Rose.each_node_iff, Rose.each_node_iff, hroot]
    refine and_congr_right fun hall => ⟨fun hrects c hc => ?_, fun hchildren t ht => ?_⟩
    · have hd : d.totalCycles = total :=
        hall fun h0 => List.ne_nil_of_mem hc (List.map_eq_nil_iff.1 h0)
      obtain ⟨cx, hmem⟩ := placed_mem_children hc canvasW rowH d.totalCycles
        (nodeRect canvasW rowH (.node d children) level x total).w (level + 1) x
      have hrect := hrects _ hmem
      rw [hd] at hrect
      exact (ih c hc (hbelow c hc) _ _).1 hrect
    · obtain ⟨c, hc, cx, rfl⟩ := mem_placedChildren ht
      have hd : d.totalCycles = total :=
        hall fun h0 => List.ne_nil_of_mem hc (List.map_eq_nil_iff.1 h0)
      rw [hd]
      exact (ih c hc (hbelow c hc) _ _).2 (hchildren c hc)

theorem layoutIcicle_allRects (h : 0 < n.value.totalCycles) :
    (layoutIcicle n canvasW rowH).allRects =
      (placed canvasW rowH n 0 0 n.value.totalCycles).preorder := by
  rw [layoutIcicle, if_neg h.ne', collect_eq, allRects_pushAll]
  exact List.nil_append _

/-- The list of rectangles is that of one tree only. -/
theorem nests_iff (h : 0 < n.value.totalCycles) :
    Nests n (layoutIcicle n canvasW rowH).allRects ↔
      (placed canvasW rowH n 0 0 n.value.totalCycles).Each IntervalsNest := by
  have hmap := placed_map canvasW rowH n 0 0 n.value.totalCycles
  rw [layoutIcicle_allRects h]
  constructor
  · rintro ⟨t, hshape, hpre, heach⟩
    obtain ⟨rfl, -⟩ := Rose.eq_of_preorder (hshape.trans hmap.symm) (congrArg (· ++ []) hpre)
    exact heach
  · exact fun heach => ⟨_, hmap, rfl, heach⟩

/-- The widths are shares of the canvas, right only below nodes that are as wide as that. -/
theorem layoutIcicle_nests_iff (n : Node F) (h : n.Each TotalsFit) (rowH : ℚ)
    (hW : 0 < canvasW) :
    Nests n (layoutIcicle n canvasW rowH).allRects ↔
      n.Each fun d children => children ≠ [] → d.totalCycles = n.value.totalCycles :=
  (nests_iff (totals_pos h)).trans (placed_nests_iff hW (totals_pos h) n h 0 0)

/-- A node of which only the total matters. -/
def nodeOf (total : ℚ) (children : List (Node Unit)) : Node Unit :=
  .node ⟨[], total, 0, .zero, 0, [], none⟩ children

theorem each_leaf {R : NodeData Unit → List (NodeData Unit) → Prop}
    (h : R (nodeOf total []).value []) : (nodeOf total []).Each R :=
  .node h fun _ hc => absurd hc List.not_mem_nil

theorem totalsFit_leaf (h : 0 < total) : (nodeOf total []).Each TotalsFit := each_leaf ⟨h, h.le⟩

/-- `4` calls `4`, which calls `2` and `1`. -/
theorem layoutIcicle_nests_chain :
    Nests (nodeOf 4 [nodeOf 4 [nodeOf 2 [], nodeOf 1 []]])
      (layoutIcicle (nodeOf 4 [nodeOf 4 [nodeOf 2 [], nodeOf 1 []]]) 100 30).allRects := by
  have hfit : (nodeOf 4 [nodeOf 2 [], nodeOf 1 []]).Each TotalsFit := by
    refine .node ⟨by norm_num, by norm_num [nodeOf]⟩ fun c hc => ?_
    rcases List.mem_pair.1 hc with rfl | rfl
    · exact totalsFit_leaf (by norm_num)
    · exact totalsFit_leaf (by norm_num)
  refine (layoutIcicle_nests_iff _ (.node ⟨by norm_num, by norm_num [nodeOf]⟩ fun c hc => ?_) 30
    (by norm_num)).2 (.node (fun _ => rfl) fun c hc => ?_)
  · rw [List.mem_singleton.1 hc]
    exact hfit
  · rw [List.mem_singleton.1 hc]
    refine .node (fun _ => rfl) fun c hc => ?_
    rcases List.mem_pair.1 hc with rfl | rfl
    · exact each_leaf fun h => absurd rfl h
    · exact each_leaf fun h => absurd rfl h

/-- `4` calls `2`, which calls `1` twice: those get half of the canvas each, not a quarter. -/
theorem layoutIcicle_not_nested :
    ¬ ∀ (n : Node Unit) (canvasW rowH : ℚ), n.Each TotalsFit → 0 < canvasW →
      Nests n (layoutIcicle n canvasW rowH).allRects := by
  intro h
  have hleaf : (nodeOf 1 []).Each TotalsFit := totalsFit_leaf (by norm_num)
  have hinner : (nodeOf 2 [nodeOf 1 [], nodeOf 1 []]).Each TotalsFit := by
    refine .node ⟨by norm_num, by norm_num [nodeOf]⟩ fun c hc => ?_
    rcases List.mem_pair.1 hc with rfl | rfl
    · exact hleaf
    · exact hleaf
  have hfit : (nodeOf 4 [nodeOf 2 [nodeOf 1 [], nodeOf 1 []]]).Each TotalsFit := by
    refine .node ⟨by norm_num, by norm_num [nodeOf]⟩ fun c hc => ?_
    rw [List.mem_singleton.1 hc]
    exact hinner
  have hroot := (nests_iff (totals_pos hfit)).1 (h _ 100 30 hfit (by norm_num))
  rw [nodeOf, placed_node, Rose.each_node_iff, placedChildren] at hroot
  have hbelow := hroot.2 _ List.mem_cons_self
  rw [nodeOf, placed_node, Rose.each_node_iff, placedChildren, List.map_cons,
    placed_value] at hbelow
  have hwidth := hbelow.1.width _ List.mem_cons_self
  norm_num [nodeRect, nodeOf] at hwidth

end Herve
