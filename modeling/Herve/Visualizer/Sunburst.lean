import Herve.Visualizer.Icicle

/-! The ring chart of `profiler_visualizer.html`: one segment for each node of the upper levels of a
hierarchy, with rational numbers. Angles are in radians. -/

namespace Herve
open Tiling

/-- What is filled: the root as a full disc, any other node as a piece of its ring. -/
inductive Outline
  | disc (rOuter : ℚ)
  | ring (rInner rOuter startAngle angleSpan : ℚ)

/-- `name` is cut off if `ellipsis` is set, and then followed by `…`. -/
structure SectorLabel where
  midAngle : ℚ
  labelR : ℚ
  name : CStr
  ellipsis : Bool
  pct : ℚ

/-- `t` is what `hotColor` makes the colour from. -/
structure Sector (F : Type) where
  node : Node F
  outline : Outline
  t : ℚ
  label : Option SectorLabel

section Source
variable {F : Type}

/-! ## `renderSunburst` -/

/-- `Math.PI` -/
def mathPi : ℚ := 884279719003555 / 281474976710656

def ringCount : ℕ := 4

structure SunburstCanvas where
  width : ℚ
  height : ℚ

/-- The size of the canvas in a box of `offsetWidth` by `offsetHeight`. -/
def sunburstCanvas (offsetWidth offsetHeight : ℕ) : SunburstCanvas where
  width := max ((if offsetWidth = 0 then 420 else offsetWidth : ℚ) - 32) 100
  height := max ((if offsetHeight = 0 then 360 else offsetHeight : ℚ) - 48) 100

def SunburstCanvas.maxRadius (canvas : SunburstCanvas) : ℚ :=
  min (canvas.width / 2) (canvas.height / 2) * (85 / 100)

def SunburstCanvas.ringThickness (canvas : SunburstCanvas) : ℚ := canvas.maxRadius / ringCount

/-- The label of a segment that is big enough for one. -/
def sectorLabel (d : NodeData F) (totalCycles rInner rOuter startAngle angleSpan : ℚ) :
    Option SectorLabel :=
  let labelR := (rInner + rOuter) / 2
  let segW := angleSpan * labelR
  let segH := rOuter - rInner
  if segW > 18 ∧ segH > 14 then
    some
      { midAngle := startAngle + angleSpan / 2
        labelR := labelR
        name := if d.name.length > 8 then d.name.take 7 else d.name
        ellipsis := decide (d.name.length > 8)
        pct := d.totalCycles / totalCycles * 100 }
  else none

def sector (ringThickness totalCycles : ℚ) (node : Node F) (level : ℕ)
    (startAngle angleSpan : ℚ) : Sector F :=
  let rInner := level * ringThickness
  let rOuter := rInner + ringThickness - (if level = 0 then 2 else 1)
  { node := node
    outline :=
      if level > 0 ∨ (level = 0 ∧ angleSpan < mathPi * 2 - 1 / 1000) then
        .ring rInner rOuter startAngle angleSpan
      else .disc rOuter
    t := node.value.totalCycles / totalCycles
    label := sectorLabel node.value totalCycles rInner rOuter startAngle angleSpan }

def totalChildCycles (children : List (Node F)) : ℚ :=
  (children.map fun c => c.value.totalCycles).sum

def childSpan (child : Node F) (totalChildCycles angleSpan : ℚ) : ℚ :=
  if totalChildCycles > 0 then angleSpan * (child.value.totalCycles / totalChildCycles) else 0

mutual
/-- The segments in the order in which they are drawn. -/
def drawRing (ringThickness totalCycles : ℚ) : Node F → ℕ → ℚ → ℚ → List (Sector F)
  | .node d children, level, startAngle, angleSpan =>
    if level ≥ ringCount then []
    else
      sector ringThickness totalCycles (.node d children) level startAngle angleSpan ::
        drawRings ringThickness totalCycles children (totalChildCycles children) angleSpan
          (level + 1) startAngle

/-- `for (const child of node.children)`, from `childStart`. -/
def drawRings (ringThickness totalCycles : ℚ) :
    List (Node F) → ℚ → ℚ → ℕ → ℚ → List (Sector F)
  | [], _, _, _, _ => []
  | child :: children, total, angleSpan, level, childStart =>
    drawRing ringThickness totalCycles child level childStart (childSpan child total angleSpan) ++
      drawRings ringThickness totalCycles children total angleSpan level
        (childStart + childSpan child total angleSpan)
end

/-- Without a root only a text is drawn. -/
def renderSunburst (offsetWidth offsetHeight : ℕ) (rootNode : Option (Node F)) :
    List (Sector F) :=
  let canvas := sunburstCanvas offsetWidth offsetHeight
  match rootNode with
  | none => []
  | some rootNode =>
    let totalCycles := if rootNode.value.totalCycles = 0 then 1 else rootNode.value.totalCycles
    drawRing canvas.ringThickness totalCycles rootNode 0 0 (mathPi * 2)

end Source

variable {F : Type} {thickness totalCycles total start span : ℚ} {level : ℕ} {n : Node F}
  {children : List (Node F)}

/-! ## What the chart should be -/

/-- Angles from left to right and distances from the centre upwards. -/
def Outline.box : Outline → Box ℚ
  | .disc rOuter => ⟨0, 0, mathPi * 2, rOuter⟩
  | .ring rInner rOuter startAngle angleSpan => ⟨startAngle, rInner, angleSpan, rOuter - rInner⟩

def Sector.box (s : Sector F) : Box ℚ := s.outline.box

/-- The children share the angle of their parent, each by its part of what they take together.
Where that is nothing they are still within it. -/
structure SharesAngle (s : Sector F) (children : List (Sector F)) : Prop where
  consecutive : Consecutive (fun c => c.box.x) (fun c => c.box.w) s.box.x children
  inside : ∀ c ∈ children, s.box.x ≤ c.box.x ∧ c.box.x + c.box.w ≤ s.box.x + s.box.w
  share : ∀ c ∈ children, c.box.w * (children.map fun c => c.node.value.totalCycles).sum =
    s.box.w * c.node.value.totalCycles
  whole : 0 < (children.map fun c => c.node.value.totalCycles).sum →
    (children.map fun c => c.box.w).sum = s.box.w

/-! ## The tree of segments -/

structure Arc (F : Type) where
  node : Node F
  start : ℚ
  span : ℚ

/-- The children with their angles, from `start`. -/
def arcs (total span : ℚ) : List (Node F) → ℚ → List (Arc F)
  | [], _ => []
  | child :: children, start =>
    ⟨child, start, childSpan child total span⟩ ::
      arcs total span children (start + childSpan child total span)

/-- The segments of a node and of `k` levels below it. -/
def ringTree (thickness totalCycles : ℚ) : ℕ → ℕ → Arc F → Rose (Sector F)
  | 0, level, a => .node (sector thickness totalCycles a.node level a.start a.span) []
  | k + 1, level, a =>
    .node (sector thickness totalCycles a.node level a.start a.span)
      ((arcs (totalChildCycles a.node.children) a.span a.node.children a.start).map
        (ringTree thickness totalCycles k (level + 1)))

theorem ringTree_value (thickness totalCycles : ℚ) (k level : ℕ) (a : Arc F) :
    (ringTree thickness totalCycles k level a).value =
      sector thickness totalCycles a.node level a.start a.span := by
  cases k <;> rfl

theorem arcs_node (total span : ℚ) (children : List (Node F)) (start : ℚ) :
    (arcs total span children start).map Arc.node = children := by
  induction children generalizing start with
  | nil => rfl
  | cons child children ih => rw [arcs, List.map_cons, ih]

theorem drawRings_eq :
    drawRings thickness totalCycles children total span level start =
      (arcs total span children start).flatMap fun a =>
        drawRing thickness totalCycles a.node level a.start a.span := by
  induction children generalizing start with
  | nil => rw [drawRings, arcs, List.flatMap_nil]
  | cons child children ih => rw [drawRings, arcs, List.flatMap_cons, ih]

theorem drawRing_outside (n : Node F) (h : ringCount ≤ level) :
    drawRing thickness totalCycles n level start span = [] := by
  cases n
  rw [drawRing, if_pos h]

theorem drawRing_eq {k : ℕ} (a : Arc F) (h : level + k + 1 = ringCount) :
    drawRing thickness totalCycles a.node level a.start a.span =
      (ringTree thickness totalCycles k level a).preorder := by
  have hlevel : ¬ level ≥ ringCount := by omega
  induction k generalizing level a with
  | zero =>
    obtain ⟨⟨d, children⟩, start, span⟩ := a
    rw [drawRing, if_neg hlevel, ringTree, Rose.preorder_node, Rose.preorderAll_nil, drawRings_eq,
      List.flatMap_eq_nil_iff.2 fun b _ => drawRing_outside b.node h.ge]
  | succ k ih =>
    obtain ⟨⟨d, children⟩, start, span⟩ := a
    rw [drawRing, if_neg hlevel, ringTree, Rose.preorder_node, Rose.preorderAll_eq, drawRings_eq,
      List.flatMap_map, Rose.children_node]
    exact congrArg _ (List.flatMap_congr fun b _ => ih b (by omega) (by omega))

theorem ringTree_map (thickness totalCycles : ℚ) (k level : ℕ) (a : Arc F) :
    (ringTree thickness totalCycles k level a).map (fun s => s.node.value) = a.node.prune k := by
  induction k generalizing level a with
  | zero =>
    obtain ⟨⟨d, children⟩, start, span⟩ := a
    rw [ringTree, Rose.map_node]
    rfl
  | succ k ih =>
    obtain ⟨⟨d, children⟩, start, span⟩ := a
    have hnode := arcs_node (totalChildCycles children) span children start
    rw [ringTree, Rose.map_node, List.map_map, Rose.children_node]
    refine congrArg (Rose.node d) ?_
    conv_rhs => rw [← hnode]
    rw [List.map_map]
    exact List.map_congr_left fun b _ => ih (level + 1) b

/-! ## The angles of the children -/

section Arcs
variable (hspan : 0 ≤ span) (hnonneg : ∀ c ∈ children, 0 ≤ c.value.totalCycles)
include hspan hnonneg

omit hnonneg in
theorem childSpan_nonneg (h : 0 ≤ n.value.totalCycles) (total : ℚ) :
    0 ≤ childSpan n total span := by
  unfold childSpan
  split_ifs with htotal
  · exact mul_nonneg hspan (div_nonneg h htotal.le)
  · exact le_rfl

theorem arcs_consecutive (total start : ℚ) :
    Consecutive Arc.start Arc.span start (arcs total span children start) := by
  induction children generalizing start with
  | nil => exact .nil start
  | cons child children ih =>
    exact .cons (a := (⟨child, start, childSpan child total span⟩ : Arc F))
      (childSpan_nonneg hspan (hnonneg child List.mem_cons_self) total)
      (ih (fun c hc => hnonneg c (List.mem_cons_of_mem _ hc)) _)

omit hspan hnonneg in
theorem arcs_span_sum (total span start : ℚ) (children : List (Node F)) :
    ((arcs total span children start).map Arc.span).sum =
      if total > 0 then span * (totalChildCycles children / total) else 0 := by
  induction children generalizing start with
  | nil =>
    rw [arcs, totalChildCycles, List.map_nil, List.map_nil, List.sum_nil, zero_div, mul_zero,
      ite_self]
  | cons child children ih =>
    have hcons : totalChildCycles (child :: children) =
        child.value.totalCycles + totalChildCycles children := List.sum_cons
    rw [arcs, List.map_cons, List.sum_cons, ih, hcons]
    show childSpan child total span + _ = _
    unfold childSpan
    split_ifs
    · rw [add_div, mul_add]
    · exact add_zero 0

omit hspan hnonneg in
theorem arcs_span_whole (h : 0 < totalChildCycles children) (span start : ℚ) :
    ((arcs (totalChildCycles children) span children start).map Arc.span).sum = span := by
  rw [arcs_span_sum, if_pos h, div_self h.ne', mul_one]

omit hnonneg in
theorem arcs_span_le (start : ℚ) :
    ((arcs (totalChildCycles children) span children start).map Arc.span).sum ≤ span := by
  rcases le_or_gt (totalChildCycles children) 0 with h | h
  · rw [arcs_span_sum, if_neg h.not_gt]
    exact hspan
  · exact (arcs_span_whole h span start).le

omit hspan hnonneg in
theorem mem_arcs {a : Arc F} (ha : a ∈ arcs total span children start) :
    a.node ∈ children ∧ a.span = childSpan a.node total span := by
  induction children generalizing start with
  | nil => exact absurd ha List.not_mem_nil
  | cons child children ih =>
    rcases List.mem_cons.1 ha with rfl | ha
    · exact ⟨List.mem_cons_self, rfl⟩
    · exact ⟨List.mem_cons_of_mem _ (ih ha).1, (ih ha).2⟩

theorem span_nonneg_of_mem_arcs {a : Arc F} (ha : a ∈ arcs total span children start) :
    0 ≤ a.span := by
  obtain ⟨hmem, hspan'⟩ := mem_arcs ha
  rw [hspan']
  exact childSpan_nonneg hspan (hnonneg _ hmem) total

omit hspan in
theorem childSpan_share {c : Node F} (hc : c ∈ children) (span : ℚ) :
    childSpan c (totalChildCycles children) span * totalChildCycles children =
      span * c.value.totalCycles := by
  have hle : c.value.totalCycles ≤ totalChildCycles children := by
    refine List.single_le_sum (fun t ht => ?_) _ (List.mem_map_of_mem hc)
    obtain ⟨c', hc', rfl⟩ := List.mem_map.1 ht
    exact hnonneg c' hc'
  unfold childSpan
  split_ifs with h
  · rw [mul_assoc, div_mul_cancel₀ _ h.ne']
  · rw [((hle.trans (not_lt.1 h)).antisymm (hnonneg c hc)), mul_zero, zero_mul]

end Arcs

/-! ## Boxes -/

/-- Only the root is drawn as a disc, and then it has the full angle. -/
theorem sector_box (n : Node F) (h : level = 0 → start = 0 ∧ span = mathPi * 2) :
    (sector thickness totalCycles n level start span).box =
      ⟨start, level * thickness, span, thickness - if level = 0 then 2 else 1⟩ := by
  unfold sector Sector.box
  dsimp only
  rcases Nat.eq_zero_or_pos level with rfl | hpos
  · obtain ⟨rfl, rfl⟩ := h rfl
    rw [if_neg (by norm_num), if_pos rfl]
    simp [Outline.box]
  · rw [if_pos (.inl hpos), if_neg hpos.ne', Outline.box, add_sub_assoc, add_sub_cancel_left]

/-- The part of the chart in which the segments of an arc and of `k` levels below it are. -/
def wedge (thickness : ℚ) (k level : ℕ) (a : Arc F) : Box ℚ :=
  ⟨a.start, level * thickness, a.span, (k + 1) * thickness⟩

theorem sector_tiles (hthickness : 2 ≤ thickness) (totalCycles : ℚ) (n : Node F) (hspan : 0 ≤ span)
    (hroot : level = 0 → start = 0 ∧ span = mathPi * 2) :
    Tiles ⟨start, level * thickness, span, thickness⟩
      [(sector thickness totalCycles n level start span).box] := by
  have hgap : 0 ≤ thickness - (if level = 0 then 2 else 1) ∧
      thickness - (if level = 0 then 2 else 1) ≤ thickness := by
    split_ifs <;> constructor <;> linarith
  refine ⟨fun r hr => ?_, List.pairwise_singleton _ _⟩
  rw [List.mem_singleton.1 hr, sector_box n hroot]
  exact ⟨hspan, hgap.1, le_rfl, le_rfl, le_rfl, add_le_add_right hgap.2 _⟩

theorem ringTree_tiles (hthickness : 2 ≤ thickness) (totalCycles : ℚ) (k : ℕ) {a : Arc F}
    (hroot : level = 0 → a.start = 0 ∧ a.span = mathPi * 2) (hspan : 0 ≤ a.span)
    (hn : a.node.Each fun d _ => 0 ≤ d.totalCycles) :
    Tiles (wedge thickness k level a)
      ((ringTree thickness totalCycles k level a).preorder.map Sector.box) := by
  induction k generalizing level a with
  | zero =>
    rw [ringTree, Rose.preorder_node, Rose.preorderAll_nil, wedge, Nat.cast_zero, zero_add, one_mul]
    exact sector_tiles hthickness totalCycles a.node hspan hroot
  | succ k ih =>
    have hnonneg : ∀ c ∈ a.node.children, 0 ≤ c.value.totalCycles :=
      fun c hc => (hn.child hc).at_root
    have hrest : Tiles ⟨a.start, (level + 1 : ℕ) * thickness, a.span, (k + 1) * thickness⟩
        ((arcs (totalChildCycles a.node.children) a.span a.node.children a.start).flatMap fun b =>
          (ringTree thickness totalCycles k (level + 1) b).preorder.map Sector.box) := by
      have hcons := arcs_consecutive hspan hnonneg (totalChildCycles a.node.children) a.start
      refine hcons.tiles (fun b hb => ?_) (by positivity) (arcs_span_le hspan a.start)
      exact ih (fun h => absurd h (Nat.succ_ne_zero _)) (span_nonneg_of_mem_arcs hspan hnonneg hb)
        (hn.child (mem_arcs hb).1)
    have hbelow : (level + 1 : ℕ) * thickness = level * thickness + thickness := by
      rw [Nat.cast_succ, add_one_mul]
    have htop : (k + 1) * thickness = (k + 1 + 1) * thickness - thickness := by ring
    rw [hbelow, htop] at hrest
    have hfirst := sector_tiles hthickness totalCycles a.node hspan hroot
    have hle : thickness ≤ (k + 1 + 1) * thickness := le_mul_of_one_le_left (by linarith) (by
      have := Nat.cast_nonneg (α := ℚ) k
      linarith)
    rw [ringTree, Rose.preorder_node, Rose.preorderAll_eq, List.flatMap_map, List.map_cons,
      List.map_flatMap, wedge, Nat.cast_succ]
    exact hfirst.append_below hrest hspan (by linarith) hle

theorem ringTree_box {k : ℕ} (a : Arc F) (h : level = 0 → a.start = 0 ∧ a.span = mathPi * 2) :
    (ringTree thickness totalCycles k level a).value.box =
      ⟨a.start, level * thickness, a.span, thickness - if level = 0 then 2 else 1⟩ := by
  rw [ringTree_value, sector_box a.node h]

theorem ringTree_shares {k : ℕ} {a : Arc F}
    (hroot : level = 0 → a.start = 0 ∧ a.span = mathPi * 2) (hspan : 0 ≤ a.span)
    (hn : a.node.Each fun d _ => 0 ≤ d.totalCycles) :
    (ringTree thickness totalCycles k level a).Each SharesAngle := by
  induction k generalizing level a with
  | zero =>
    refine .node ⟨.nil _, fun _ hc => absurd hc List.not_mem_nil,
      fun _ hc => absurd hc List.not_mem_nil, fun h => ?_⟩ fun _ hc => absurd hc List.not_mem_nil
    exact absurd h (lt_irrefl 0)
  | succ k ih =>
    have hnonneg : ∀ c ∈ a.node.children, 0 ≤ c.value.totalCycles :=
      fun c hc => (hn.child hc).at_root
    have hbox : ∀ b : Arc F, (ringTree thickness totalCycles k (level + 1) b).value.box = _ :=
      fun b => ringTree_box b fun h => absurd h (Nat.succ_ne_zero _)
    have htotal : (((arcs (totalChildCycles a.node.children) a.span a.node.children a.start).map
        (ringTree thickness totalCycles k (level + 1))).map Rose.value).map
          (fun s => s.node.value.totalCycles) =
        a.node.children.map fun c => c.value.totalCycles := by
      conv_rhs => rw [← arcs_node (totalChildCycles a.node.children) a.span a.node.children a.start]
      rw [List.map_map, List.map_map, List.map_map]
      refine List.map_congr_left fun b _ => ?_
      show (ringTree thickness totalCycles k (level + 1) b).value.node.value.totalCycles = _
      rw [ringTree_value]
      rfl
    have hmem : ∀ c ∈ ((arcs (totalChildCycles a.node.children) a.span a.node.children a.start).map
        (ringTree thickness totalCycles k (level + 1))).map Rose.value,
        ∃ b ∈ arcs (totalChildCycles a.node.children) a.span a.node.children a.start,
          (ringTree thickness totalCycles k (level + 1) b).value = c := by
      intro c hc
      rw [List.map_map] at hc
      exact List.mem_map.1 hc
    have hcons := arcs_consecutive hspan hnonneg (totalChildCycles a.node.children) a.start
    rw [ringTree]
    refine .node ⟨?_, fun c hc => ?_, fun c hc => ?_, fun h => ?_⟩ fun t ht => ?_
    · rw [List.map_map, sector_box a.node hroot]
      exact hcons.map (fun b => congrArg Box.x (hbox b)) fun b => congrArg Box.w (hbox b)
    · obtain ⟨b, hb, rfl⟩ := hmem c hc
      obtain ⟨hleft, hright⟩ := hcons.bounds.2 b hb
      rw [hbox, sector_box a.node hroot]
      exact ⟨hleft, hright.trans (add_le_add_right (arcs_span_le hspan a.start) _)⟩
    · obtain ⟨b, hb, rfl⟩ := hmem c hc
      obtain ⟨hnode, hspan⟩ := mem_arcs hb
      rw [htotal, hbox, ringTree_value, sector_box a.node hroot]
      show b.span * totalChildCycles a.node.children = a.span * b.node.value.totalCycles
      rw [hspan, childSpan_share hnonneg hnode]
    · rw [htotal] at h
      rw [List.map_map, List.map_map, sector_box a.node hroot]
      refine (congrArg List.sum (List.map_congr_left fun b _ => ?_)).trans
        (arcs_span_whole h a.span a.start)
      exact congrArg Box.w (hbox b)
    · obtain ⟨b, hb, rfl⟩ := List.mem_map.1 ht
      exact ih (fun h => absurd h (Nat.succ_ne_zero _)) (span_nonneg_of_mem_arcs hspan hnonneg hb)
        (hn.child (mem_arcs hb).1)

/-! ## The whole chart -/

theorem two_le_ringThickness (offsetWidth offsetHeight : ℕ) :
    2 ≤ (sunburstCanvas offsetWidth offsetHeight).ringThickness := by
  have hwidth : 100 ≤ (sunburstCanvas offsetWidth offsetHeight).width := le_max_right _ _
  have hheight : 100 ≤ (sunburstCanvas offsetWidth offsetHeight).height := le_max_right _ _
  have hmin : 50 ≤ min ((sunburstCanvas offsetWidth offsetHeight).width / 2)
      ((sunburstCanvas offsetWidth offsetHeight).height / 2) :=
    le_min (by linarith) (by linarith)
  unfold SunburstCanvas.ringThickness SunburstCanvas.maxRadius ringCount
  push_cast
  linarith

/-- The arc of the root. -/
def rootArc (n : Node F) : Arc F := ⟨n, 0, mathPi * 2⟩

theorem renderSunburst_eq (offsetWidth offsetHeight : ℕ) (n : Node F) :
    renderSunburst offsetWidth offsetHeight (some n) =
      (ringTree (sunburstCanvas offsetWidth offsetHeight).ringThickness
        (if n.value.totalCycles = 0 then 1 else n.value.totalCycles) 3 0 (rootArc n)).preorder :=
  drawRing_eq (rootArc n) rfl

theorem fullAngle_pos : 0 < mathPi * 2 := by
  unfold mathPi
  norm_num

/-- The segments do not overlap, stay inside the largest circle and are those of the nodes of the
four upper levels, each within the angle of its parent. -/
theorem renderSunburst_tiles (offsetWidth offsetHeight : ℕ) (n : Node F)
    (hn : n.Each fun d _ => 0 ≤ d.totalCycles) :
    let sectors := renderSunburst offsetWidth offsetHeight (some n)
    Tiles ⟨0, 0, mathPi * 2, (sunburstCanvas offsetWidth offsetHeight).maxRadius⟩
        (sectors.map Sector.box) ∧
      ∃ t : Rose (Sector F), t.map (fun s => s.node.value) = n.prune 3 ∧ t.preorder = sectors ∧
        t.Each SharesAngle := by
  intro sectors
  have hsectors : sectors = _ := renderSunburst_eq offsetWidth offsetHeight n
  have hroot : (0 : ℕ) = 0 → (rootArc n).start = 0 ∧ (rootArc n).span = mathPi * 2 :=
    fun _ => ⟨rfl, rfl⟩
  have hspan : 0 ≤ (rootArc n).span := fullAngle_pos.le
  refine ⟨?_, _, ringTree_map _ _ 3 0 (rootArc n), hsectors.symm, ringTree_shares hroot hspan hn⟩
  have htiles := ringTree_tiles (two_le_ringThickness offsetWidth offsetHeight)
    (if n.value.totalCycles = 0 then 1 else n.value.totalCycles) 3 hroot hspan hn
  have hwedge : wedge (sunburstCanvas offsetWidth offsetHeight).ringThickness 3 0 (rootArc n) =
      ⟨0, 0, mathPi * 2, (sunburstCanvas offsetWidth offsetHeight).maxRadius⟩ := by
    unfold wedge rootArc SunburstCanvas.ringThickness ringCount
    push_cast
    ring_nf
  rw [hsectors, ← hwedge]
  exact htiles

/-- `4` calls `2` and `1`. -/
theorem renderSunburst_tiles_flat :
    Tiles ⟨0, 0, mathPi * 2, (sunburstCanvas 420 360).maxRadius⟩
      ((renderSunburst 420 360 (some (nodeOf 4 [nodeOf 2 [], nodeOf 1 []]))).map Sector.box) := by
  refine (renderSunburst_tiles 420 360 _ (.node (by norm_num) fun c hc => ?_)).1
  rcases List.mem_pair.1 hc with rfl | rfl
  · exact each_leaf (show (0 : ℚ) ≤ 2 by norm_num)
  · exact each_leaf (show (0 : ℚ) ≤ 1 by norm_num)

/-! ## Angles and colours -/

/-- What the callees that are drawn take together is all that the function takes. -/
def CalleesTakeAll (d : NodeData F) (children : List (NodeData F)) : Prop :=
  children ≠ [] → (children.map NodeData.totalCycles).sum = d.totalCycles

/-- If the angle of the parent is right, that of a child is right when the children take together
what the parent takes. -/
theorem arc_share_iff {t : ℚ} (hspan : span * totalCycles = mathPi * 2 * t)
    (hpos : ∀ c ∈ children, 0 < c.value.totalCycles) {a : Arc F}
    (ha : a ∈ arcs (totalChildCycles children) span children start) :
    a.span * totalCycles = mathPi * 2 * a.node.value.totalCycles ↔
      totalChildCycles children = t := by
  obtain ⟨hmem, hchild⟩ := mem_arcs ha
  have hnode := hpos a.node hmem
  have hsum : 0 < totalChildCycles children :=
    List.sum_pos _ (fun t ht => by
      obtain ⟨c, hc, rfl⟩ := List.mem_map.1 ht
      exact hpos c hc) fun h => List.ne_nil_of_mem hmem (List.map_eq_nil_iff.1 h)
  have hspan' : a.span * totalCycles =
      mathPi * 2 * a.node.value.totalCycles * (t / totalChildCycles children) := by
    rw [hchild, childSpan, if_pos hsum]
    calc span * (a.node.value.totalCycles / totalChildCycles children) * totalCycles
        = span * totalCycles * a.node.value.totalCycles / totalChildCycles children := by ring
      _ = mathPi * 2 * a.node.value.totalCycles * (t / totalChildCycles children) := by
        rw [hspan]
        ring
  rw [hspan', mul_eq_left₀ (mul_pos fullAngle_pos hnode).ne', div_eq_one_iff_eq hsum.ne', eq_comm]

section Angles
variable (htotal : 0 < totalCycles)
include htotal

theorem sector_angle_iff (thickness : ℚ) (n : Node F)
    (hroot : level = 0 → start = 0 ∧ span = mathPi * 2) :
    (sector thickness totalCycles n level start span).box.w =
        (sector thickness totalCycles n level start span).t * (mathPi * 2) ↔
      span * totalCycles = mathPi * 2 * n.value.totalCycles := by
  rw [sector_box n hroot]
  show span = n.value.totalCycles / totalCycles * (mathPi * 2) ↔ _
  rw [div_mul_eq_mul_div, eq_div_iff htotal.ne', mul_comm (mathPi * 2)]

theorem ringTree_angle_iff {k : ℕ} {a : Arc F}
    (hroot : level = 0 → a.start = 0 ∧ a.span = mathPi * 2)
    (hspan : a.span * totalCycles = mathPi * 2 * a.node.value.totalCycles)
    (hn : a.node.Each fun d _ => 0 < d.totalCycles) :
    (∀ s ∈ (ringTree thickness totalCycles k level a).preorder, s.box.w = s.t * (mathPi * 2)) ↔
      (a.node.prune k).Each CalleesTakeAll := by
  induction k generalizing level a with
  | zero =>
    have hself := (sector_angle_iff htotal thickness a.node hroot).2 hspan
    obtain ⟨⟨d, children⟩, start, span⟩ := a
    refine iff_of_true (fun s hs => ?_)
      (.node (fun h => absurd rfl h) fun _ hc => absurd hc List.not_mem_nil)
    rw [ringTree, Rose.preorder_node, Rose.preorderAll_nil] at hs
    rw [List.mem_singleton.1 hs]
    exact hself
  | succ k ih =>
    have hself := (sector_angle_iff htotal thickness a.node hroot).2 hspan
    obtain ⟨⟨d, children⟩, start, span⟩ := a
    have hpos : ∀ c ∈ children, 0 < c.value.totalCycles := fun c hc => (hn.child hc).at_root
    have hnodes := arcs_node (totalChildCycles children) span children start
    have hbelow : ∀ b : Arc F, level + 1 = 0 → b.start = 0 ∧ b.span = mathPi * 2 :=
      fun _ h => absurd h (Nat.succ_ne_zero _)
    have hshare : ∀ b ∈ arcs (totalChildCycles children) span children start,
        (b.span * totalCycles = mathPi * 2 * b.node.value.totalCycles ↔
          totalChildCycles children = d.totalCycles) := fun b hb => arc_share_iff hspan hpos hb
    have hroot : CalleesTakeAll d ((children.map (Rose.prune k)).map Rose.value) ↔
        (children ≠ [] → totalChildCycles children = d.totalCycles) := by
      have hvalues : (children.map (Rose.prune k)).map Rose.value = children.map Rose.value := by
        rw [List.map_map]
        exact List.map_congr_left fun c _ => Rose.value_prune k c
      rw [CalleesTakeAll, hvalues, Ne, List.map_eq_nil_iff, List.map_map]
      rfl
    rw [ringTree, Rose.preorder_node, Rose.preorderAll_eq, List.flatMap_map, List.forall_mem_cons,
      and_iff_right hself, Rose.prune, Rose.each_node_iff, hroot]
    constructor
    · intro h
      have hall : ∀ b ∈ arcs (totalChildCycles children) span children start,
          totalChildCycles children = d.totalCycles := fun b hb => by
        refine (hshare b hb).1 ((sector_angle_iff htotal thickness b.node (hbelow b)).1 ?_)
        rw [← ringTree_value thickness totalCycles k (level + 1) b]
        exact h _ (List.mem_flatMap.2 ⟨b, hb, Rose.value_mem_preorder _⟩)
      have hchild : ∀ c ∈ children, ∃ b ∈ arcs (totalChildCycles children) span children start,
          b.node = c := fun c hc => List.mem_map.1 (hnodes.symm ▸ hc)
      refine ⟨fun hne => ?_, fun t ht => ?_⟩
      · obtain ⟨c, hc⟩ := List.exists_mem_of_ne_nil _ hne
        obtain ⟨b, hb, -⟩ := hchild c hc
        exact hall b hb
      · obtain ⟨c, hc, rfl⟩ := List.mem_map.1 ht
        obtain ⟨b, hb, rfl⟩ := hchild c hc
        exact (ih (hbelow b) ((hshare b hb).2 (hall b hb)) (hn.child hc)).1 fun s hs =>
          h s (List.mem_flatMap.2 ⟨b, hb, hs⟩)
    · rintro ⟨hall, heach⟩ s hs
      obtain ⟨b, hb, hs⟩ := List.mem_flatMap.1 hs
      have hmem := (mem_arcs hb).1
      have htotal := (hshare b hb).2 (hall (List.ne_nil_of_mem hmem))
      exact (ih (hbelow b) htotal (hn.child hmem)).2 (heach _ (List.mem_map_of_mem hmem)) s hs

end Angles

/-- The angles show what the colours show exactly when every function of the three upper levels that
calls another takes as much as its callees take together. -/
theorem renderSunburst_angle_iff (offsetWidth offsetHeight : ℕ) (n : Node F)
    (hn : n.Each fun d _ => 0 < d.totalCycles) :
    (∀ s ∈ renderSunburst offsetWidth offsetHeight (some n), s.box.w = s.t * (mathPi * 2)) ↔
      (n.prune 3).Each CalleesTakeAll := by
  have htotal : 0 < n.value.totalCycles := hn.at_root
  rw [renderSunburst_eq, if_neg htotal.ne']
  exact ringTree_angle_iff htotal (a := rootArc n) (fun _ => ⟨rfl, rfl⟩) rfl hn

/-- `4` calls `2` and `1`: these get two thirds and one third of the circle. -/
theorem renderSunburst_angle_iff_flat :
    ¬ ∀ s ∈ renderSunburst 420 360 (some (nodeOf 4 [nodeOf 2 [], nodeOf 1 []])),
      s.box.w = s.t * (mathPi * 2) := by
  have hleaf : ∀ t : ℚ, 0 < t → (nodeOf t []).Each fun d _ => 0 < d.totalCycles :=
    fun _ ht => each_leaf ht
  have hpos : (nodeOf 4 [nodeOf 2 [], nodeOf 1 []]).Each fun d _ => 0 < d.totalCycles := by
    refine .node (by norm_num) fun c hc => ?_
    rcases List.mem_pair.1 hc with rfl | rfl
    · exact hleaf 2 (by norm_num)
    · exact hleaf 1 (by norm_num)
  intro h
  have hroot := ((renderSunburst_angle_iff 420 360 _ hpos).1 h).at_root (List.cons_ne_nil _ _)
  norm_num [nodeOf, Rose.prune] at hroot

end Herve
