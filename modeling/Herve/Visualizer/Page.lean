import Herve.Visualizer.Sunburst

/-! The page of `profiler_visualizer.html`: its controls, what they render, and the zoom of the
icicle. What a plot draws of its hierarchy is left to the layouts. -/

namespace Herve

inductive PlotType
  | icicle
  | pie
  | flame
  | treemap
  deriving DecidableEq

structure ZoomEntry (F : Type) where
  node : Node F
  level : ℕ

/-- A canvas shows nothing at first, then `No data` or a hierarchy. -/
inductive Drawing (F : Type)
  | blank
  | noData
  | hierarchy (rootNode : Node F)

/-- `onclick` is the layout that the click handler of the icicle looks at; `breadcrumb` has a link
for each name but the last. -/
structure Page (F : Type) where
  profileData : Option (Hierarchy F)
  currentRoot : Option CStr
  currentDepth : ℕ
  rootSelect : List CStr
  plotType : PlotType
  icicleStack : List (ZoomEntry F)
  breadcrumb : List CStr
  onclick : Option (Icicle F)
  drawn : PlotType → Drawing F
  hierarchyPanel : List (Node F)

/-- `offsetWidth` and `offsetHeight` of the box of the icicle. -/
structure BoxSize where
  offsetWidth : ℕ
  offsetHeight : ℕ

section Source
variable {F : Type}

def Page.start : Page F where
  profileData := none
  currentRoot := none
  currentDepth := 3
  rootSelect := [[]]
  plotType := .flame
  icicleStack := []
  breadcrumb := []
  onclick := none
  drawn := fun _ => .blank
  hierarchyPanel := []

def getTopFunctions (profileData : Hierarchy F) : List (CStr × FuncEntry F) :=
  sortedDesc FuncEntry.totalCycles profileData.functions

/-- `currentRoot || getTopFunctions()[0]?.[0] || null` -/
def rootName (profileData : Hierarchy F) (currentRoot : Option CStr) : Option CStr :=
  currentRoot.or (((getTopFunctions profileData).head?.map Prod.fst).filter (· ≠ []))

/-! ## The icicle -/

def icicleLayout (box : BoxSize) (focusNode : Node F) : Icicle F :=
  let width : ℚ := max ((if box.offsetWidth = 0 then 600 else box.offsetWidth) - 32) 100
  let height : ℚ := max ((if box.offsetHeight = 0 then 400 else box.offsetHeight) - 48) 100
  layoutIcicle focusNode width (max 30 (min 50 ((height - 24) / 8)))

def updateBreadcrumb (page : Page F) : Page F :=
  { page with breadcrumb := page.icicleStack.map fun entry => entry.node.value.name }

/-- Without a node the click handler stays the one it was, and so does the breadcrumb. -/
def renderIcicle (box : BoxSize) (focusNode : Option (Node F)) (page : Page F) : Page F :=
  match focusNode with
  | none => { page with drawn := Function.update page.drawn .icicle .noData }
  | some focusNode =>
    updateBreadcrumb
      { page with
        drawn := Function.update page.drawn .icicle (.hierarchy focusNode)
        onclick := some (icicleLayout box focusNode) }

def initIcicle (box : BoxSize) (rootNode : Node F) (page : Page F) : Page F :=
  renderIcicle box (some rootNode) { page with icicleStack := [⟨rootNode, 0⟩] }

def zoomToIcicle (box : BoxSize) (stackIdx : ℕ) (page : Page F) : Page F :=
  match page.icicleStack[stackIdx]? with
  | none => page
  | some entry =>
    renderIcicle box (some entry.node)
      { page with icicleStack := page.icicleStack.take (stackIdx + 1) }

def IcicleRect.hit (r : IcicleRect F) (cx cy : ℚ) : Bool :=
  decide (cx ≥ r.x ∧ cx ≤ r.x + r.w ∧ cy ≥ r.y ∧ cy ≤ r.y + r.h)

/-- The click handler: only the first rectangle that is hit counts. -/
def clickIcicle (box : BoxSize) (cx cy : ℚ) (page : Page F) : Page F :=
  match page.onclick.bind fun layout => layout.allRects.find? fun r => r.hit cx cy with
  | none => page
  | some r =>
    if r.node.children.length > 0 then
      renderIcicle box (some r.node)
        (updateBreadcrumb
          { page with icicleStack := page.icicleStack ++ [⟨r.node, r.level⟩] })
    else page

/-! ## Rendering -/

/-- The renderer of the plot that is selected. -/
def renderPlot (box : BoxSize) (rootNode : Option (Node F)) (page : Page F) : Page F :=
  match page.plotType, rootNode with
  | .icicle, none => renderIcicle box none page
  | .icicle, some rootNode => initIcicle box rootNode page
  | plot, none => { page with drawn := Function.update page.drawn plot .noData }
  | plot, some rootNode =>
    { page with drawn := Function.update page.drawn plot (.hierarchy rootNode) }

def renderAll (box : BoxSize) (page : Page F) : Page F :=
  match page.profileData with
  | none => page
  | some profileData =>
    match rootName profileData page.currentRoot with
    | none => renderPlot box none page
    | some rootName =>
      match buildHierarchy profileData rootName page.currentDepth with
      | none => page
      | some rootNode => renderPlot box (some rootNode) page

/-- The functions that no edge calls, or the first twenty. -/
def hierarchyRoots (profileData : Hierarchy F) : List CStr :=
  let tops := (getTopFunctions profileData).map Prod.fst
  let roots := tops.filter fun name => profileData.callEdges.all fun edge => edge.callee ≠ name
  if roots = [] then tops.take 20 else roots

/-- The trees of the panel, one below the other. -/
def hierarchyTrees (profileData : Hierarchy F) (currentRoot : Option CStr) : List (Node F) :=
  match rootName profileData currentRoot with
  | some rootName => (buildHierarchy profileData rootName 999).toList
  | none => (hierarchyRoots profileData).filterMap fun name => buildHierarchy profileData name 999

def renderHierarchy (page : Page F) : Page F :=
  { page with
    hierarchyPanel :=
      match page.profileData with
      | none => []
      | some profileData => hierarchyTrees profileData page.currentRoot }

/-! ## Events -/

def onDataLoaded (box : BoxSize) (page : Page F) : Page F :=
  match page.profileData with
  | none => page
  | some profileData =>
    let tops := (getTopFunctions profileData).map Prod.fst
    renderHierarchy <| renderAll box
      { page with
        rootSelect := [] :: tops
        currentRoot := if ascii "main" ∈ tops then some (ascii "main") else none }

/-- `clickBreadcrumb` is a click on the link of that index, and the icicle must be on the screen
for the clicks. -/
inductive PageEvent (F : Type)
  | load (profileData : Hierarchy F)
  | selectRoot (option : ℕ)
  | setDepth (depth : ℕ)
  | selectPlot (plotType : PlotType)
  | resize
  | clickIcicle (cx cy : ℚ)
  | clickBreadcrumb (idx : ℕ)

def pageStep (page : Page F) : BoxSize × PageEvent F → Page F
  | (box, .load profileData) => onDataLoaded box { page with profileData := some profileData }
  | (box, .selectRoot option) =>
    match page.rootSelect[option]? with
    | none => page
    | some value =>
      renderHierarchy <| renderAll box
        { page with currentRoot := if value = [] then none else some value }
  | (box, .setDepth depth) =>
    renderHierarchy <| renderAll box { page with currentDepth := depth }
  | (box, .selectPlot plotType) => renderAll box { page with plotType := plotType }
  | (box, .resize) => renderAll box page
  | (box, .clickIcicle cx cy) =>
    if page.plotType = .icicle then clickIcicle box cx cy page else page
  | (box, .clickBreadcrumb idx) =>
    if page.plotType = .icicle ∧ idx + 1 < page.breadcrumb.length then zoomToIcicle box idx page
    else page

def pageRun (events : List (BoxSize × PageEvent F)) (page : Page F) : Page F :=
  events.foldl pageStep page

end Source

variable {F : Type} {page : Page F} {box : BoxSize}

/-! ## What a layout is made of -/

theorem placed_at (canvasW rowH : ℚ) (n : Node F) (level : ℕ) (x parentTotal : ℚ) :
    ∀ r ∈ (placed canvasW rowH n level x parentTotal).preorder,
      ∃ k, r.level = level + k ∧ Rose.At k n r.node := by
  induction n using Rose.induction generalizing level x parentTotal with
  | node d children ih =>
    intro r hr
    rw [placed_node, Rose.preorder_node, Rose.preorderAll_eq] at hr
    rcases List.mem_cons.1 hr with rfl | hr
    · exact ⟨0, rfl, .here _⟩
    · obtain ⟨t, ht, hr⟩ := List.mem_flatMap.1 hr
      obtain ⟨c, hc, cx, rfl⟩ := mem_placedChildren ht
      obtain ⟨k, hlevel, hat⟩ := ih c hc _ _ _ r hr
      exact ⟨k + 1, by omega, .down hc hat⟩

/-- The row of a rectangle is how far its node is below the one that is laid out. -/
theorem icicleLayout_at {n : Node F} {r : IcicleRect F} (hr : r ∈ (icicleLayout box n).allRects) :
    Rose.At r.level n r.node := by
  unfold icicleLayout layoutIcicle at hr
  dsimp only at hr
  rw [collect_eq, allRects_pushAll, List.nil_append] at hr
  obtain ⟨k, hlevel, hat⟩ := placed_at _ _ n 0 0 _ r hr
  rw [hlevel, Nat.zero_add]
  exact hat

/-! ## The zoom -/

/-- A click has led from `a` to `b`. -/
def Zooms (a b : ZoomEntry F) : Prop := Rose.At b.level a.node b.node ∧ b.node.children ≠ []

/-- The stack is a way down the hierarchy, the breadcrumb names it, and the clicks are looked up in
the layout of the last node. -/
structure Page.ZoomOk (page : Page F) : Prop where
  chain : page.icicleStack.IsChain Zooms
  breadcrumb : page.breadcrumb = page.icicleStack.map fun entry => entry.node.value.name
  onclick : ∀ layout, page.onclick = some layout →
    ∃ entry ∈ page.icicleStack.getLast?, ∃ box, layout = icicleLayout box entry.node

/-- The icicle shows the last node of the stack. -/
def Page.AtLast (page : Page F) : Prop :=
  ∃ entry ∈ page.icicleStack.getLast?, page.drawn .icicle = .hierarchy entry.node ∧
    ∃ box, page.onclick = some (icicleLayout box entry.node)

theorem renderIcicle_drawn (box : BoxSize) (n : Node F) (page : Page F) :
    (renderIcicle box (some n) page).drawn .icicle = .hierarchy n := by
  show Function.update page.drawn .icicle (.hierarchy n) .icicle = _
  rw [Function.update_self]

theorem renderIcicle_zoomOk {entry : ZoomEntry F} (hchain : page.icicleStack.IsChain Zooms)
    (hlast : entry ∈ page.icicleStack.getLast?) (box : BoxSize) :
    (renderIcicle box (some entry.node) page).ZoomOk ∧
      (renderIcicle box (some entry.node) page).AtLast :=
  ⟨⟨hchain, rfl, fun _ h => ⟨entry, hlast, box, (Option.some.inj h).symm⟩⟩,
    entry, hlast, renderIcicle_drawn box entry.node page, box, rfl⟩

/-- What a click does to the icicle: nothing, one step down, or some steps back, though not beyond
the entry `k`. -/
inductive Zoom (k : ℕ) (page page' : Page F) : Prop
  | stay (eq : page' = page)
  | down (entry : ZoomEntry F) (box : BoxSize)
      (zooms : ∀ last ∈ page.icicleStack.getLast?, Zooms last entry)
      (eq : page' = renderIcicle box (some entry.node)
        { page with icicleStack := page.icicleStack ++ [entry] })
  | back (idx : ℕ) (entry : ZoomEntry F) (box : BoxSize) (le : k ≤ idx)
      (last : entry ∈ (page.icicleStack.take (idx + 1)).getLast?)
      (eq : page' = renderIcicle box (some entry.node)
        { page with icicleStack := page.icicleStack.take (idx + 1) })

theorem clickIcicle_zoom (h : page.ZoomOk) (k : ℕ) (box : BoxSize) (cx cy : ℚ) :
    Zoom k page (clickIcicle box cx cy page) := by
  unfold clickIcicle
  cases hhit : page.onclick.bind fun layout => layout.allRects.find? fun r => r.hit cx cy with
  | none => exact .stay rfl
  | some r =>
    obtain ⟨layout, honclick, hfind⟩ := Option.bind_eq_some_iff.1 hhit
    obtain ⟨entry, hlast, box', rfl⟩ := h.onclick layout honclick
    dsimp only
    split_ifs with hchildren
    · refine .down ⟨r.node, r.level⟩ box (fun last hl => ?_) rfl
      obtain rfl := Option.mem_unique hl hlast
      exact ⟨icicleLayout_at (List.mem_of_find?_eq_some hfind),
        List.ne_nil_of_length_pos hchildren⟩
    · exact .stay rfl

theorem zoomToIcicle_zoom {k idx : ℕ} (h : k ≤ idx) (box : BoxSize) (page : Page F) :
    Zoom k page (zoomToIcicle box idx page) := by
  unfold zoomToIcicle
  cases hentry : page.icicleStack[idx]? with
  | none => exact .stay rfl
  | some entry =>
    refine .back idx entry box h ?_ rfl
    rw [List.getLast?_take, if_neg (Nat.succ_ne_zero idx), Nat.add_sub_cancel, hentry]
    rfl

theorem Zoom.zoomOk {k : ℕ} {page' : Page F} (hzoom : Zoom k page page') (h : page.ZoomOk) :
    page'.ZoomOk := by
  cases hzoom with
  | stay eq => exact eq ▸ h
  | down entry box zooms eq =>
    rw [eq]
    refine (renderIcicle_zoomOk (h.chain.append (.singleton entry) ?_) ?_ box).1
    · exact fun last hlast next hnext => Option.some.inj hnext ▸ zooms last hlast
    · exact List.getLast?_concat
  | back idx entry box le last eq =>
    rw [eq]
    exact (renderIcicle_zoomOk (h.chain.take _) last box).1

/-! ## The selection -/

structure Selection (F : Type) where
  profileData : Option (Hierarchy F)
  currentRoot : Option CStr
  currentDepth : ℕ
  rootSelect : List CStr
  plotType : PlotType
  hierarchyPanel : List (Node F)

def Page.selection (page : Page F) : Selection F :=
  ⟨page.profileData, page.currentRoot, page.currentDepth, page.rootSelect, page.plotType,
    page.hierarchyPanel⟩

def Selection.rootNode (s : Selection F) : Option (Node F) :=
  s.profileData.bind fun p =>
    (rootName p s.currentRoot).bind fun name => buildHierarchy p name s.currentDepth

/-- Only functions of the profile can be selected. -/
structure Selection.Ok (s : Selection F) : Prop where
  options : s.rootSelect =
    [] :: (s.profileData.map fun p => (getTopFunctions p).map Prod.fst).getD []
  root : ∀ name ∈ s.currentRoot, ∃ p ∈ s.profileData, name ∈ p.functions.map Prod.fst

theorem renderPlot_selection (box : BoxSize) (root : Option (Node F)) (page : Page F) :
    (renderPlot box root page).selection = page.selection := by
  unfold renderPlot
  split <;> rfl

theorem renderAll_selection (box : BoxSize) (page : Page F) :
    (renderAll box page).selection = page.selection := by
  unfold renderAll
  split
  · rfl
  · split
    · exact renderPlot_selection box none page
    · split
      · rfl
      · exact renderPlot_selection box _ page

theorem Zoom.selection {k : ℕ} {page' : Page F} (h : Zoom k page page') :
    page'.selection = page.selection := by
  cases h with
  | stay eq => rw [eq]
  | down entry box zooms eq => rw [eq]; rfl
  | back idx entry box le last eq => rw [eq]; rfl

theorem mem_getTopFunctions {p : Hierarchy F} {name : CStr} :
    name ∈ (getTopFunctions p).map Prod.fst ↔ name ∈ p.functions.map Prod.fst :=
  ((sortedDesc_perm _ _).map Prod.fst).mem_iff

theorem Selection.Ok.option_mem {s : Selection F} (hs : s.Ok) {value : CStr}
    (hvalue : value ∈ s.rootSelect) (hne : value ≠ []) :
    ∃ p ∈ s.profileData, value ∈ p.functions.map Prod.fst := by
  rw [hs.options] at hvalue
  cases hp : s.profileData with
  | none =>
    rw [hp] at hvalue
    exact absurd (List.mem_singleton.1 hvalue) hne
  | some p =>
    rw [hp] at hvalue
    exact ⟨p, rfl, mem_getTopFunctions.1 ((List.mem_cons.1 hvalue).resolve_left hne)⟩

theorem buildHierarchy_exists {p : Hierarchy F} {name : CStr}
    (h : name ∈ p.functions.map Prod.fst) (depth : ℕ) :
    ∃ n, buildHierarchy p name depth = some n := by
  obtain ⟨e, he, rfl⟩ := List.mem_map.1 h
  have hfind : (p.functions.find? fun e' => e'.1 = e.1).isSome = true :=
    List.find?_isSome.2 ⟨e, he, decide_eq_true rfl⟩
  have hget : (Dict.get e.1 p.functions).isSome = true := by
    rw [Dict.get, Option.isSome_map]
    exact hfind
  obtain ⟨f, hf⟩ := Option.isSome_iff_exists.1 hget
  cases depth <;> rw [buildHierarchy, build, hf] <;> exact ⟨_, rfl⟩

/-- What is selected, or the function that takes the most cycles, is in the profile. -/
theorem Selection.Ok.rootNode {s : Selection F} (hs : s.Ok) {p : Hierarchy F}
    (hp : s.profileData = some p) {name : CStr} (h : rootName p s.currentRoot = some name) :
    ∃ n, buildHierarchy p name s.currentDepth = some n ∧ s.rootNode = some n := by
  have hmem : name ∈ p.functions.map Prod.fst := by
    unfold rootName at h
    cases hroot : s.currentRoot with
    | some root =>
      rw [hroot, Option.some_or] at h
      obtain rfl := Option.some.inj h
      obtain ⟨p', hp', hmem⟩ := hs.root root hroot
      rw [Option.mem_unique hp hp']
      exact hmem
    | none =>
      rw [hroot, Option.none_or] at h
      obtain ⟨e, he, rfl⟩ := Option.map_eq_some_iff.1 (Option.filter_eq_some_iff.1 h).1
      exact mem_getTopFunctions.1 (List.mem_map_of_mem (List.mem_of_mem_head? he))
  obtain ⟨n, hn⟩ := buildHierarchy_exists hmem s.currentDepth
  refine ⟨n, hn, ?_⟩
  rw [Selection.rootNode, hp, Option.bind_some, h, Option.bind_some, hn]

/-! ## What the plot shows -/

/-- The icicle shows a node on the way down from the root, the other plots the root. -/
def Page.Shows (page : Page F) (rootNode : Node F) : Prop :=
  if page.plotType = .icicle then
    page.icicleStack.head? = some ⟨rootNode, 0⟩ ∧ page.AtLast
  else page.drawn page.plotType = .hierarchy rootNode

def Page.ShowsSelection (page : Page F) : Prop :=
  ∀ rootNode ∈ page.selection.rootNode, page.Shows rootNode

theorem initIcicle_zoomOk (box : BoxSize) (n : Node F) (page : Page F) :
    (initIcicle box n page).ZoomOk ∧ (initIcicle box n page).AtLast :=
  have hchain : List.IsChain Zooms { page with icicleStack := [⟨n, 0⟩] }.icicleStack :=
    .singleton _
  have hlast : ⟨n, 0⟩ ∈ { page with icicleStack := [⟨n, 0⟩] }.icicleStack.getLast? := rfl
  renderIcicle_zoomOk hchain hlast box

theorem renderPlot_icicle (h : page.plotType = .icicle) (box : BoxSize) (n : Node F) :
    renderPlot box (some n) page = initIcicle box n page := by
  unfold renderPlot
  rw [h]

theorem renderPlot_other (h : page.plotType ≠ .icicle) (box : BoxSize) (n : Node F) :
    renderPlot box (some n) page =
      { page with drawn := Function.update page.drawn page.plotType (.hierarchy n) } := by
  unfold renderPlot
  cases hplot : page.plotType with
  | icicle => exact absurd hplot h
  | pie => rfl
  | flame => rfl
  | treemap => rfl

theorem renderPlot_shows (box : BoxSize) (n : Node F) (page : Page F) :
    (renderPlot box (some n) page).Shows n := by
  have hplot : (renderPlot box (some n) page).plotType = page.plotType :=
    congrArg Selection.plotType (renderPlot_selection box (some n) page)
  rw [Page.Shows, hplot]
  split_ifs with h
  · rw [renderPlot_icicle h]
    exact ⟨rfl, (initIcicle_zoomOk box n page).2⟩
  · rw [renderPlot_other h]
    show Function.update page.drawn page.plotType (.hierarchy n) page.plotType = _
    rw [Function.update_self]

theorem renderPlot_zoomOk (h : page.ZoomOk) (box : BoxSize) (root : Option (Node F)) :
    (renderPlot box root page).ZoomOk := by
  unfold renderPlot
  split
  · exact ⟨h.chain, h.breadcrumb, h.onclick⟩
  · exact (initIcicle_zoomOk box _ page).1
  · exact ⟨h.chain, h.breadcrumb, h.onclick⟩
  · exact ⟨h.chain, h.breadcrumb, h.onclick⟩

theorem renderAll_zoomOk (h : page.ZoomOk) (box : BoxSize) : (renderAll box page).ZoomOk := by
  unfold renderAll
  split
  · exact h
  · split
    · exact renderPlot_zoomOk h box none
    · split
      · exact h
      · exact renderPlot_zoomOk h box _

theorem renderAll_shows (box : BoxSize) (page : Page F) : (renderAll box page).ShowsSelection := by
  intro n hn
  rw [renderAll_selection] at hn
  obtain ⟨p, hp, hn⟩ := Option.bind_eq_some_iff.1 hn
  obtain ⟨name, hname, hn⟩ := Option.bind_eq_some_iff.1 hn
  have hrender : renderAll box page = renderPlot box (some n) page := by
    unfold renderAll
    rw [show page.profileData = some p from hp]
    dsimp only
    rw [show rootName p page.currentRoot = some name from hname]
    dsimp only
    rw [show buildHierarchy p name page.currentDepth = some n from hn]
  rw [hrender]
  exact renderPlot_shows box n page

/-! ## Runs -/

structure Page.Ok (page : Page F) : Prop where
  zoom : page.ZoomOk
  selection : page.selection.Ok
  shows : page.ShowsSelection
  panel : ∀ p ∈ page.selection.profileData,
    page.selection.hierarchyPanel = hierarchyTrees p page.selection.currentRoot

theorem start_ok : (Page.start : Page F).Ok where
  zoom := ⟨.nil, rfl, nofun⟩
  selection := ⟨rfl, nofun⟩
  shows := nofun
  panel := nofun

theorem renderAll_ok (page : Page F) (hzoom : page.ZoomOk) (hs : page.selection.Ok)
    (hpanel : ∀ p ∈ page.selection.profileData,
      page.selection.hierarchyPanel = hierarchyTrees p page.selection.currentRoot)
    (box : BoxSize) : (renderAll box page).Ok where
  zoom := renderAll_zoomOk hzoom box
  selection := (renderAll_selection box page).symm ▸ hs
  shows := renderAll_shows box page
  panel := (renderAll_selection box page).symm ▸ hpanel

/-- The panel is rendered last, and from the selection alone. -/
theorem renderHierarchy_ok (hzoom : page.ZoomOk) (hs : page.selection.Ok)
    (hshows : page.ShowsSelection) : (renderHierarchy page).Ok := by
  refine ⟨⟨hzoom.chain, hzoom.breadcrumb, hzoom.onclick⟩, ⟨hs.options, hs.root⟩, hshows,
    fun p hp => ?_⟩
  show (match page.profileData with
    | none => []
    | some p => hierarchyTrees p page.currentRoot) = hierarchyTrees p page.currentRoot
  rw [show page.profileData = some p from hp]

theorem refresh_ok (page : Page F) (hzoom : page.ZoomOk) (hs : page.selection.Ok) (box : BoxSize) :
    (renderHierarchy (renderAll box page)).Ok :=
  renderHierarchy_ok (renderAll_zoomOk hzoom box) ((renderAll_selection box page).symm ▸ hs)
    (renderAll_shows box page)

theorem Zoom.atLast {k : ℕ} {page' : Page F} (hzoom : Zoom k page page') (h : page.AtLast) :
    page'.AtLast := by
  cases hzoom with
  | stay eq => exact eq ▸ h
  | down entry box zooms eq =>
    rw [eq]
    exact ⟨entry, List.getLast?_concat, renderIcicle_drawn box entry.node _, box, rfl⟩
  | back idx entry box le last eq =>
    rw [eq]
    exact ⟨entry, last, renderIcicle_drawn box entry.node _, box, rfl⟩

theorem Zoom.head {k : ℕ} {page' : Page F} (hzoom : Zoom k page page') {entry : ZoomEntry F}
    (h : page.icicleStack.head? = some entry) : page'.icicleStack.head? = some entry := by
  obtain ⟨entries, hstack⟩ := List.head?_eq_some_iff.1 h
  cases hzoom with
  | stay eq => exact eq ▸ h
  | down entry box zooms eq =>
    rw [eq]
    show (page.icicleStack ++ _).head? = _
    rw [hstack]
    rfl
  | back idx entry box le last eq =>
    rw [eq]
    show (page.icicleStack.take _).head? = _
    rw [hstack]
    rfl

theorem Zoom.ok {k : ℕ} {page' : Page F} (hzoom : Zoom k page page')
    (hplot : page.plotType = .icicle) (h : page.Ok) : page'.Ok := by
  refine ⟨hzoom.zoomOk h.zoom, hzoom.selection.symm ▸ h.selection, fun n hn => ?_,
    hzoom.selection.symm ▸ h.panel⟩
  rw [hzoom.selection] at hn
  have hshows := h.shows n hn
  have hplot' : page'.plotType = .icicle :=
    (congrArg Selection.plotType hzoom.selection).trans hplot
  rw [Page.Shows, if_pos hplot] at hshows
  rw [Page.Shows, if_pos hplot']
  exact ⟨hzoom.head hshows.1, hzoom.atLast hshows.2⟩

theorem pageStep_ok (h : page.Ok) (event : BoxSize × PageEvent F) : (pageStep page event).Ok := by
  obtain ⟨box, event⟩ := event
  have hzoom : page.ZoomOk := h.zoom
  have hselection := h.selection
  cases event with
  | load profileData =>
    rw [pageStep, onDataLoaded]
    refine refresh_ok { page with
        profileData := some profileData
        rootSelect := [] :: (getTopFunctions profileData).map Prod.fst
        currentRoot := if ascii "main" ∈ (getTopFunctions profileData).map Prod.fst then
          some (ascii "main") else none }
      ⟨hzoom.chain, hzoom.breadcrumb, hzoom.onclick⟩ ⟨rfl, fun name hname => ?_⟩ box
    obtain ⟨hmain, hname⟩ := Option.ite_none_right_eq_some.1 hname
    obtain rfl := Option.some.inj hname
    exact ⟨profileData, rfl, mem_getTopFunctions.1 hmain⟩
  | selectRoot option =>
    rw [pageStep]
    split
    · exact h
    · next value hvalue =>
      refine refresh_ok { page with currentRoot := if value = [] then none else some value }
        ⟨hzoom.chain, hzoom.breadcrumb, hzoom.onclick⟩
        ⟨hselection.options, fun name hname => ?_⟩ box
      obtain ⟨hne, hname⟩ := Option.ite_none_left_eq_some.1 hname
      obtain rfl := Option.some.inj hname
      exact hselection.option_mem (List.mem_of_getElem? hvalue) hne
  | setDepth depth =>
    rw [pageStep]
    exact refresh_ok { page with currentDepth := depth }
      ⟨hzoom.chain, hzoom.breadcrumb, hzoom.onclick⟩ ⟨hselection.options, hselection.root⟩ box
  | selectPlot plotType =>
    rw [pageStep]
    exact renderAll_ok { page with plotType := plotType }
      ⟨hzoom.chain, hzoom.breadcrumb, hzoom.onclick⟩ ⟨hselection.options, hselection.root⟩
      h.panel box
  | resize => exact renderAll_ok page hzoom hselection h.panel box
  | clickIcicle cx cy =>
    rw [pageStep]
    split_ifs with hplot
    · exact (clickIcicle_zoom hzoom 0 box cx cy).ok hplot h
    · exact h
  | clickBreadcrumb idx =>
    rw [pageStep]
    split_ifs with hplot
    · exact (zoomToIcicle_zoom idx.zero_le box page).ok hplot.1 h
    · exact h

theorem pageRun_ok (h : page.Ok) (events : List (BoxSize × PageEvent F)) :
    (pageRun events page).Ok := by
  induction events generalizing page with
  | nil => exact h
  | cons event events ih => exact ih (pageStep_ok h event)

/-- Whatever the user does, the plot on the screen is that of the function and the depth selected
in the profile loaded last, the panel has the tree of that function, and the icicle has been zoomed
down from its root, as the breadcrumb says. -/
theorem pageRun_shows (events : List (BoxSize × PageEvent F)) :
    let page := pageRun events Page.start
    (∀ p name, page.profileData = some p → rootName p page.currentRoot = some name →
        ∃ n, buildHierarchy p name page.currentDepth = some n ∧ page.Shows n) ∧
      (∀ p, page.profileData = some p →
        page.hierarchyPanel = hierarchyTrees p page.currentRoot) ∧
      page.icicleStack.IsChain Zooms ∧
      page.breadcrumb = page.icicleStack.map fun entry => entry.node.value.name := by
  intro page
  have h : page.Ok := pageRun_ok start_ok events
  refine ⟨fun p name hp hname => ?_, h.panel, h.zoom.chain, h.zoom.breadcrumb⟩
  obtain ⟨n, hbuild, hroot⟩ := h.selection.rootNode hp hname
  exact ⟨n, hbuild, h.shows n hroot⟩

/-! ## The way back -/

/-- A click that does not go further back than to the entry `k` of the stack. -/
def PageEvent.Clicks (k : ℕ) : PageEvent F → Prop
  | .clickIcicle _ _ => True
  | .clickBreadcrumb idx => k ≤ idx
  | _ => False

theorem Zoom.take {k : ℕ} {page' : Page F} (h : Zoom k page page')
    (hk : k < page.icicleStack.length) :
    page'.icicleStack.take (k + 1) = page.icicleStack.take (k + 1) := by
  cases h with
  | stay eq => rw [eq]
  | down entry box zooms eq =>
    rw [eq]
    exact List.take_append_of_le_length hk
  | back idx entry box le last eq =>
    rw [eq]
    show (page.icicleStack.take (idx + 1)).take (k + 1) = _
    rw [List.take_take, Nat.min_eq_left (Nat.succ_le_succ le)]

theorem pageStep_zoom {k : ℕ} (h : page.ZoomOk) {event : BoxSize × PageEvent F}
    (hclicks : event.2.Clicks k) : Zoom k page (pageStep page event) := by
  obtain ⟨box, event⟩ := event
  cases event with
  | clickIcicle cx cy =>
    rw [pageStep]
    split_ifs
    · exact clickIcicle_zoom h k box cx cy
    · exact .stay rfl
  | clickBreadcrumb idx =>
    rw [pageStep]
    split_ifs
    · exact zoomToIcicle_zoom hclicks box page
    · exact .stay rfl
  | load profileData => exact absurd hclicks id
  | selectRoot option => exact absurd hclicks id
  | setDepth depth => exact absurd hclicks id
  | selectPlot plotType => exact absurd hclicks id
  | resize => exact absurd hclicks id

/-- What clicks keep as long as they do not go further back than to the entry `k`. -/
structure KeepsWay (k : ℕ) (page page' : Page F) : Prop where
  zoomOk : page'.ZoomOk
  plotType : page'.plotType = page.plotType
  length : k < page'.icicleStack.length
  take : page'.icicleStack.take (k + 1) = page.icicleStack.take (k + 1)
  atLast : page.AtLast → page'.AtLast

theorem pageRun_keepsWay {k : ℕ} (h : page.ZoomOk) (hk : k < page.icicleStack.length)
    {clicks : List (BoxSize × PageEvent F)} (hclicks : ∀ e ∈ clicks, e.2.Clicks k) :
    KeepsWay k page (pageRun clicks page) := by
  induction clicks generalizing page with
  | nil => exact ⟨h, rfl, hk, rfl, id⟩
  | cons e clicks ih =>
    have hzoom := pageStep_zoom h (hclicks e List.mem_cons_self)
    have htake := hzoom.take hk
    have hk' : k < (pageStep page e).icicleStack.length := by
      have hlength := congrArg List.length htake
      rw [List.length_take, List.length_take] at hlength
      omega
    obtain ⟨hok, hplot, hlength, htake', hlast⟩ := ih (hzoom.zoomOk h) hk' fun e he =>
      hclicks e (List.mem_cons_of_mem _ he)
    exact ⟨hok, hplot.trans (congrArg Selection.plotType hzoom.selection), hlength,
      htake'.trans htake, fun hl => hlast (hzoom.atLast hl)⟩

/-- A link leads to its entry; without a link that is the last one. -/
theorem clickBreadcrumb_stack (h : page.ZoomOk) (hplot : page.plotType = .icicle) {k : ℕ}
    (hk : k < page.icicleStack.length) (box : BoxSize) :
    (pageStep page (box, .clickBreadcrumb k)).icicleStack = page.icicleStack.take (k + 1) := by
  rw [pageStep]
  split_ifs with hlink
  · unfold zoomToIcicle
    rw [List.getElem?_eq_getElem hk]
    rfl
  · have hlength : page.breadcrumb.length = page.icicleStack.length := by
      rw [h.breadcrumb, List.length_map]
    rw [List.take_of_length_le]
    have := (not_and.1 hlink) hplot
    omega

/-- However far the icicle has been zoomed in since, the link of an entry of the breadcrumb leads
back to it and to the way that led there. -/
theorem pageRun_zoomBack (before clicks : List (BoxSize × PageEvent F)) {k : ℕ} (box : BoxSize)
    (hplot : (pageRun before Page.start).plotType = .icicle)
    (hk : k < (pageRun before Page.start).icicleStack.length)
    (hclicks : ∀ e ∈ clicks, e.2.Clicks k) :
    let page := pageRun before Page.start
    let back := pageStep (pageRun clicks page) (box, .clickBreadcrumb k)
    back.icicleStack = page.icicleStack.take (k + 1) ∧
      back.breadcrumb = page.breadcrumb.take (k + 1) ∧
      (page.AtLast → back.drawn .icicle = .hierarchy (page.icicleStack.get ⟨k, hk⟩).node) := by
  intro page back
  have h : page.ZoomOk := (pageRun_ok start_ok before).zoom
  have hway := pageRun_keepsWay h hk hclicks
  have hstack : back.icicleStack = page.icicleStack.take (k + 1) :=
    (clickBreadcrumb_stack hway.zoomOk (hway.plotType.trans hplot) hway.length box).trans hway.take
  have hzoom : Zoom k (pageRun clicks page) back := pageStep_zoom hway.zoomOk le_rfl
  refine ⟨hstack, ?_, fun hlast => ?_⟩
  · rw [(hzoom.zoomOk hway.zoomOk).breadcrumb, hstack, h.breadcrumb, List.map_take]
  · obtain ⟨entry, hentry, hdrawn, -⟩ := hzoom.atLast (hway.atLast hlast)
    rw [hstack, List.getLast?_take, if_neg (Nat.succ_ne_zero k), Nat.add_sub_cancel,
      List.getElem?_eq_getElem hk] at hentry
    rw [hdrawn, List.get_eq_getElem, Option.some.inj hentry]

/-- `main` takes four cycles and calls `f`, which takes two of them. -/
def mainCallsF : Hierarchy Unit where
  metadata := []
  callEdges := [⟨ascii "main", ascii "f", 1⟩]
  functions :=
    [(ascii "main", ⟨4, 1, .zero, [], [(ascii "f", 1)]⟩), (ascii "f", ⟨2, 1, .zero, [], []⟩)]

/-- A click on `main` and one on `f`, and back to the first `main`. -/
theorem pageRun_zoomBack_main :
    (pageStep
      (pageRun [(⟨600, 400⟩, .clickIcicle 1 1), (⟨600, 400⟩, .clickIcicle 1 40)]
        (pageRun [(⟨600, 400⟩, .load mainCallsF), (⟨600, 400⟩, .selectPlot .icicle)] Page.start))
      (⟨600, 400⟩, .clickBreadcrumb 0)).breadcrumb = [ascii "main"] :=
  (pageRun_zoomBack [(⟨600, 400⟩, .load mainCallsF), (⟨600, 400⟩, .selectPlot .icicle)]
    [(⟨600, 400⟩, .clickIcicle 1 1), (⟨600, 400⟩, .clickIcicle 1 40)] (k := 0) ⟨600, 400⟩ rfl
    (by decide) fun e he => by
      rcases List.mem_pair.1 he with rfl | rfl <;> exact trivial).2.1

end Herve
