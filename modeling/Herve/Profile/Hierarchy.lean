import Herve.Profile.ParseCsv

/-! `build_hierarchical` of `profiler_csv_to_json.py`. Floating point is not modelled: `F` holds
the floats and `quotient x y` stands for `round(x / y, 2)`. -/

namespace Herve

/-- `sorted(d.items(), key=lambda x: key(x[1]), reverse=True)` -/
def sortedDesc {ν : Type} (key : ν → ℤ) (d : List (CStr × ν)) : List (CStr × ν) :=
  d.insertionSort fun x y => key y.2 ≤ key x.2

structure InsnEntry where
  count : ℤ
  cycles : ℤ

inductive CyclesPerCall (F : Type)
  | rounded (q : F)
  | zero

structure FuncEntry (F : Type) where
  totalCycles : ℤ
  calls : ℤ
  cyclesPerCall : CyclesPerCall F
  instructions : List (CStr × InsnEntry)
  subFunctions : List (CStr × ℤ)

structure Hierarchy (F : Type) where
  metadata : List (CStr × MetaValue)
  callEdges : List CallEdge
  functions : List (CStr × FuncEntry F)

/-- `x / y` of two integers raises `OverflowError` where the quotient rounds to `2 ^ 1024`. -/
def QuotientFits (x y : ℤ) : Prop := |x| < (2 ^ 1024 - 2 ^ 970) * |y|
  deriving Decidable

section Source
variable {F : Type} (quotient : ℤ → ℤ → F)

def cyclesPerCall (totalCycles calls : ℤ) : Option (CyclesPerCall F) :=
  if calls > 0 then
    if QuotientFits totalCycles calls then some (.rounded (quotient totalCycles calls)) else none
  else some .zero

def allTypes (data : FuncData) : List CStr :=
  (data.insnCycles.map Prod.fst ++ data.insnCounts.map Prod.fst).dedup

def instructions (data : FuncData) : List (CStr × InsnEntry) :=
  ((allTypes data).insertionSort (· ≤ ·)).map fun insnType =>
    (insnType, ⟨(Dict.get insnType data.insnCounts).getD 0,
      (Dict.get insnType data.insnCycles).getD 0⟩)

def subMap (callEdges : List CallEdge) : List (CStr × List (CStr × ℤ)) :=
  callEdges.foldl (fun m edge => Dict.modify edge.caller [] (Dict.set edge.callee edge.count) m) []

def callees (callEdges : List CallEdge) (name : CStr) : List (CStr × ℤ) :=
  (Dict.get name (subMap callEdges)).getD []

/-- Computed for every function, and not used. -/
def sortedCallees (callEdges : List CallEdge) (name : CStr) : List (CStr × ℤ) :=
  sortedDesc id (callees callEdges name)

def funcEntry (callEdges : List CallEdge) (name : CStr) (data : FuncData) :
    Option (FuncEntry F) := do
  let perCall ← cyclesPerCall quotient data.totalCycles data.calls
  some
    { totalCycles := data.totalCycles
      calls := data.calls
      cyclesPerCall := perCall
      instructions := instructions data
      subFunctions := callees callEdges name }

def buildHierarchical (p : Parsed) : Option (Hierarchy F) := do
  let functions ← Dict.mapValues (funcEntry quotient p.callEdges) p.funcData
  some ⟨p.metadata, p.callEdges, sortedDesc FuncEntry.totalCycles functions⟩

end Source

/-! ## What the result should be -/

def Parsed.outgoing (p : Parsed) (name : CStr) : List (CStr × ℤ) :=
  (p.callEdges.filter fun e => e.caller = name).map fun e => (e.callee, e.count)

def ByCount (callees : List (CStr × ℤ)) : Prop := callees.Pairwise fun c c' => c'.2 ≤ c.2
  deriving Decidable

structure FuncEntry.Represents {F : Type} (x : FuncEntry F) (data : FuncData) : Prop where
  totalCycles : x.totalCycles = data.totalCycles
  calls : x.calls = data.calls
  types : (x.instructions.map Prod.fst).Nodup
  instructions : ∀ t i, (t, i) ∈ x.instructions ↔
    (t ∈ data.insnCycles.map Prod.fst ∨ t ∈ data.insnCounts.map Prod.fst) ∧
      i.count = (Dict.get t data.insnCounts).getD 0 ∧
        i.cycles = (Dict.get t data.insnCycles).getD 0

/-- Nothing of the profile is lost, and both levels are ordered as documented. -/
structure Hierarchy.Represents {F : Type} (h : Hierarchy F) (p : Parsed) : Prop where
  metadata : h.metadata = p.metadata
  callEdges : h.callEdges = p.callEdges
  names : (h.functions.map Prod.fst).Perm (p.funcData.map Prod.fst)
  byCycles : h.functions.Pairwise fun x y => y.2.totalCycles ≤ x.2.totalCycles
  data : ∀ x ∈ h.functions, ∃ data, (x.1, data) ∈ p.funcData ∧ x.2.Represents data
  subFunctions : ∀ x ∈ h.functions, x.2.subFunctions.Perm (p.outgoing x.1)
  byCount : ∀ x ∈ h.functions, ByCount x.2.subFunctions
  edges : ∀ e ∈ p.callEdges, ∃ x ∈ h.functions, x.1 = e.caller ∧
    (e.callee, e.count) ∈ x.2.subFunctions

/-! ## Sorting -/

theorem sortedDesc_perm {ν : Type} (key : ν → ℤ) (d : List (CStr × ν)) :
    (sortedDesc key d).Perm d :=
  List.perm_insertionSort _ d

theorem sortedDesc_pairwise {ν : Type} (key : ν → ℤ) (d : List (CStr × ν)) :
    (sortedDesc key d).Pairwise fun x y => key y.2 ≤ key x.2 := by
  have : Std.Total fun x y : CStr × ν => key y.2 ≤ key x.2 := ⟨fun x y => le_total (key y.2) _⟩
  have : IsTrans (CStr × ν) fun x y => key y.2 ≤ key x.2 := ⟨fun _ _ _ h h' => le_trans h' h⟩
  exact List.pairwise_insertionSort _ d

/-- What is thrown away is ordered as the comment says. -/
theorem byCount_sortedCallees (callEdges : List CallEdge) (name : CStr) :
    ByCount (sortedCallees callEdges name) :=
  sortedDesc_pairwise id _

/-! ## What `parse_csv` hands over -/

section ParseCsv
variable {p : Parsed}

def NamesOnce (p : Parsed) : Prop := (p.funcData.map Prod.fst).Nodup
  deriving Decidable

theorem namesOnce_modifyFunc (h : NamesOnce p) (name : CStr) (f : FuncData → FuncData) :
    NamesOnce (p.modifyFunc name f) :=
  Dict.nodup_modify h _ _ _

/-- A row leaves the functions as they are or changes one of them. -/
theorem parseRow_funcData {p' : Parsed} {row : List CStr} (h : parseRow p row = some p') :
    p'.funcData = p.funcData ∨ ∃ name f, p' = p.modifyFunc name f := by
  cases row with
  | nil => exact .inl (Option.some.inj h ▸ rfl)
  | cons recordType row =>
    rw [parseRow] at h
    split_ifs at h
    · simp only [parseMeta, Option.bind_eq_bind, Option.bind_eq_some_iff] at h
      obtain ⟨_, -, _, -, h⟩ := h
      split_ifs at h
      · obtain ⟨_, -, h⟩ := Option.bind_eq_some_iff.1 h
        exact .inl (Option.some.inj h ▸ rfl)
      · exact .inl (Option.some.inj h ▸ rfl)
    · simp only [parseCall, Option.bind_eq_bind, Option.bind_eq_some_iff] at h
      obtain ⟨_, -, _, -, _, -, _, -, h⟩ := h
      exact .inl (Option.some.inj h ▸ rfl)
    · simp only [parseFunc, Option.bind_eq_bind, Option.bind_eq_some_iff] at h
      obtain ⟨_, -, _, -, _, -, _, -, h⟩ := h
      split_ifs at h
      · exact .inr ⟨_, _, (Option.some.inj h).symm⟩
      · exact .inr ⟨_, _, (Option.some.inj h).symm⟩
      · exact .inl (Option.some.inj h ▸ rfl)
    · simp only [parseInstr, Option.bind_eq_bind, Option.bind_eq_some_iff] at h
      obtain ⟨_, -, _, -, _, -, _, -, h⟩ := h
      exact .inr ⟨_, _, (Option.some.inj h).symm⟩
    · simp only [parseIcount, Option.bind_eq_bind, Option.bind_eq_some_iff] at h
      obtain ⟨_, -, _, -, _, -, _, -, h⟩ := h
      exact .inr ⟨_, _, (Option.some.inj h).symm⟩
    · exact .inl (Option.some.inj h ▸ rfl)

theorem namesOnce_parseRows {rows : List (List CStr)} {p p' : Parsed} (hp : NamesOnce p)
    (h : rows.foldlM parseRow p = some p') : NamesOnce p' := by
  induction rows generalizing p with
  | nil => exact Option.some.inj h ▸ hp
  | cons row rows ih =>
    rw [List.foldlM_cons] at h
    obtain ⟨q, hq, hrows⟩ := Option.bind_eq_some_iff.1 h
    refine ih ?_ hrows
    rcases parseRow_funcData hq with heq | ⟨name, f, rfl⟩
    · unfold NamesOnce
      rw [heq]
      exact hp
    · exact namesOnce_modifyFunc hp name f

theorem namesOnce_parseCsv {text : CStr} (h : parseCsv text = some p) : NamesOnce p :=
  namesOnce_parseRows (p := ⟨[], [], []⟩) List.nodup_nil h

end ParseCsv

/-! ## The entry of a function -/

theorem subMap_eq (callEdges : List CallEdge) :
    subMap callEdges = Dict.group (callEdges.map fun e => (e.caller, e.callee, e.count)) := by
  rw [Dict.group, List.foldl_map]
  rfl

/-- The callees of a function are its outgoing edges, in the order of the list. -/
theorem callees_eq {p : Parsed} (hedges : (p.callEdges.map fun e => (e.caller, e.callee)).Nodup)
    (name : CStr) : callees p.callEdges name = p.outgoing name := by
  rw [callees, subMap_eq, Dict.get_group, List.filter_map, List.map_map]
  · rfl
  · rw [List.map_map]
    exact hedges

def FuncData.Fits (data : FuncData) : Prop :=
  data.calls > 0 → QuotientFits data.totalCycles data.calls
  deriving Decidable

variable {F : Type} (quotient : ℤ → ℤ → F)

def perCall (data : FuncData) : CyclesPerCall F :=
  if data.calls > 0 then .rounded (quotient data.totalCycles data.calls) else .zero

def entryOf (callEdges : List CallEdge) (name : CStr) (data : FuncData) : FuncEntry F :=
  ⟨data.totalCycles, data.calls, perCall quotient data, instructions data,
    callees callEdges name⟩

theorem funcEntry_of_fits {data : FuncData} (h : data.Fits) (callEdges : List CallEdge)
    (name : CStr) :
    funcEntry quotient callEdges name data = some (entryOf quotient callEdges name data) := by
  unfold funcEntry cyclesPerCall entryOf perCall
  by_cases hcalls : data.calls > 0
  · rw [if_pos hcalls, if_pos (h hcalls), if_pos hcalls]
    rfl
  · rw [if_neg hcalls, if_neg hcalls]
    rfl

theorem funcEntry_of_not_fits {data : FuncData} (h : ¬ data.Fits) (callEdges : List CallEdge)
    (name : CStr) : funcEntry quotient callEdges name data = none := by
  obtain ⟨hcalls, hfits⟩ := Classical.not_imp.1 h
  unfold funcEntry cyclesPerCall
  rw [if_pos hcalls, if_neg hfits]
  rfl

theorem instructions_types (data : FuncData) :
    (instructions data).map Prod.fst = (allTypes data).insertionSort (· ≤ ·) := by
  unfold instructions
  rw [List.map_map]
  exact List.map_id _

theorem mem_allTypes {data : FuncData} {t : CStr} :
    t ∈ allTypes data ↔
      t ∈ data.insnCycles.map Prod.fst ∨ t ∈ data.insnCounts.map Prod.fst := by
  rw [allTypes, List.mem_dedup, List.mem_append]

theorem entryOf_represents (callEdges : List CallEdge) (name : CStr) (data : FuncData) :
    (entryOf quotient callEdges name data).Represents data where
  totalCycles := rfl
  calls := rfl
  types := by
    show ((instructions data).map Prod.fst).Nodup
    rw [instructions_types, (List.perm_insertionSort _ _).nodup_iff]
    exact List.nodup_dedup _
  instructions t i := by
    show (t, i) ∈ instructions data ↔ _
    rw [← mem_allTypes, instructions, List.mem_map]
    constructor
    · rintro ⟨t', ht', heq⟩
      obtain ⟨rfl, rfl⟩ := Prod.mk.inj heq
      exact ⟨(List.mem_insertionSort _).1 ht', rfl, rfl⟩
    · rintro ⟨ht, hcount, hcycles⟩
      refine ⟨t, (List.mem_insertionSort _).2 ht, ?_⟩
      rw [← hcount, ← hcycles]

/-! ## The whole result -/

def hierarchyOf (p : Parsed) : Hierarchy F :=
  ⟨p.metadata, p.callEdges, sortedDesc FuncEntry.totalCycles
    (p.funcData.map fun x => (x.1, entryOf quotient p.callEdges x.1 x.2))⟩

variable {p : Parsed}

theorem buildHierarchical_of_fits (hnames : NamesOnce p)
    (hfits : ∀ x ∈ p.funcData, x.2.Fits) :
    buildHierarchical quotient p = some (hierarchyOf quotient p) := by
  unfold buildHierarchical
  rw [Dict.mapValues_eq hnames fun x hx => funcEntry_of_fits quotient (hfits x hx) _ _]
  rfl

theorem buildHierarchical_of_not_fits {x : CStr × FuncData} (hx : x ∈ p.funcData)
    (hfits : ¬ x.2.Fits) : buildHierarchical quotient p = none := by
  unfold buildHierarchical
  rw [Dict.mapValues_eq_none hx (funcEntry_of_not_fits quotient hfits _ _)]
  rfl

theorem mem_hierarchyOf {y : CStr × FuncEntry F} :
    y ∈ (hierarchyOf quotient p).functions ↔
      ∃ x ∈ p.funcData, (x.1, entryOf quotient p.callEdges x.1 x.2) = y :=
  (sortedDesc_perm _ _).mem_iff.trans List.mem_map

theorem hierarchyOf_represents_iff
    (hedges : (p.callEdges.map fun e => (e.caller, e.callee)).Nodup)
    (hcallers : ∀ e ∈ p.callEdges, e.caller ∈ p.funcData.map Prod.fst) :
    (hierarchyOf quotient p).Represents p ↔ ∀ x ∈ p.funcData, ByCount (p.outgoing x.1) := by
  have hcallees := callees_eq hedges
  constructor
  · intro h x hx
    rw [← hcallees]
    exact h.byCount _ ((mem_hierarchyOf quotient).2 ⟨x, hx, rfl⟩)
  · intro h
    refine ⟨rfl, rfl, ?_, sortedDesc_pairwise _ _, ?_, ?_, ?_, ?_⟩
    · refine ((sortedDesc_perm _ _).map Prod.fst).trans (List.Perm.of_eq ?_)
      rw [List.map_map]
      rfl
    · intro y hy
      obtain ⟨x, hx, rfl⟩ := (mem_hierarchyOf quotient).1 hy
      exact ⟨x.2, hx, entryOf_represents quotient _ _ _⟩
    · intro y hy
      obtain ⟨x, -, rfl⟩ := (mem_hierarchyOf quotient).1 hy
      exact List.Perm.of_eq (hcallees x.1)
    · intro y hy
      obtain ⟨x, hx, rfl⟩ := (mem_hierarchyOf quotient).1 hy
      show ByCount (callees p.callEdges x.1)
      rw [hcallees]
      exact h x hx
    · intro e he
      obtain ⟨x, hx, hname⟩ := List.mem_map.1 (hcallers e he)
      refine ⟨_, (mem_hierarchyOf quotient).2 ⟨x, hx, rfl⟩, hname, ?_⟩
      show _ ∈ callees p.callEdges x.1
      rw [hcallees, hname]
      exact List.mem_map.2 ⟨e, List.mem_filter.2 ⟨he, decide_eq_true rfl⟩, rfl⟩

/-- The callees keep the order of the edges, so the result is ordered as documented exactly if
the edges of each function come in that order. -/
theorem buildHierarchical_represents_iff (hnames : NamesOnce p)
    (hedges : (p.callEdges.map fun e => (e.caller, e.callee)).Nodup)
    (hcallers : ∀ e ∈ p.callEdges, e.caller ∈ p.funcData.map Prod.fst) :
    (∃ h, buildHierarchical quotient p = some h ∧ h.Represents p) ↔
      (∀ x ∈ p.funcData, x.2.Fits) ∧ ∀ x ∈ p.funcData, ByCount (p.outgoing x.1) := by
  by_cases hfits : ∀ x ∈ p.funcData, x.2.Fits
  · rw [buildHierarchical_of_fits quotient hnames hfits, and_iff_right hfits,
      ← hierarchyOf_represents_iff quotient hedges hcallers]
    constructor
    · rintro ⟨h, heq, hrep⟩
      rwa [Option.some.inj heq]
    · exact fun hrep => ⟨_, rfl, hrep⟩
  · refine iff_of_false ?_ fun h => hfits h.1
    rintro ⟨h, heq, -⟩
    push Not at hfits
    obtain ⟨x, hx, hnot⟩ := hfits
    rw [buildHierarchical_of_not_fits quotient hx hnot] at heq
    exact Option.some_ne_none h heq.symm

/-! ## Two callees -/

/-- `main` calls `init` once and then `work` twice. -/
def twoCallees (edges : List CallEdge) : Parsed :=
  ⟨[], edges, [(ascii "main", ⟨10, 1, [(ascii "ALU", 10)], [(ascii "ALU", 4)]⟩),
    (ascii "init", ⟨3, 1, [], []⟩), (ascii "work", ⟨8, 2, [], []⟩)]⟩

def mainInit : CallEdge := ⟨ascii "main", ascii "init", 1⟩

def mainWork : CallEdge := ⟨ascii "main", ascii "work", 2⟩

theorem buildHierarchical_represents_ordered :
    ∃ h, buildHierarchical (fun x y => (x / y : ℚ)) (twoCallees [mainWork, mainInit]) = some h ∧
      h.Represents (twoCallees [mainWork, mainInit]) :=
  (buildHierarchical_represents_iff _ (by decide) (by decide) (by decide)).2
    ⟨by decide +kernel, by decide⟩

theorem buildHierarchical_not_represents :
    ¬ ∃ h, buildHierarchical (fun x y => (x / y : ℚ)) (twoCallees [mainInit, mainWork]) = some h ∧
      h.Represents (twoCallees [mainInit, mainWork]) := by
  rintro ⟨h, heq, hrep⟩
  rw [buildHierarchical_of_fits _ (by decide) (by decide +kernel)] at heq
  rw [← Option.some.inj heq, hierarchyOf_represents_iff _ (by decide) (by decide)] at hrep
  exact absurd hrep (by decide)

end Herve
