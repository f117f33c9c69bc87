import Herve.Iss.State
import Herve.Profile.Counts

/-! The call graph against the records: every entry into a function that is not a return is
counted once in its calls and, if it is a call or jump from a known function, once on an edge.
The counters are 64 bits wide, so this is an equation modulo `2 ^ 64`. -/

namespace Herve
open RiscV

/-! ## Entries -/

def withPrevious : Option Record → List Record → List (Option Record × Record)
  | _, [] => []
  | prev, r :: records => (prev, r) :: withPrevious (some r) records

def previousFunc (symbols : List Symbol) (prev : Option Record) : Option SymbolName :=
  prev.bind (Record.func symbols)

def previousCf (prev : Option Record) : CfType := prev.elim .none Record.cf

/-- The name of the function that `r` enters, coming from `prev`. -/
def crossing (symbols : List Symbol) (prev : Option Record) (r : Record) : Option CStr :=
  match r.func symbols with
  | some f =>
    if (previousFunc symbols prev).map SymbolName.ptr = some f.ptr then none else some f.str
  | none => none

def ByReturn (prev : Option Record) : Prop := previousCf prev = .ret
  deriving Decidable

/-- A call or jump from a function with a known symbol. -/
def ByCall (symbols : List Symbol) (prev : Option Record) : Prop :=
  (previousCf prev = .call ∨ previousCf prev = .jump) ∧ (previousFunc symbols prev).isSome = true
  deriving Decidable

def entryCount (symbols : List Symbol) (P : Option Record → Prop) [DecidablePred P] (name : CStr)
    (records : List Record) : ℕ :=
  (withPrevious none records).countP fun x => crossing symbols x.1 x.2 = some name ∧ P x.1

/-- The entries into a function that are not returns. -/
def countedEntries (symbols : List Symbol) (records : List Record) (name : CStr) : ℕ :=
  entryCount symbols (fun prev => ¬ ByReturn prev) name records

def callEntries (symbols : List Symbol) (records : List Record) (name : CStr) : ℕ :=
  entryCount symbols (ByCall symbols) name records

/-- The entries that are neither returns nor calls or jumps from a known function. -/
def otherEntries (symbols : List Symbol) (records : List Record) (name : CStr) : ℕ :=
  entryCount symbols (fun prev => ¬ ByReturn prev ∧ ¬ ByCall symbols prev) name records

theorem withPrevious_concat (prev : Option Record) (records : List Record) (r : Record) :
    withPrevious prev (records ++ [r]) =
      withPrevious prev records ++ [(records.getLast?.or prev, r)] := by
  induction records generalizing prev with
  | nil => rfl
  | cons x xs ih =>
    rw [List.cons_append, withPrevious, ih, withPrevious, List.cons_append, List.getLast?_cons]
    cases xs.getLast? <;> rfl

theorem entryCount_concat (symbols : List Symbol) (P : Option Record → Prop) [DecidablePred P]
    (name : CStr) (records : List Record) (r : Record) :
    entryCount symbols P name (records ++ [r]) = entryCount symbols P name records +
      if crossing symbols records.getLast? r = some name ∧ P records.getLast? then 1 else 0 := by
  unfold entryCount
  rw [withPrevious_concat, List.countP_append, Option.or_none, List.countP_singleton]
  simp only [decide_eq_true_eq]

theorem countedEntries_eq (symbols : List Symbol) (name : CStr) (records : List Record) :
    countedEntries symbols records name =
      callEntries symbols records name + otherEntries symbols records name := by
  unfold countedEntries callEntries otherEntries
  induction records using List.reverseRecOn with
  | nil => rfl
  | append_singleton records r ih =>
    rw [entryCount_concat, entryCount_concat, entryCount_concat, ih]
    have hret : ByCall symbols records.getLast? → ¬ ByReturn records.getLast? := by
      rintro ⟨hcf | hcf, -⟩ hret
      · exact absurd (hcf.symm.trans hret) (by decide)
      · exact absurd (hcf.symm.trans hret) (by decide)
    by_cases hcross : crossing symbols records.getLast? r = some name
    · by_cases hcall : ByCall symbols records.getLast?
      · simp only [hcross, hcall, hret hcall, not_false_eq_true, not_true_eq_false, and_true,
          and_false, if_true, if_false]
        omega
      · simp only [hcross, hcall, not_false_eq_true, and_true, and_false, if_false, true_and]
        omega
    · simp only [hcross, false_and, if_false, add_zero]

/-! ## Calls of a function -/

def callsOf (name : CStr) (stats : List FuncStats) : BitVec 64 :=
  Tally.valueAt FuncStats.name FuncStats.calls name stats

variable {stats : List FuncStats}

theorem callsOf_spend (name k : CStr) (type : InsnType) (cycles : BitVec 64) :
    callsOf name (updateFuncStats k (FuncStats.spend type cycles) stats) = callsOf name stats := by
  rw [updateFuncStats_eq, callsOf, Tally.valueAt_upsert (d := 0)]
  · rw [ite_self, add_zero]
    rfl
  · exact fun _ => rfl
  · exact fun fs => (add_zero fs.calls).symm
  · rfl
  · rfl

theorem callsOf_call (name k : CStr) :
    callsOf name (updateFuncStats k FuncStats.call stats) =
      callsOf name stats + if k = name then 1 else 0 := by
  rw [updateFuncStats_eq, callsOf, Tally.valueAt_upsert (d := 1)]
  · rfl
  · exact fun _ => rfl
  · exact fun _ => rfl
  · rfl
  · rfl

theorem mem_names_spend (k : CStr) (type : InsnType) (cycles : BitVec 64) {n : CStr} :
    n ∈ (updateFuncStats k (FuncStats.spend type cycles) stats).map FuncStats.name ↔
      n = k ∨ n ∈ stats.map FuncStats.name := by
  rw [updateFuncStats_eq]
  refine Tally.mem_key_upsert ?_ ?_
  · rfl
  · exact fun _ hk => hk

theorem mem_names_call (k : CStr) {n : CStr} :
    n ∈ (updateFuncStats k FuncStats.call stats).map FuncStats.name ↔
      n = k ∨ n ∈ stats.map FuncStats.name := by
  rw [updateFuncStats_eq]
  refine Tally.mem_key_upsert ?_ ?_
  · rfl
  · exact fun _ hk => hk

/-! ## Edges into a function -/

/-- An edge with a counter that does not wrap. -/
abbrev Edge := (CStr × CStr) × ℕ

def Edge.pair (e : Edge) : CallPair := ⟨e.1.1, e.1.2, BitVec.ofNat 64 e.2⟩

def addEdge (k : CStr × CStr) : List Edge → List Edge :=
  Tally.upsert Prod.fst k (k, 0) fun e => (e.1, e.2 + 1)

def edgesTo (name : CStr) (edges : List Edge) : ℕ :=
  (edges.map fun e => if e.1.2 = name then e.2 else 0).sum

theorem addEdge_pair (caller callee : CStr) (edges : List Edge) :
    (addEdge (caller, callee) edges).map Edge.pair =
      recordCallEdge (some caller) callee (edges.map Edge.pair) := by
  rw [recordCallEdge_eq]
  refine Tally.map_upsert (fun _ => rfl) (fun e => ?_) rfl
  show CallPair.mk e.1.1 e.1.2 (BitVec.ofNat 64 (e.2 + 1)) = ⟨e.1.1, e.1.2, _⟩
  rw [BitVec.ofNat_add]
  rfl

theorem edgesTo_addEdge {edges : List Edge} (hnodup : (edges.map Prod.fst).Nodup) (name : CStr)
    (k : CStr × CStr) :
    edgesTo name (addEdge k edges) = edgesTo name edges + if k.2 = name then 1 else 0 := by
  refine Tally.sum_upsert hnodup (fun e hk => ?_) ?_
  · dsimp only
    rw [hk]
    split_ifs
    · rfl
    · rfl
  · exact ite_congr rfl (fun _ => zero_add 1) fun _ => rfl

theorem nodup_addEdge {edges : List Edge} (hnodup : (edges.map Prod.fst).Nodup)
    (k : CStr × CStr) : ((addEdge k edges).map Prod.fst).Nodup :=
  Tally.nodup_upsert rfl (fun _ hk => hk) hnodup

theorem mem_addEdge {edges : List Edge} {k k' : CStr × CStr} :
    k' ∈ (addEdge k edges).map Prod.fst ↔ k' = k ∨ k' ∈ edges.map Prod.fst := by
  refine Tally.mem_key_upsert ?_ ?_
  · rfl
  · exact fun _ hk => hk

/-! ## The invariant -/

/-- The graph after `records`, its edges counted by `edges` without wrapping. -/
structure GraphInvariant (symbols : List Symbol) (records : List Record) (edges : List Edge)
    (p : Profiler) : Prop where
  lastFunc : p.lastFunc.map SymbolName.ptr =
    (previousFunc symbols records.getLast?).map SymbolName.ptr
  lastCf : p.lastCf = previousCf records.getLast?
  known : ∀ g, p.lastFunc = some g → g.str ∈ p.funcStats.map FuncStats.name
  distinct : (edges.map Prod.fst).Nodup
  ends : ∀ k ∈ edges.map Prod.fst,
    k.1 ∈ p.funcStats.map FuncStats.name ∧ k.2 ∈ p.funcStats.map FuncStats.name
  pairs : p.callPairs = edges.map Edge.pair
  calls : ∀ name, callsOf name p.funcStats = BitVec.ofNat 64 (countedEntries symbols records name)
  edgesTo : ∀ name, edgesTo name edges = callEntries symbols records name

variable {symbols : List Symbol} {records : List Record} {edges : List Edge} {p : Profiler}
  {r : Record} {f : SymbolName}

theorem GraphInvariant.enable (p : Profiler) :
    GraphInvariant symbols [] [] (herveProfilerEnable true p) where
  lastFunc := rfl
  lastCf := rfl
  known _ h := by cases h
  distinct := List.nodup_nil
  ends _ h := absurd h List.not_mem_nil
  pairs := rfl
  calls _ := rfl
  edgesTo _ := rfl

theorem crossing_outside (hf : r.func symbols = none) (prev : Option Record) :
    crossing symbols prev r = none := by
  rw [crossing, hf]

/-- The profiler takes for an entry what is one from the record before. -/
theorem GraphInvariant.crossing_iff (h : GraphInvariant symbols records edges p)
    (hf : r.func symbols = some f) (name : CStr) :
    crossing symbols records.getLast? r = some name ↔ p.Enters f ∧ f.str = name := by
  unfold crossing Profiler.Enters
  rw [hf, h.lastFunc]
  dsimp only
  split_ifs with hsame
  · exact iff_of_false (by simp) fun hne => hne.1 hsame
  · rw [Option.some.injEq]
    exact (and_iff_right hsame).symm

theorem previous_concat (records : List Record) (r : Record) :
    (records ++ [r]).getLast? = some r := List.getLast?_concat

/-- What a record outside the known functions changes: the next entry comes from nowhere. -/
theorem GraphInvariant.record_outside (h : GraphInvariant symbols records edges p)
    (henabled : p.profilingEnabled = true) (hf : r.func symbols = none) :
    GraphInvariant symbols (records ++ [r]) edges (record symbols p r) := by
  have hcount : ∀ (P : Option Record → Prop) [DecidablePred P] (name : CStr),
      entryCount symbols P name (records ++ [r]) = entryCount symbols P name records := by
    intro P _ name
    rw [entryCount_concat, crossing_outside hf, if_neg (by simp)]
    rfl
  rw [Herve.record_outside henabled hf]
  constructor
  case lastFunc =>
    rw [previous_concat]
    exact (congrArg (Option.map SymbolName.ptr) hf).symm
  case lastCf =>
    rw [previous_concat]
    rfl
  case known => exact fun g hg => by cases hg
  case distinct => exact h.distinct
  case ends => exact h.ends
  case pairs => exact h.pairs
  case calls => exact fun name => (h.calls name).trans (congrArg _ (hcount _ name).symm)
  case edgesTo => exact fun name => (h.edgesTo name).trans (hcount _ name).symm

/-- The function entries after a record in `f`, `called` saying whether it counts as a call. -/
def statsInside (f : SymbolName) (type : InsnType) (cycles : BitVec 64) (called : Prop)
    [Decidable called] (stats : List FuncStats) : List FuncStats :=
  if called then
    updateFuncStats f.str FuncStats.call (updateFuncStats f.str (FuncStats.spend type cycles) stats)
  else updateFuncStats f.str (FuncStats.spend type cycles) stats

section
variable {type : InsnType} {cycles : BitVec 64} {called : Prop} [Decidable called]

theorem mem_names_inside {n : CStr} :
    n ∈ (statsInside f type cycles called stats).map FuncStats.name ↔
      n = f.str ∨ n ∈ stats.map FuncStats.name := by
  unfold statsInside
  split_ifs
  · rw [mem_names_call, mem_names_spend, or_self_left]
  · exact mem_names_spend _ _ _

theorem callsOf_inside (name : CStr) :
    callsOf name (statsInside f type cycles called stats) =
      callsOf name stats + if f.str = name ∧ called then 1 else 0 := by
  unfold statsInside
  by_cases hcalled : called
  · rw [if_pos hcalled, callsOf_call, callsOf_spend]
    simp only [hcalled, and_true]
  · rw [if_neg hcalled, callsOf_spend, if_neg fun h => hcalled h.2, add_zero]

end

theorem GraphInvariant.edge (h : GraphInvariant symbols records edges p) (f : SymbolName) :
    ∃ edges' : List Edge, (edges'.map Prod.fst).Nodup ∧
      (∀ k ∈ edges'.map Prod.fst, k ∈ edges.map Prod.fst ∨
        k.1 ∈ p.funcStats.map FuncStats.name ∧ k.2 = f.str) ∧
      recordCallEdge (p.lastFunc.map SymbolName.str) f.str p.callPairs = edges'.map Edge.pair ∧
      ∀ name, Herve.edgesTo name edges' = Herve.edgesTo name edges +
        if f.str = name ∧ (previousFunc symbols records.getLast?).isSome = true then 1 else 0 := by
  have hsome : (previousFunc symbols records.getLast?).isSome = p.lastFunc.isSome := by
    rw [← Option.isSome_map (f := SymbolName.ptr), ← h.lastFunc, Option.isSome_map]
  rw [hsome, h.pairs]
  rcases hg : p.lastFunc with _ | g
  · exact ⟨edges, h.distinct, fun k hk => .inl hk, rfl, fun name => by simp⟩
  · refine ⟨addEdge (g.str, f.str) edges, nodup_addEdge h.distinct _, fun k hk => ?_,
      (addEdge_pair g.str f.str edges).symm, fun name => ?_⟩
    · rcases mem_addEdge.1 hk with rfl | hk
      · exact .inr ⟨h.known g hg, rfl⟩
      · exact .inl hk
    · rw [edgesTo_addEdge h.distinct]
      simp

theorem GraphInvariant.edges_inside (h : GraphInvariant symbols records edges p)
    (hf : r.func symbols = some f) :
    ∃ edges' : List Edge, (edges'.map Prod.fst).Nodup ∧
      (∀ k ∈ edges'.map Prod.fst, k ∈ edges.map Prod.fst ∨
        k.1 ∈ p.funcStats.map FuncStats.name ∧ k.2 = f.str) ∧
      (if p.Enters f ∧ (p.lastCf = .call ∨ p.lastCf = .jump) then
          recordCallEdge (p.lastFunc.map SymbolName.str) f.str p.callPairs
        else p.callPairs) = edges'.map Edge.pair ∧
      ∀ name, Herve.edgesTo name edges' = callEntries symbols (records ++ [r]) name := by
  have hcall : ByCall symbols records.getLast? ↔ (p.lastCf = .call ∨ p.lastCf = .jump) ∧
      (previousFunc symbols records.getLast?).isSome = true := by rw [ByCall, h.lastCf]
  have hcount : ∀ name, callEntries symbols (records ++ [r]) name =
      Herve.edgesTo name edges + if (p.Enters f ∧ f.str = name) ∧
        (p.lastCf = .call ∨ p.lastCf = .jump) ∧
          (previousFunc symbols records.getLast?).isSome = true then 1 else 0 := by
    intro name
    rw [callEntries, entryCount_concat, h.edgesTo]
    simp only [h.crossing_iff hf, hcall]
    rfl
  by_cases henters : p.Enters f ∧ (p.lastCf = .call ∨ p.lastCf = .jump)
  · obtain ⟨edges', hdistinct, hends, hpairs, hto⟩ := h.edge f
    rw [if_pos henters]
    refine ⟨edges', hdistinct, hends, hpairs, fun name => ?_⟩
    rw [hto, hcount]
    simp only [henters.1, henters.2, true_and]
  · rw [if_neg henters]
    refine ⟨edges, h.distinct, fun k hk => .inl hk, h.pairs, fun name => ?_⟩
    rw [hcount, if_neg fun hand => henters ⟨hand.1.1, hand.2.1⟩, add_zero]

theorem GraphInvariant.record_inside (h : GraphInvariant symbols records edges p)
    (henabled : p.profilingEnabled = true) (hf : r.func symbols = some f) :
    ∃ edges', GraphInvariant symbols (records ++ [r]) edges' (record symbols p r) := by
  obtain ⟨edges', hdistinct, hends, hpairs, hto⟩ := h.edges_inside hf
  have hmem : ∀ n, n ∈ (record symbols p r).funcStats.map FuncStats.name ↔
      n = f.str ∨ n ∈ p.funcStats.map FuncStats.name := by
    intro n
    rw [Herve.record_inside henabled hf]
    exact mem_names_inside
  have hcalls : ∀ name, callsOf name (record symbols p r).funcStats =
      callsOf name p.funcStats + if f.str = name ∧ p.Enters f ∧ p.lastCf ≠ .ret then 1 else 0 := by
    intro name
    rw [Herve.record_inside henabled hf]
    exact callsOf_inside name
  have hlast : (record symbols p r).lastFunc = if p.Enters f then some f else p.lastFunc := by
    rw [Herve.record_inside henabled hf]
  refine ⟨edges', ?_⟩
  constructor
  case lastFunc =>
    have hfunc : previousFunc symbols (some r) = some f := hf
    rw [previous_concat, hfunc, hlast]
    split_ifs with henters
    · rfl
    · exact not_not.1 henters
  case lastCf =>
    rw [previous_concat, Herve.record_inside henabled hf]
    rfl
  case known =>
    intro g hg
    rw [hlast] at hg
    rw [hmem]
    split_ifs at hg
    · cases hg
      exact .inl rfl
    · exact .inr (h.known g hg)
  case distinct => exact hdistinct
  case ends =>
    intro k hk
    rw [hmem, hmem]
    rcases hends k hk with hk | ⟨h₁, h₂⟩
    · exact (h.ends k hk).imp .inr .inr
    · exact ⟨.inr h₁, .inl h₂⟩
  case pairs =>
    rw [Herve.record_inside henabled hf]
    exact hpairs
  case calls =>
    intro name
    have hret : ByReturn records.getLast? ↔ p.lastCf = .ret := by rw [ByReturn, h.lastCf]
    rw [hcalls, h.calls]
    unfold countedEntries
    rw [entryCount_concat, BitVec.ofNat_add]
    simp only [h.crossing_iff hf, hret, and_comm (a := p.Enters f), and_assoc]
    split_ifs
    · rfl
    · rfl
  case edgesTo => exact hto

/-! ## The graph against the records -/

theorem graph_invariant (symbols : List Symbol) (records : List Record) (p : Profiler) :
    ∃ edges, GraphInvariant symbols records edges
      (recordAll symbols records (herveProfilerEnable true p)) := by
  induction records using List.reverseRecOn with
  | nil => exact ⟨[], GraphInvariant.enable p⟩
  | append_singleton records r ih =>
    obtain ⟨edges, ih⟩ := ih
    have henabled := recordAll_enabled symbols records p
    rw [recordAll_concat]
    rcases hf : r.func symbols with _ | f
    · exact ⟨edges, ih.record_outside henabled hf⟩
    · exact ih.record_inside henabled hf

def edgesInto (name : CStr) (pairs : List CallPair) : ℕ :=
  (pairs.map fun cp => if cp.callee = name then cp.count.toNat else 0).sum

theorem edgesInto_ofNat (name : CStr) (edges : List Edge) :
    BitVec.ofNat 64 (edgesInto name (edges.map Edge.pair)) =
      BitVec.ofNat 64 (edgesTo name edges) := by
  induction edges with
  | nil => rfl
  | cons e edges ih =>
    have hhead : BitVec.ofNat 64 (if e.pair.callee = name then e.pair.count.toNat else 0) =
        BitVec.ofNat 64 (if e.1.2 = name then e.2 else 0) := by
      show BitVec.ofNat 64 (if e.1.2 = name then (BitVec.ofNat 64 e.2).toNat else 0) = _
      split_ifs
      · exact BitVec.ofNat_toNat 64 _
      · rfl
    unfold edgesInto edgesTo at ih ⊢
    rw [List.map_cons, List.map_cons, List.map_cons, List.sum_cons, List.sum_cons,
      BitVec.ofNat_add, BitVec.ofNat_add, ih, hhead]

theorem edgesInto_of_lt {name : CStr} {edges : List Edge} (h : edgesTo name edges < 2 ^ 64) :
    edgesInto name (edges.map Edge.pair) = edgesTo name edges := by
  induction edges with
  | nil => rfl
  | cons e edges ih =>
    have hsplit : edgesTo name (e :: edges) =
        (if e.1.2 = name then e.2 else 0) + edgesTo name edges := List.sum_cons
    have hrest := ih (by omega)
    have hhead : (if e.1.2 = name then (BitVec.ofNat 64 e.2).toNat else 0) =
        if e.1.2 = name then e.2 else 0 := by
      split_ifs with hname
      · rw [if_pos hname] at hsplit
        rw [BitVec.toNat_ofNat, Nat.mod_eq_of_lt (by omega)]
      · rfl
    rw [hsplit, ← hrest, ← hhead]
    exact List.sum_cons

theorem calls_eq_callsOf (hnodup : (stats.map FuncStats.name).Nodup) {fs : FuncStats}
    (hfs : fs ∈ stats) : fs.calls = callsOf fs.name stats :=
  (Tally.valueAt_of_mem hnodup hfs).symm

structure Profiler.GraphWellFormed (p : Profiler) : Prop where
  distinct : (p.callPairs.map CallPair.ends).Nodup
  ends : ∀ cp ∈ p.callPairs, cp.caller ∈ p.funcStats.map FuncStats.name ∧
    cp.callee ∈ p.funcStats.map FuncStats.name

theorem graph_wellFormed (symbols : List Symbol) (records : List Record) (p : Profiler) :
    (recordAll symbols records (herveProfilerEnable true p)).GraphWellFormed := by
  obtain ⟨edges, h⟩ := graph_invariant symbols records p
  have hends : edges.map (CallPair.ends ∘ Edge.pair) = edges.map Prod.fst := rfl
  constructor
  · rw [h.pairs, List.map_map, hends]
    exact h.distinct
  · intro cp hcp
    rw [h.pairs] at hcp
    obtain ⟨e, he, rfl⟩ := List.mem_map.1 hcp
    exact h.ends e.1 (List.mem_map_of_mem he)

/-- The calls of each function are the counts of the edges into it and `others`. -/
def Profiler.Accounted (p : Profiler) (others : CStr → ℕ) : Prop :=
  p.GraphWellFormed ∧
    ∀ fs ∈ p.funcStats, edgesInto fs.name p.callPairs + others fs.name = fs.calls.toNat

/-- The calls of a function are the counts of its edges and its other entries: modulo `2 ^ 64`
always, and as numbers until it has been entered that often. -/
theorem callGraph_accounted (symbols : List Symbol) (records : List Record) (p : Profiler) :
    let q := recordAll symbols records (herveProfilerEnable true p)
    q.GraphWellFormed ∧ ∀ fs ∈ q.funcStats,
      fs.calls = BitVec.ofNat 64
        (edgesInto fs.name q.callPairs + otherEntries symbols records fs.name) ∧
      (countedEntries symbols records fs.name < 2 ^ 64 →
        edgesInto fs.name q.callPairs + otherEntries symbols records fs.name =
          fs.calls.toNat) := by
  obtain ⟨edges, h⟩ := graph_invariant symbols records p
  have hnodup := (profiler_conserved symbols records p).stats.names
  refine ⟨graph_wellFormed symbols records p, fun fs hfs => ?_⟩
  have hcalls := (calls_eq_callsOf hnodup hfs).trans (h.calls fs.name)
  have hcount := countedEntries_eq symbols fs.name records
  have hto := h.edgesTo fs.name
  rw [h.pairs]
  constructor
  · rw [hcalls, hcount, BitVec.ofNat_add, BitVec.ofNat_add, edgesInto_ofNat, hto]
  · intro hlt
    rw [edgesInto_of_lt (by omega), hto, ← hcount, hcalls, BitVec.toNat_ofNat,
      Nat.mod_eq_of_lt hlt]

/-! ## A counter that wraps -/

/-- `g` at 0, `f` behind it. -/
def twoFunctions : List Symbol := [⟨0, 4, ⟨1, [0x67]⟩⟩, ⟨4, 4, ⟨2, [0x66]⟩⟩]

/-- `n` calls of `f` from `g`, then `g` falls through into `f`. -/
def callsThenFall (n : ℕ) : List Record :=
  (List.replicate n [⟨.jump, 0, 0x004000EF⟩, ⟨.alu, 4, 0x00000013⟩]).flatten ++
    [⟨.alu, 0, 0x00000013⟩, ⟨.alu, 4, 0x00000013⟩]

theorem entryCount_crossing (P : Option Record → Prop) [DecidablePred P] (before : List Record)
    {x y : Record} (hx : x.func twoFunctions = some ⟨1, [0x67]⟩)
    (hy : y.func twoFunctions = some ⟨2, [0x66]⟩) :
    entryCount twoFunctions P [0x66] (before ++ [x, y]) =
      entryCount twoFunctions P [0x66] before + if P (some x) then 1 else 0 := by
  have hstay : ∀ prev, crossing twoFunctions prev x ≠ some [0x66] := by
    intro prev
    rw [crossing, hx]
    dsimp only
    split_ifs
    · exact Option.some_ne_none _ ∘ Eq.symm
    · decide
  have henter : crossing twoFunctions (some x) y = some [0x66] := by
    have hprev : previousFunc twoFunctions (some x) = some ⟨1, [0x67]⟩ := hx
    rw [crossing, hy, hprev]
    rfl
  rw [List.append_cons, entryCount_concat, entryCount_concat, previous_concat,
    if_neg fun h => hstay _ h.1]
  simp only [henter, true_and, add_zero]

theorem entryCount_callsThenFall (P : Option Record → Prop) [DecidablePred P] (n : ℕ) :
    entryCount twoFunctions P [0x66] (callsThenFall n) =
      (if P (some ⟨.jump, 0, 0x004000EF⟩) then n else 0) +
        if P (some ⟨.alu, 0, 0x00000013⟩) then 1 else 0 := by
  rw [callsThenFall, entryCount_crossing P _ rfl rfl]
  congr 1
  induction n with
  | zero => exact (ite_self 0).symm
  | succ n ih =>
    rw [List.replicate_succ', List.flatten_append, List.flatten_singleton,
      entryCount_crossing P _ rfl rfl, ih]
    split_ifs
    · rfl
    · rfl

theorem calls_callsThenFall (n : ℕ) (p : Profiler) :
    ∃ fs ∈ (recordAll twoFunctions (callsThenFall n) (herveProfilerEnable true p)).funcStats,
      fs.name = [0x66] ∧ fs.calls = BitVec.ofNat 64 (n + 1) := by
  obtain ⟨edges, h⟩ := graph_invariant twoFunctions (callsThenFall n) p
  have hnodup := (profiler_conserved twoFunctions (callsThenFall n) p).stats.names
  have hmem : [0x66] ∈ (recordAll twoFunctions (callsThenFall n)
      (herveProfilerEnable true p)).funcStats.map FuncStats.name := by
    rw [callsThenFall, List.append_cons, recordAll_concat,
      Herve.record_inside (recordAll_enabled _ _ _) rfl]
    exact mem_names_inside.2 (.inl rfl)
  obtain ⟨fs, hfs, hname⟩ := List.mem_map.1 hmem
  refine ⟨fs, hfs, hname, ?_⟩
  rw [calls_eq_callsOf hnodup hfs, h.calls, hname, countedEntries, entryCount_callsThenFall,
    if_pos (by decide), if_pos (by decide)]

theorem not_accounted_callsThenFall {n : ℕ} (hwrap : BitVec.ofNat 64 (n + 1) = 0)
    (p : Profiler) :
    ¬ (recordAll twoFunctions (callsThenFall n) (herveProfilerEnable true p)).Accounted
      (otherEntries twoFunctions (callsThenFall n)) := by
  rintro ⟨-, hsum⟩
  obtain ⟨fs, hfs, hname, hcalls⟩ := calls_callsThenFall n p
  have hother : otherEntries twoFunctions (callsThenFall n) [0x66] = 1 := by
    rw [otherEntries, entryCount_callsThenFall, if_neg (by decide), if_pos (by decide)]
  have h := hsum fs hfs
  rw [hname, hother, hcalls, hwrap] at h
  exact absurd h (Nat.succ_ne_zero _)

/-- After `2 ^ 64` entries the calls of `f` are back at zero, its other entry and the edge from
`g` are not. -/
theorem not_accounted_wrap :
    ¬ (recordAll twoFunctions (callsThenFall (2 ^ 64 - 1))
      (herveProfilerEnable true (State.start ()).profiler)).Accounted
        (otherEntries twoFunctions (callsThenFall (2 ^ 64 - 1))) :=
  not_accounted_callsThenFall (by decide) (State.start ()).profiler

end Herve
