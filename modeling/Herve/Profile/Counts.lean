import Herve.Profile.Record

/-! The report is a breakdown: over any sequence of records each total is the sum of its parts,
by class and by function. -/

namespace Herve
open RiscV

/-! ## One class -/

theorem bump_apply (c : InsnType → BitVec 64) (t₀ : InsnType) (a : BitVec 64) (t : InsnType) :
    bump c t₀ a t = c t + if t = t₀ then a else 0 := by
  unfold bump
  by_cases h : t = t₀
  · rw [h, Function.update_self, if_pos rfl]
  · rw [Function.update_of_ne h, if_neg h, add_zero]

theorem sum_bump (c : InsnType → BitVec 64) (t₀ : InsnType) (a : BitVec 64) :
    ∑ t, bump c t₀ a t = ∑ t, c t + a := by
  simp only [bump_apply, Finset.sum_add_distrib, Finset.sum_ite_eq', Finset.mem_univ, if_true]

/-- One more instruction of a class and its price on both sides. -/
theorem bump_price {counts cycles price : InsnType → BitVec 64}
    (h : ∀ t, cycles t = counts t * price t) (t₀ t : InsnType) :
    bump cycles t₀ (price t₀) t = bump counts t₀ 1 t * price t := by
  rw [bump_apply, bump_apply, h]
  by_cases ht : t = t₀
  · rw [if_pos ht, if_pos ht, ht, add_mul, one_mul]
  · rw [if_neg ht, if_neg ht, add_zero, add_zero]

/-! ## One function -/

/-- A function's entry adds up at the given price of a class. -/
structure FuncStats.Conserved (price : InsnType → BitVec 64) (fs : FuncStats) : Prop where
  cycles : fs.totalCycles = ∑ t, fs.insnCycles t
  ofType : ∀ t, fs.insnCycles t = fs.insnCounts t * price t

variable {price : InsnType → BitVec 64} {fs : FuncStats}

theorem FuncStats.Conserved.fresh (name : CStr) : (FuncStats.fresh name).Conserved price :=
  ⟨Finset.sum_const_zero.symm, fun t => (zero_mul (price t)).symm⟩

theorem FuncStats.Conserved.spend (h : fs.Conserved price) (type : InsnType) :
    (fs.spend type (price type)).Conserved price := by
  constructor
  · show fs.totalCycles + price type = ∑ t, bump fs.insnCycles type (price type) t
    rw [sum_bump, h.cycles]
  · exact bump_price h.ofType type

theorem FuncStats.Conserved.call (h : fs.Conserved price) : fs.call.Conserved price :=
  ⟨h.cycles, h.ofType⟩

structure StatsConserved (price : InsnType → BitVec 64) (stats : List FuncStats) : Prop where
  each : ∀ fs ∈ stats, fs.Conserved price
  names : (stats.map FuncStats.name).Nodup

def spent (stats : List FuncStats) : BitVec 64 := (stats.map FuncStats.totalCycles).sum

variable {stats : List FuncStats}

theorem StatsConserved.spend (h : StatsConserved price stats) (name : CStr) (type : InsnType) :
    StatsConserved price (updateFuncStats name (FuncStats.spend type (price type)) stats) := by
  rw [updateFuncStats_eq]
  constructor
  · exact Tally.forall_upsert h.each (fun _ _ hfs => hfs.spend type)
      ((FuncStats.Conserved.fresh name).spend type)
  · exact Tally.nodup_upsert rfl (fun _ hk => hk) h.names

theorem spent_spend (h : StatsConserved price stats) (name : CStr) (type : InsnType) :
    spent (updateFuncStats name (FuncStats.spend type (price type)) stats) =
      spent stats + price type := by
  rw [updateFuncStats_eq]
  exact Tally.sum_upsert h.names (fun _ _ => rfl) (zero_add _)

theorem StatsConserved.call (h : StatsConserved price stats) (name : CStr) :
    StatsConserved price (updateFuncStats name FuncStats.call stats) := by
  rw [updateFuncStats_eq]
  constructor
  · exact Tally.forall_upsert h.each (fun _ _ hfs => hfs.call) (FuncStats.Conserved.fresh name).call
  · exact Tally.nodup_upsert rfl (fun _ hk => hk) h.names

theorem spent_call (h : StatsConserved price stats) (name : CStr) :
    spent (updateFuncStats name FuncStats.call stats) = spent stats := by
  rw [updateFuncStats_eq]
  exact (Tally.sum_upsert h.names (fun _ _ => (add_zero _).symm) rfl).trans (add_zero _)

/-! ## The whole profile -/

/-- All the counters agree, `outside` being the cycles spent where there is no symbol. -/
structure Profiler.Conserved (p : Profiler) (outside : BitVec 64) : Prop where
  instructions : p.totalInstructions = ∑ t, p.insnCounts t
  cycles : p.totalCycles = ∑ t, p.insnCycles t
  ofType : ∀ t, p.insnCycles t = p.insnCounts t * p.cost t
  stats : StatsConserved p.cost p.funcStats
  functions : spent p.funcStats = p.totalCycles - outside

variable {symbols : List Symbol} {p : Profiler} {r : Record} {outside : BitVec 64}

theorem Profiler.Conserved.enable (p : Profiler) : (herveProfilerEnable true p).Conserved 0 where
  instructions := Finset.sum_const_zero.symm
  cycles := Finset.sum_const_zero.symm
  ofType _ := (zero_mul _).symm
  stats := ⟨fun _ h => absurd h List.not_mem_nil, List.nodup_nil⟩
  functions := (sub_zero 0).symm

def Record.outsideCost (symbols : List Symbol) (p : Profiler) (r : Record) : BitVec 64 :=
  if r.func symbols = none then p.cost r.type else 0

theorem Profiler.Conserved.record (symbols : List Symbol) (r : Record) (h : p.Conserved outside)
    (henabled : p.profilingEnabled = true) :
    (Herve.record symbols p r).Conserved (outside + r.outsideCost symbols p) := by
  have hinstructions : (p.advance r).totalInstructions = ∑ t, (p.advance r).insnCounts t := by
    show p.totalInstructions + 1 = ∑ t, bump p.insnCounts r.type 1 t
    rw [sum_bump, h.instructions]
  have hcycles : (p.advance r).totalCycles = ∑ t, (p.advance r).insnCycles t := by
    show p.totalCycles + p.cost r.type = ∑ t, bump p.insnCycles r.type (p.cost r.type) t
    rw [sum_bump, h.cycles]
  have hofType := bump_price h.ofType r.type
  unfold Record.outsideCost
  rcases hf : r.func symbols with _ | f
  · rw [record_outside henabled hf, if_pos rfl]
    refine ⟨hinstructions, hcycles, hofType, h.stats, ?_⟩
    show spent p.funcStats = p.totalCycles + p.cost r.type - (outside + p.cost r.type)
    rw [h.functions, add_sub_add_right_eq_sub]
  · have hspend := h.stats.spend f.str r.type
    have hspent :
        spent (updateFuncStats f.str (FuncStats.spend r.type (p.cost r.type)) p.funcStats) =
        p.totalCycles + p.cost r.type - outside := by
      rw [spent_spend h.stats, h.functions, sub_add_eq_add_sub]
    rw [record_inside henabled hf, if_neg (Option.some_ne_none f), add_zero]
    by_cases hcall : p.Enters f ∧ p.lastCf ≠ .ret
    · rw [if_pos hcall]
      exact ⟨hinstructions, hcycles, hofType, hspend.call f.str,
        (spent_call hspend f.str).trans hspent⟩
    · rw [if_neg hcall]
      exact ⟨hinstructions, hcycles, hofType, hspend, hspent⟩

/-! ## A sequence of records -/

theorem record_profilingEnabled : (record symbols p r).profilingEnabled = p.profilingEnabled := by
  rcases h : p.profilingEnabled with _ | _
  · rw [record_disabled h, h]
  · obtain ⟨_, _, _, heq⟩ := record_advance symbols r h
    rw [heq]
    exact h

theorem record_cost : (record symbols p r).cost = p.cost := by
  rcases h : p.profilingEnabled with _ | _
  · rw [record_disabled h]
  · obtain ⟨_, _, _, heq⟩ := record_advance symbols r h
    rw [heq]
    rfl

theorem recordAll_enabled (symbols : List Symbol) (records : List Record) (p : Profiler) :
    (recordAll symbols records (herveProfilerEnable true p)).profilingEnabled = true := by
  induction records using List.reverseRecOn with
  | nil => rfl
  | append_singleton records r ih => rw [recordAll_concat, record_profilingEnabled, ih]

theorem recordAll_cost (symbols : List Symbol) (records : List Record) (p : Profiler) :
    (recordAll symbols records p).cost = p.cost := by
  induction records using List.reverseRecOn with
  | nil => rfl
  | append_singleton records r ih => rw [recordAll_concat, record_cost, ih]

/-- The cycles of the records whose pc has no symbol. -/
def outsideCycles (symbols : List Symbol) (records : List Record) (p : Profiler) : BitVec 64 :=
  ((records.filter fun r => (r.func symbols).isNone).map fun r => p.cost r.type).sum

theorem outsideCycles_concat (records : List Record) :
    outsideCycles symbols (records ++ [r]) p =
      outsideCycles symbols records p + r.outsideCost symbols p := by
  unfold outsideCycles Record.outsideCost
  rw [List.filter_append, List.map_append, List.sum_append]
  congr 1
  rcases hf : r.func symbols with _ | f
  · simp [hf]
  · simp [hf]

theorem profiler_conserved (symbols : List Symbol) (records : List Record) (p : Profiler) :
    (recordAll symbols records (herveProfilerEnable true p)).Conserved
      (outsideCycles symbols records p) := by
  induction records using List.reverseRecOn with
  | nil => exact Profiler.Conserved.enable p
  | append_singleton records r ih =>
    have hcost := recordAll_cost symbols records (herveProfilerEnable true p)
    have hstep := ih.record symbols r (recordAll_enabled symbols records p)
    rw [recordAll_concat, outsideCycles_concat]
    unfold Record.outsideCost at hstep ⊢
    rwa [hcost] at hstep

end Herve
