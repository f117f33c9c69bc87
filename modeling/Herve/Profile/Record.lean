import Herve.Lib.Tally
import Herve.Iss.Profiler

/-! One recorded instruction: which counters it moves, and when it counts as an entry into its
function. -/

namespace Herve
open RiscV

def InsnType.all : List InsnType :=
  [.unknown, .alu, .mul, .div, .load, .store, .branch, .jump, .csr, .sys, .compressed]

theorem InsnType.mem_all (t : InsnType) : t ∈ InsnType.all := by
  cases t <;> decide

instance : Fintype InsnType := ⟨⟨InsnType.all, by decide⟩, InsnType.mem_all⟩

/-- The arguments of `herve_profiler_record_insn`. -/
structure Record where
  type : InsnType
  pc : Word
  insn : Word
  deriving DecidableEq

def Record.func (symbols : List Symbol) (r : Record) : Option SymbolName :=
  herveGetSymbolAt symbols r.pc

def Record.cf (r : Record) : CfType :=
  if r.type = .compressed then classifyInsn16 (r.insn.setWidth 16) else classifyInsn32 r.insn

def record (symbols : List Symbol) (p : Profiler) (r : Record) : Profiler :=
  herveProfilerRecordInsn symbols r.type r.pc r.insn p

def recordAll (symbols : List Symbol) (records : List Record) (p : Profiler) : Profiler :=
  records.foldl (record symbols) p

theorem recordAll_concat (symbols : List Symbol) (records : List Record) (r : Record)
    (p : Profiler) :
    recordAll symbols (records ++ [r]) p = record symbols (recordAll symbols records p) r := by
  rw [recordAll, List.foldl_append]
  rfl

def Profiler.cost (p : Profiler) (type : InsnType) : BitVec 64 :=
  match p.currentArch with
  | some arch => (arch.cycles type).setWidth 64
  | none => 1

/-- The control flow has reached `f` from elsewhere. -/
def Profiler.Enters (p : Profiler) (f : SymbolName) : Prop :=
  p.lastFunc.map SymbolName.ptr ≠ some f.ptr
  deriving Decidable

/-! ## Entries -/

def FuncStats.fresh (name : CStr) : FuncStats := ⟨name, 0, 0, fun _ => 0, fun _ => 0⟩

def FuncStats.spend (type : InsnType) (cycles : BitVec 64) (fs : FuncStats) : FuncStats :=
  { fs with
    totalCycles := fs.totalCycles + cycles
    insnCounts := bump fs.insnCounts type 1
    insnCycles := bump fs.insnCycles type cycles }

def FuncStats.call (fs : FuncStats) : FuncStats := { fs with calls := fs.calls + 1 }

def CallPair.ends (cp : CallPair) : CStr × CStr := (cp.caller, cp.callee)

theorem updateFuncStats_eq (name : CStr) (f : FuncStats → FuncStats) (stats : List FuncStats) :
    updateFuncStats name f stats =
      Tally.upsert FuncStats.name name (FuncStats.fresh name) f stats := rfl

theorem recordCallEdge_eq (caller callee : CStr) (pairs : List CallPair) :
    recordCallEdge (some caller) callee pairs =
      Tally.upsert CallPair.ends (caller, callee) ⟨caller, callee, 0⟩
        (fun cp => { cp with count := cp.count + 1 }) pairs := by
  have hends : ∀ cp : CallPair, (cp.caller = caller && cp.callee = callee) =
      decide (cp.ends = (caller, callee)) := by
    intro cp
    rw [Bool.eq_iff_iff]
    simp [CallPair.ends]
  unfold recordCallEdge Tally.upsert
  simp only [hends, decide_eq_true_eq]
  rfl

/-- What a record does for its function, the four cases of the source as two conditions. -/
theorem recordInFunction_eq (f : SymbolName) (type : InsnType) (cycles : BitVec 64)
    (p : Profiler) :
    recordInFunction f type cycles p = { p with
      funcStats :=
        if p.Enters f ∧ p.lastCf ≠ .ret then
          updateFuncStats f.str FuncStats.call
            (updateFuncStats f.str (FuncStats.spend type cycles) p.funcStats)
        else updateFuncStats f.str (FuncStats.spend type cycles) p.funcStats
      callPairs :=
        if p.Enters f ∧ (p.lastCf = .call ∨ p.lastCf = .jump) then
          recordCallEdge (p.lastFunc.map SymbolName.str) f.str p.callPairs
        else p.callPairs
      lastFunc := if p.Enters f then some f else p.lastFunc } := by
  unfold recordInFunction
  by_cases hsame : p.lastFunc.map SymbolName.ptr = some f.ptr
  · have hno : ¬ p.Enters f := fun h => h hsame
    simp only [hsame, hno, if_true, false_and, if_false]
    rfl
  · have hyes : p.Enters f := hsame
    rw [if_neg hsame]
    cases hcf : p.lastCf <;> simp [hyes] <;> rfl

/-! ## One record -/

section
variable {symbols : List Symbol} {p : Profiler} {r : Record} {f : SymbolName}

theorem record_disabled (h : p.profilingEnabled = false) : record symbols p r = p := by
  unfold record herveProfilerRecordInsn
  rw [h]
  rfl

/-- The profiler after a record, but for the part that depends on the function. -/
def Profiler.advance (p : Profiler) (r : Record) : Profiler :=
  { p with
    totalInstructions := p.totalInstructions + 1
    insnCounts := bump p.insnCounts r.type 1
    totalCycles := p.totalCycles + p.cost r.type
    insnCycles := bump p.insnCycles r.type (p.cost r.type)
    lastCf := r.cf }

theorem record_outside (h : p.profilingEnabled = true) (hf : r.func symbols = none) :
    record symbols p r = { p.advance r with lastFunc := none } := by
  have hsym : herveGetSymbolAt symbols r.pc = none := hf
  unfold record herveProfilerRecordInsn
  rw [if_neg (by rw [h]; decide), hsym]
  rfl

theorem record_inside (h : p.profilingEnabled = true) (hf : r.func symbols = some f) :
    record symbols p r = { p.advance r with
      funcStats :=
        if p.Enters f ∧ p.lastCf ≠ .ret then
          updateFuncStats f.str FuncStats.call
            (updateFuncStats f.str (FuncStats.spend r.type (p.cost r.type)) p.funcStats)
        else updateFuncStats f.str (FuncStats.spend r.type (p.cost r.type)) p.funcStats
      callPairs :=
        if p.Enters f ∧ (p.lastCf = .call ∨ p.lastCf = .jump) then
          recordCallEdge (p.lastFunc.map SymbolName.str) f.str p.callPairs
        else p.callPairs
      lastFunc := if p.Enters f then some f else p.lastFunc } := by
  have hsym : herveGetSymbolAt symbols r.pc = some f := hf
  unfold record herveProfilerRecordInsn
  rw [if_neg (by rw [h]; decide), hsym]
  simp only [recordInFunction_eq]
  rfl

/-- A record moves the totals by one instruction of its class and the cycles of this class. -/
theorem record_advance (symbols : List Symbol) (r : Record) (h : p.profilingEnabled = true) :
    ∃ stats pairs last, record symbols p r =
      { p.advance r with funcStats := stats, callPairs := pairs, lastFunc := last } := by
  rcases hf : r.func symbols with _ | f
  · exact ⟨_, _, _, record_outside h hf⟩
  · exact ⟨_, _, _, record_inside h hf⟩

end

end Herve
