import Herve.RiscV.Rv32i

/-! `herve_profiler.c`: the classes of instructions, the classification of control
transfers and the counters one recorded instruction updates. -/

namespace Herve
open RiscV (Byte Word Reg)

/-- The bytes of a C string, without the terminator. -/
abbrev CStr := List Byte

/-- A name in the symbol table. `strdup` gives every symbol its own copy, so names are
compared by address in one place and by content in others. -/
structure SymbolName where
  ptr : ℕ
  str : CStr
  deriving DecidableEq

structure Symbol where
  addr : Word
  size : Word
  name : SymbolName
  deriving DecidableEq

def herveGetSymbolAt (symbols : List Symbol) (addr : Word) : Option SymbolName :=
  (symbols.find? fun s => s.addr ≤ addr && addr < s.addr + s.size).map Symbol.name

/-- `herve_insn_type_t`, without the count that ends it. -/
inductive InsnType
  | unknown | alu | mul | div | load | store | branch | jump | csr | sys | compressed
  deriving DecidableEq

structure Arch where
  name : CStr
  pipelineStages : Word
  cycles : InsnType → Word

inductive CfType
  | none | call | ret | jump
  deriving DecidableEq

def classifyInsn32 (insn : Word) : CfType :=
  let opcode := insn &&& 0x7f#32
  let rd := (insn >>> 7) &&& 0x1f#32
  let rs1 := (insn >>> 15) &&& 0x1f#32
  if opcode = 0x6f#32 then
    if rd ≠ 0 then .call else .jump
  else if opcode = 0x67#32 then
    if rd ≠ 0 then .call else if rs1 = 1 then .ret else .jump
  else .none

def classifyInsn16 (insn : BitVec 16) : CfType :=
  let quadrant := insn &&& 0x3#16
  let funct3 := (insn >>> 13) &&& 0x7#16
  let funct4 := (insn >>> 12) &&& 0xf#16
  let rs2 := (insn >>> 2) &&& 0x1f#16
  let rs1 := (insn >>> 7) &&& 0x1f#16
  if quadrant = 1 then
    if funct3 = 1 then .call else if funct3 = 5 then .jump else .none
  else if quadrant = 2 then
    if funct4 = 8 ∧ rs2 = 0 then (if rs1 = 1 then .ret else .jump)
    else if funct4 = 9 ∧ rs2 = 0 then .call
    else .none
  else .none

structure FuncStats where
  name : CStr
  totalCycles : BitVec 64
  calls : BitVec 64
  insnCounts : InsnType → BitVec 64
  insnCycles : InsnType → BitVec 64

structure CallPair where
  caller : CStr
  callee : CStr
  count : BitVec 64
  deriving DecidableEq

structure Profiler where
  profilingEnabled : Bool
  currentArch : Option Arch
  totalCycles : BitVec 64
  totalInstructions : BitVec 64
  insnCounts : InsnType → BitVec 64
  insnCycles : InsnType → BitVec 64
  funcStats : List FuncStats
  lastFunc : Option SymbolName
  callPairs : List CallPair
  lastCf : CfType

def recordCallEdge (caller : Option CStr) (callee : CStr) (pairs : List CallPair) :
    List CallPair :=
  match caller with
  | none => pairs
  | some caller =>
    if pairs.any fun cp => cp.caller = caller && cp.callee = callee then
      pairs.map fun cp =>
        if cp.caller = caller && cp.callee = callee then { cp with count := cp.count + 1 } else cp
    else ⟨caller, callee, 1⟩ :: pairs

/-- `get_func_stats(name)` followed by an update of the entry it returns. -/
def updateFuncStats (name : CStr) (f : FuncStats → FuncStats) : List FuncStats → List FuncStats :=
  fun stats =>
    if stats.any fun fs => fs.name = name then
      stats.map fun fs => if fs.name = name then f fs else fs
    else f ⟨name, 0, 0, fun _ => 0, fun _ => 0⟩ :: stats

def bump (counts : InsnType → BitVec 64) (type : InsnType) (amount : BitVec 64) :
    InsnType → BitVec 64 := Function.update counts type (counts type + amount)

def herveProfilerEnable (enable : Bool) (p : Profiler) : Profiler :=
  if enable then
    { p with
      profilingEnabled := true, totalCycles := 0, totalInstructions := 0
      insnCounts := fun _ => 0, insnCycles := fun _ => 0
      funcStats := [], callPairs := [], lastFunc := none, lastCf := .none }
  else { p with profilingEnabled := false }

/-- The part of `herve_profiler_record_insn` run when `pc` lies in a known function. -/
def recordInFunction (func : SymbolName) (type : InsnType) (cycles : BitVec 64) (p : Profiler) :
    Profiler :=
  let stats := updateFuncStats func.str (fun fs =>
    { fs with
      totalCycles := fs.totalCycles + cycles
      insnCounts := bump fs.insnCounts type 1
      insnCycles := bump fs.insnCycles type cycles }) p.funcStats
  if p.lastFunc.map SymbolName.ptr = some func.ptr then { p with funcStats := stats }
  else
    -- a function boundary: the previous instruction says what kind of entry this is
    let counted := updateFuncStats func.str (fun fs => { fs with calls := fs.calls + 1 }) stats
    let edges := recordCallEdge (p.lastFunc.map SymbolName.str) func.str p.callPairs
    match p.lastCf with
    | .call | .jump =>
      { p with funcStats := counted, callPairs := edges, lastFunc := some func }
    | .ret => { p with funcStats := stats, lastFunc := some func }
    | .none => { p with funcStats := counted, lastFunc := some func }

def herveProfilerRecordInsn (symbols : List Symbol) (type : InsnType) (pc insn : Word)
    (p : Profiler) : Profiler :=
  if !p.profilingEnabled then p
  else
    let cycles : BitVec 64 :=
      match p.currentArch with
      | some arch => (arch.cycles type).setWidth 64
      | none => 1
    let p := { p with
      totalInstructions := p.totalInstructions + 1
      insnCounts := bump p.insnCounts type 1
      totalCycles := p.totalCycles + cycles
      insnCycles := bump p.insnCycles type cycles }
    let thisCf :=
      if type = .compressed then classifyInsn16 (insn.setWidth 16) else classifyInsn32 insn
    let p :=
      match herveGetSymbolAt symbols pc with
      | some func => recordInFunction func type cycles p
      | none => { p with lastFunc := none }
    { p with lastCf := thisCf }

end Herve
