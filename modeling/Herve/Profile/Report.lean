import Herve.Lib.Decimal
import Herve.Profile.Record

/-! `herve_profiler_report_csv`: the text of a report, record by record. -/

namespace Herve

/-- The bytes of an ASCII literal. -/
def ascii (text : String) : CStr := text.toList.map fun c => BitVec.ofNat 8 c.toNat

/-- `%llu` -/
def llu (v : BitVec 64) : CStr := Decimal.print v.toNat

/-- One `fprintf`: the fields of its format, with commas between them, and the newline. -/
def csvLine (fields : List CStr) : CStr := [0x2C#8].intercalate fields ++ [0x0A#8]

def insnTypeToStr : InsnType → CStr
  | .alu => ascii "ALU"
  | .mul => ascii "MUL"
  | .div => ascii "DIV"
  | .load => ascii "LOAD"
  | .store => ascii "STORE"
  | .branch => ascii "BRANCH"
  | .jump => ascii "JUMP"
  | .csr => ascii "CSR"
  | .sys => ascii "SYS"
  | .compressed => ascii "COMPRESSED"
  | _ => ascii "UNKNOWN"

def archName (p : Profiler) : CStr :=
  match p.currentArch with
  | some arch => arch.name
  | none => ascii "default"

def reportMeta (p : Profiler) : List (List CStr) :=
  [[ascii "META", ascii "arch", archName p],
    [ascii "META", ascii "isa", ascii "rv32im"],
    [ascii "META", ascii "total_cycles", llu p.totalCycles],
    [ascii "META", ascii "total_instructions", llu p.totalInstructions]]

def reportInsn (fs : FuncStats) (type : InsnType) : List (List CStr) :=
  if fs.insnCounts type > 0 then
    [[ascii "INSTR", fs.name, insnTypeToStr type, llu (fs.insnCycles type)],
      [ascii "ICOUNT", fs.name, insnTypeToStr type, llu (fs.insnCounts type)]]
  else []

/-- The loop over the classes starts at 1. -/
def reportFunc (fs : FuncStats) : List (List CStr) :=
  [[ascii "FUNC", fs.name, ascii "total_cycles", llu fs.totalCycles],
    [ascii "FUNC", fs.name, ascii "calls", llu fs.calls]] ++
  InsnType.all.tail.flatMap (reportInsn fs)

def reportCall (cp : CallPair) : List CStr := [ascii "CALL", cp.caller, cp.callee, llu cp.count]

def reportRows (p : Profiler) : List (List CStr) :=
  reportMeta p ++ p.funcStats.flatMap reportFunc ++ p.callPairs.map reportCall

def herveProfilerReportCsv (p : Profiler) : CStr := (reportRows p).flatMap csvLine

end Herve
