import Herve.Lib.Dict
import Herve.Profile.Report

/-! `parse_csv` of `profiler_csv_to_json.py`. A row that is too short or a value that is no
number raises an exception, which is `none` here. -/

namespace Herve
open RiscV (Byte)

/-- `str.isspace` on ASCII. -/
def isSpace (b : Byte) : Bool := (9#8 ≤ b && b ≤ 13#8) || (28#8 ≤ b && b ≤ 32#8)

def strip (s : CStr) : CStr := (s.dropWhile isSpace).rdropWhile isSpace

/-- The digits of an integer literal, single underscores between them. -/
def pyDigits (s : CStr) : Option ℤ :=
  let groups := s.splitOn 0x5F#8
  if groups.all fun g => !g.isEmpty && g.all Decimal.isDigit then
    some (Decimal.value groups.flatten)
  else none

/-- `int(s)` -/
def pyInt (s : CStr) : Option ℤ :=
  match strip s with
  | [] => none
  | c :: s =>
    if c = 0x2D#8 then (pyDigits s).map (- ·)
    else if c = 0x2B#8 then pyDigits s
    else pyDigits (c :: s)

/-- `csv.reader` on text without quotes. An empty line gives an empty row, and so does here the
end of the text. -/
def csvReader (text : CStr) : List (List CStr) :=
  (text.splitOn 0x0A#8).map fun line => if line = [] then [] else line.splitOn 0x2C#8

inductive MetaValue
  | str (s : CStr)
  | int (n : ℤ)
  deriving DecidableEq

structure CallEdge where
  caller : CStr
  callee : CStr
  count : ℤ
  deriving DecidableEq

structure FuncData where
  totalCycles : ℤ
  calls : ℤ
  insnCycles : List (CStr × ℤ)
  insnCounts : List (CStr × ℤ)
  deriving DecidableEq

/-- What the `defaultdict` starts a function with. -/
def FuncData.zero : FuncData := ⟨0, 0, [], []⟩

structure Parsed where
  metadata : List (CStr × MetaValue)
  callEdges : List CallEdge
  funcData : List (CStr × FuncData)
  deriving DecidableEq

/-- `func_data[name]` changed by `f` -/
def Parsed.modifyFunc (p : Parsed) (name : CStr) (f : FuncData → FuncData) : Parsed :=
  { p with funcData := Dict.modify name FuncData.zero f p.funcData }

/-! The branches of the loop, each on the fields behind the record type. -/

def parseMeta (p : Parsed) (row : List CStr) : Option Parsed := do
  let key := strip (← row[0]?)
  let value := strip (← row[1]?)
  if key = ascii "total_cycles" ∨ key = ascii "total_instructions" then
    let n ← pyInt value
    some { p with metadata := Dict.set key (.int n) p.metadata }
  else some { p with metadata := Dict.set key (.str value) p.metadata }

def parseCall (p : Parsed) (row : List CStr) : Option Parsed := do
  let caller := strip (← row[0]?)
  let callee := strip (← row[1]?)
  let count ← pyInt (← row[2]?)
  some { p with callEdges := p.callEdges ++ [⟨caller, callee, count⟩] }

def parseFunc (p : Parsed) (row : List CStr) : Option Parsed := do
  let name := strip (← row[0]?)
  let field := strip (← row[1]?)
  let value ← pyInt (← row[2]?)
  if field = ascii "total_cycles" then
    some (p.modifyFunc name fun d => { d with totalCycles := value })
  else if field = ascii "calls" then
    some (p.modifyFunc name fun d => { d with calls := value })
  else some p

def parseInstr (p : Parsed) (row : List CStr) : Option Parsed := do
  let name := strip (← row[0]?)
  let insnType := strip (← row[1]?)
  let cycles ← pyInt (← row[2]?)
  some (p.modifyFunc name fun d => { d with insnCycles := Dict.set insnType cycles d.insnCycles })

def parseIcount (p : Parsed) (row : List CStr) : Option Parsed := do
  let name := strip (← row[0]?)
  let insnType := strip (← row[1]?)
  let count ← pyInt (← row[2]?)
  some (p.modifyFunc name fun d => { d with insnCounts := Dict.set insnType count d.insnCounts })

def parseRow (p : Parsed) : List CStr → Option Parsed
  | [] => some p
  | recordType :: row =>
    if strip recordType = ascii "META" then parseMeta p row
    else if strip recordType = ascii "CALL" then parseCall p row
    else if strip recordType = ascii "FUNC" then parseFunc p row
    else if strip recordType = ascii "INSTR" then parseInstr p row
    else if strip recordType = ascii "ICOUNT" then parseIcount p row
    else some p

def parseCsv (text : CStr) : Option Parsed := (csvReader text).foldlM parseRow ⟨[], [], []⟩

end Herve
