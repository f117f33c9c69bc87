import Herve.Lib.BreakLoop
import Herve.Iss.Execute

/-! `rv_step`: wake-up, interrupt dispatch and the two instruction loops; and the calls a
harness drives the emulator with. -/

namespace Herve
open RiscV (Byte Word Reg)

def ctzLoop : ℕ → ℕ → Word → ℕ
  | 0, n, _ => n
  | fuel + 1, n, x => if x &&& 1 = 0 then ctzLoop fuel (n + 1) (x >>> 1) else n

/-- The `while` loop of the source stops before its thirty-third test. -/
def ctz32 (x : Word) : ℕ := if x = 0 then 32 else ctzLoop 32 0 x

variable {δ : Type}

def State.pending (s : State δ) : Word := s.irqMask &&& s.csrMie

/-- `pending != 0 && (csr_mstatus & 0x8)` -/
def State.Interrupted (s : State δ) : Prop := s.pending ≠ 0 ∧ s.mie = true
  deriving Decidable

def handlerAddress (mtvec : Word) (cause : ℕ) : Word :=
  if mtvec &&& 0x3#32 ≠ 0 then (mtvec &&& ~~~0x3#32) + BitVec.ofNat 32 cause * 4
  else mtvec &&& ~~~0x3#32

def State.dispatch (s : State δ) : State δ :=
  let cause := ctz32 s.pending
  { s with
    csrMcause := BitVec.ofNat 32 cause
    csrMepc := s.pc
    irqMask := s.irqMask &&& ~~~(1#32 <<< cause)
    csrMstatus := s.csrMstatus &&& ~~~0x8#32
    pc := handlerAddress s.csrMtvec cause }.log (.dispatch cause)

/-- `csr_mcycle++` at the end of an iteration, where the instruction has retired. -/
def State.count (s : State δ) (insn : Word) : State δ :=
  { s with csrMcycle := s.csrMcycle + 1 }.log (.retire insn s.mie)

variable (dev : Device δ)

/-- `if (pc == pc_before) pc += 2` -/
def stepPast (pcBefore : Word) (c : Core δ) : Core δ :=
  if c.pc = pcBefore then { c with pc := c.pc + 2 } else c

/-- A loop's 16-bit branch. Only the profiled loop records the instruction here. -/
def stepCompressed (profiled : Bool) (cInsn : BitVec 16) (s : State δ) : Bool × State δ :=
  let (ok, c) := executeCompressed dev cInsn s.toCore
  if ok then
    let profiler :=
      if profiled then
        herveProfilerRecordInsn s.symbols .compressed s.pc (cInsn.setWidth 32) s.profiler
      else s.profiler
    (true, { s with toCore := stepPast s.pc c, profiler := profiler }.count (cInsn.setWidth 32))
  else (false, { s with toCore := c })

def stepBase (insn : Word) (s : State δ) : Bool × State δ :=
  let (ok, s) := executeInstruction dev insn s
  if ok then (true, s.count insn) else (false, s)

/-- The body of the two instruction loops; the result says whether the loop goes on. -/
def iteration (profiled : Bool) (s : State δ) : Bool × State δ :=
  if s.htifHalted then (false, s)
  else if !s.validMemoryAccess s.pc 4 then (false, s)
  else
    let (insn, b) := s.readU32 dev s.pc
    if insn &&& 0x3#32 ≠ 0x3#32 then
      stepCompressed dev profiled (insn.setWidth 16) { s with toBus := b }
    else stepBase dev insn { s with toBus := b }

def profiledIteration : State δ → Bool × State δ := iteration dev true

def fastIteration : State δ → Bool × State δ := iteration dev false

def State.wake (s : State δ) : State δ := { s with wfiSleep := false }

def rvStep (maxInstructions : ℤ) (s : State δ) : ℕ × State δ :=
  if s.initialized = false ∨ maxInstructions ≤ 0 then (0, s)
  -- asleep, and nothing that could wake it
  else if s.wfiSleep = true ∧ ¬ s.Interrupted then (0, s)
  -- the dispatch counts as an instruction and ends the call
  else if s.Interrupted then (1, s.wake.dispatch)
  else if s.profiler.profilingEnabled then
    BreakLoop.loop (profiledIteration dev) maxInstructions.toNat s.wake
  else BreakLoop.loop (fastIteration dev) maxInstructions.toNat s.wake

def rvSetIrq (mask : Word) (s : State δ) : State δ :=
  { s with irqMask := mask }.log (.setIrq mask)

/-- The calls that drive an initialised emulator. -/
inductive Call
  | setIrq (mask : Word)
  | step (maxInstructions : ℤ)
  deriving DecidableEq, Repr

def call (s : State δ) : Call → State δ
  | .setIrq mask => rvSetIrq mask s
  | .step n => (rvStep dev n s).2

/-- Any interleaving of calls, first one first. -/
def runCalls (calls : List Call) (s : State δ) : State δ := calls.foldl (call dev) s

/-- What the calls of `rv_step` among them return. -/
def runCounts : List Call → State δ → List ℕ
  | [], _ => []
  | .setIrq mask :: calls, s => runCounts calls (rvSetIrq mask s)
  | .step n :: calls, s => (rvStep dev n s).1 :: runCounts calls (rvStep dev n s).2

/-- Sixteen bytes of RAM that start with the given word, about to run it. -/
def State.holding (insn : Word) : State Unit :=
  { State.start () with
    memory := RiscV.byteOf insn
    memorySize := 16
    memoryBase := 0x80000000#32
    initialized := true
    pc := 0x80000000#32 }

end Herve
