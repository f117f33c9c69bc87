import Herve.Iss.Elf

/-! `rv32_dpi_benchmark_htif.cpp`: the runner that loads a benchmark, steps it in batches and
looks for the end in its own buffer, which is the RAM of the emulator. What it measures of the
wall clock is left out. -/

namespace Herve
open RiscV (Byte Word fromBytes)

def tohostAddr : Word := 0x80001000#32

def maxInstructions : ℕ := 500000000

def maxStaleChecks : ℕ := 50000

def globalRamSize : ℕ := 0x80000000 + 16 <<< 20

/-- The window of the runner's device, compared as `int`. -/
def inMmioRegion (addr : Word) : Bool :=
  0x10000000 ≤ addr.toInt && addr.toInt < 0x10000100

def mmioIndex (addr : Word) : Fin 64 := Fin.ofNat 64 ((addr - 0x10000000#32).toNat / 4)

/-- `mmio_region`, behind `dpi_mmio_read` and `dpi_mmio_write`. -/
def mmioRegion : Device (Fin 64 → Word) where
  read d addr := (if inMmioRegion addr then d (mmioIndex addr) else 0, d, none)
  write d addr value :=
    (if inMmioRegion addr then Function.update d (mmioIndex addr) value else d, none)

variable {δ : Type}

/-- `memcpy(&x, &global_ram[i], 4)` -/
def ramWord (memory : ℕ → Byte) (i : ℕ) : Word := fromBytes 4 fun k => memory (i + k)

/-- `memcpy(&tohost_val, &global_ram[TOHOST_ADDR], 8)` -/
def tohost (memory : ℕ → Byte) : BitVec 64 :=
  ramWord memory (tohostAddr.toNat + 4) ++ ramWord memory tohostAddr.toNat

/-- The exit code, or -1 while the benchmark is running. -/
def handleHtif (s : State δ) : ℤ × State δ :=
  if tohostAddr.toNat + 16 > globalRamSize then (-1, s)
  else
    let tohostVal := tohost s.memory
    if tohostVal = 0 then (-1, s)
    else if tohostVal &&& 1 ≠ 0 then (((tohostVal >>> 1).setWidth 32).toInt, s)
    else
      let magicPtr : Word := tohostVal.setWidth 32
      let syscallNo := ramWord s.memory magicPtr.toNat
      let arg0 := ramWord s.memory (magicPtr + 4).toNat
      let arg1 := ramWord s.memory (magicPtr + 8).toNat
      let arg2 := ramWord s.memory (magicPtr + 12).toNat
      let s :=
        if syscallNo = 64 ∧ arg0 = 1 ∧ arg2 = 1 then s.log (.putchar (s.memory arg1.toNat)) else s
      -- `fromhost` is set to 1 and `tohost` cleared, both in RAM
      let memory := copyBytes (tohostAddr.toNat + 8) (programBytes [1, 0]) s.memory
      (-1, { s with memory := copyBytes tohostAddr.toNat (programBytes [0, 0]) memory })

/-- The variables of the loop in `run_htif_benchmark`. -/
structure HtifLoop (δ : Type) where
  state : State δ
  totalExecuted : ℕ
  prevPc : Word
  staleCount : ℕ
  exitCode : ℤ

def HtifLoop.start (s : State δ) : HtifLoop δ := ⟨s, 0, 0, 0, -1⟩

variable (dev : Device δ)

/-- The `while` test and the body of the loop; the result says whether the loop goes on. -/
def htifBody (r : HtifLoop δ) : Bool × HtifLoop δ :=
  if r.totalExecuted < maxInstructions then
    let (executed, s) := rvStep dev 1000 r.state
    let (exitCode, s) := handleHtif s
    if executed = 0 then (false, { r with state := s, exitCode := exitCode })
    else
      let r := { r with
        state := s, totalExecuted := r.totalExecuted + executed, exitCode := exitCode }
      if exitCode ≥ 0 then (false, r)
      else if s.pc = r.prevPc then
        let r := { r with staleCount := r.staleCount + 1 }
        if r.staleCount ≥ maxStaleChecks then (false, r) else (true, { r with prevPc := s.pc })
      else (true, { r with staleCount := 0, prevPc := s.pc })
  else (false, r)

/-- An iteration that goes on has executed an instruction, so the loop ends within the limit. -/
def htifLoop (r : HtifLoop δ) : HtifLoop δ := (BreakLoop.loop (htifBody dev) maxInstructions r).2

structure HtifBenchmarkResult where
  passed : Bool
  instructions : ℕ
  reason : String
  exitCode : ℤ

def exitResult (instructions : ℕ) (exitCode : ℤ) : ℤ × HtifBenchmarkResult :=
  if exitCode = 0 then (0, ⟨true, instructions, "PASS (HTIF exit=0)", exitCode⟩)
  else (0, ⟨false, instructions, s!"FAIL (HTIF exit={exitCode})", exitCode⟩)

/-- `%08x` -/
def hex8 (v : Word) : String :=
  String.ofList ((List.range 8).map fun i : ℕ => Nat.digitChar ((v >>> (28 - 4 * i)).toNat % 16))

/-- What `run_htif_benchmark` makes of the loop's end, and what it returns. -/
def htifVerdict (r : HtifLoop δ) : ℤ × HtifBenchmarkResult :=
  if r.exitCode ≥ 0 then exitResult r.totalExecuted r.exitCode
  else if r.totalExecuted ≥ maxInstructions then
    (-1, ⟨false, r.totalExecuted, "instruction limit", -1⟩)
  else if r.staleCount ≥ maxStaleChecks then
    let stuckPc := hex8 r.state.pc
    (-1, ⟨false, r.totalExecuted, s!"stale PC (infinite loop) at 0x{stuckPc}", -1⟩)
  else
    let exitCode := (handleHtif r.state).1
    if exitCode ≥ 0 then exitResult r.totalExecuted exitCode
    else (-1, ⟨false, r.totalExecuted, "unknown termination", -1⟩)

/-- The benchmark loaded and reset: its entry and where the loop starts. -/
def htifStart (host : ℤ → Byte) (elfData : List Byte) (s : State (Fin 64 → Word)) :
    Word × HtifLoop (Fin 64 → Word) :=
  let s : State (Fin 64 → Word) := { s with device := fun _ => 0 }
  let (entry, s) := (rvLoadElf host (some elfData) s).value
  (entry, .start (rvReset entry s))

def runHtifBenchmark (host : ℤ → Byte) (elfData : List Byte) (s : State (Fin 64 → Word)) :
    ℤ × HtifBenchmarkResult :=
  let (entry, r) := htifStart host elfData s
  if entry = 0 then (-1, ⟨false, 0, "ELF load failed", -1⟩)
  else htifVerdict (htifLoop mmioRegion r)

def rvSetRam (buf : ℕ → Byte) (size : ℕ) (s : State δ) : State δ :=
  { s with
    memory := buf, memorySize := BitVec.ofNat 32 size, memoryBase := 0
    wfiSleep := false, initialized := true }

/-- The emulator as `main` hands it to the first benchmark. -/
def htifRunner : State (Fin 64 → Word) :=
  rvSetRam (fun _ => 0) globalRamSize (State.start fun _ => 0)

end Herve
