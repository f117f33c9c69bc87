import Herve.Iss.Profiler

/-! The file-level statics of `rv32_dpi.c` and the world outside the emulator. The
statics are grouped by what may touch them: a memory access changes only the `Bus`
part, a computational instruction only the `Core` part. -/

namespace Herve
open RiscV (Byte Word Reg)

/-- What the emulator does that can be seen from outside, and the points where it is given
interrupts, takes one or retires an instruction. `host` is one use of the host array
`memory[]`: first index and number of bytes. -/
inductive Event
  | host (guarded : Bool) (index width : ℕ)
  | mmioRead (addr value : Word)
  | mmioWrite (addr value : Word)
  | putchar (ch : Byte)
  | setIrq (mask : Word)
  | dispatch (cause : ℕ)
  | retire (insn : Word) (mie : Bool)
  deriving DecidableEq, Repr

/-- The device behind `dpi_mmio_read` and `dpi_mmio_write`, with its own state. During an
access it may call `rv_set_irq`; the last mask it passed is returned beside its new state. -/
structure Device (δ : Type) where
  read : δ → Word → Word × δ × Option Word
  write : δ → Word → Word → δ × Option Word

/-- The device never calls back into the emulator. -/
def Device.Silent {δ : Type} (dev : Device δ) : Prop :=
  (∀ d addr, (dev.read d addr).2.2 = none) ∧ ∀ d addr value, (dev.write d addr value).2 = none

/-- `herve_stubs.c`: reads give zero, writes are dropped. -/
def herveStubs : Device Unit where
  read _ _ := (0, (), none)
  write _ _ _ := ((), none)

theorem herveStubs_silent : herveStubs.Silent :=
  ⟨fun _ _ => rfl, fun _ _ _ => rfl⟩

structure Bus (δ : Type) where
  /-- the host array; indices from `memorySize` on are not RAM -/
  memory : ℕ → Byte
  memorySize : Word
  memoryBase : Word
  /-- here because a device may set it during an access -/
  irqMask : Word
  htifTohostLo : Word
  htifTohostHi : Word
  htifFromhostLo : Word
  htifFromhostHi : Word
  htifExit : Bool
  htifExitCode : Word
  htifHalted : Bool
  device : δ
  trace : List Event

structure Core (δ : Type) extends Bus δ where
  regs : Reg → Word
  pc : Word

structure State (δ : Type) extends Core δ where
  wfiSleep : Bool
  initialized : Bool
  csrMstatus : Word
  csrMtvec : Word
  csrMepc : Word
  csrMcause : Word
  csrMcycle : BitVec 64
  csrMie : Word
  symbols : List Symbol
  profiler : Profiler

variable {δ : Type}

def Bus.log (b : Bus δ) (e : Event) : Bus δ := { b with trace := b.trace ++ [e] }

def State.log (s : State δ) (e : Event) : State δ := { s with trace := s.trace ++ [e] }

/-- The initial values of the statics, in front of a device in state `d`. -/
def State.start (d : δ) : State δ where
  memory := fun _ => 0
  memorySize := 0
  memoryBase := 0
  irqMask := 0
  htifTohostLo := 0
  htifTohostHi := 0
  htifFromhostLo := 0
  htifFromhostHi := 0
  htifExit := false
  htifExitCode := 0
  htifHalted := false
  device := d
  trace := []
  regs := fun _ => 0
  pc := 0
  wfiSleep := false
  initialized := false
  csrMstatus := 0
  csrMtvec := 0
  csrMepc := 0
  csrMcause := 0
  csrMcycle := 0
  csrMie := 0xFFFFFFFF#32
  symbols := []
  profiler :=
    { profilingEnabled := false, currentArch := none, totalCycles := 0, totalInstructions := 0
      insnCounts := fun _ => 0, insnCycles := fun _ => 0, funcStats := [], lastFunc := none
      callPairs := [], lastCf := .none }

def State.mie (s : State δ) : Bool := s.csrMstatus &&& 0x8#32 ≠ 0

/-- The events logged between two states of one run. -/
def newEvents (s t : Bus δ) : List Event := t.trace.drop s.trace.length

theorem newEvents_of_append {s t : Bus δ} {es : List Event} (h : t.trace = s.trace ++ es) :
    newEvents s t = es := by
  rw [newEvents, h, List.drop_left]

end Herve
