import Herve.Iss.State

/-! Guest memory accesses: the HTIF registers, the MMIO window and RAM, each width with
its own function, as in `rv32_dpi.c`. Host integers are little-endian. -/

namespace Herve
open RiscV (Byte Word Reg fromBytes byteOf)

def mmioBase : Word := 0x10000000#32
def mmioSize : Word := 0x00100000#32

def isHtifAddress (addr : Word) : Bool := 0x80001000#32 ≤ addr && addr < 0x80001010#32

def isMmioAddress (addr : Word) : Bool := mmioBase ≤ addr && addr < mmioBase + mmioSize

theorem isHtifAddress_iff {addr : Word} :
    isHtifAddress addr = true ↔ 0x80001000 ≤ addr.toNat ∧ addr.toNat < 0x80001010 := by
  rw [isHtifAddress, Bool.and_eq_true, decide_eq_true_iff, decide_eq_true_iff]
  rfl

theorem isMmioAddress_iff {addr : Word} :
    isMmioAddress addr = true ↔ 0x10000000 ≤ addr.toNat ∧ addr.toNat < 0x10100000 := by
  rw [isMmioAddress, Bool.and_eq_true, decide_eq_true_iff, decide_eq_true_iff]
  rfl

theorem isHtifAddress_of_mmio {addr : Word} (h : isMmioAddress addr = true) :
    isHtifAddress addr = false := by
  rw [isMmioAddress_iff] at h
  rw [← Bool.not_eq_true, isHtifAddress_iff]
  omega

def signExtend (value : Word) (bits : ℕ) : Word :=
  let shift := 32 - bits
  (value <<< shift).sshiftRight shift

variable {δ : Type} (dev : Device δ)

namespace Bus

/-- `memcpy(&x, &memory[i], n)` into a zeroed host integer. -/
def memcpyFrom (b : Bus δ) (guarded : Bool) (i : Word) (n : ℕ) : Word × Bus δ :=
  (fromBytes n fun k => b.memory (i.toNat + k), b.log (.host guarded i.toNat n))

/-- `memcpy(&memory[i], &v, n)`. -/
def memcpyTo (b : Bus δ) (i : Word) (n : ℕ) (v : Word) : Bus δ :=
  { b with
    memory := fun j =>
      if i.toNat ≤ j ∧ j < i.toNat + n then byteOf v (j - i.toNat) else b.memory j }.log
    (.host true i.toNat n)

def dpiMmioRead (b : Bus δ) (addr : Word) : Word × Bus δ :=
  let (value, device, irq) := dev.read b.device addr
  (value, { b with device := device, irqMask := irq.getD b.irqMask }.log (.mmioRead addr value))

def dpiMmioWrite (b : Bus δ) (addr value : Word) : Bus δ :=
  let (device, irq) := dev.write b.device addr value
  { b with device := device, irqMask := irq.getD b.irqMask }.log (.mmioWrite addr value)

def htifProcessRequest (b : Bus δ) : Bus δ :=
  -- bit 0 set is an exit, with the code above it
  if b.htifTohostLo &&& 1 ≠ 0 then
    { b with htifExitCode := b.htifTohostLo >>> 1, htifExit := true, htifHalted := true }
  else
    let reqPtr := b.htifTohostLo
    if reqPtr = 0 then b
    else if b.memoryBase ≤ reqPtr ∧ reqPtr < b.memoryBase + b.memorySize then
      let (magic, b) := b.memcpyFrom false (reqPtr - b.memoryBase) 4
      let (syscall, b) := b.memcpyFrom false (reqPtr - b.memoryBase + 8) 4
      let (argPtr, b) := b.memcpyFrom false (reqPtr - b.memoryBase + 16) 4
      let (_argCount, b) := b.memcpyFrom false (reqPtr - b.memoryBase + 24) 4
      -- past this check every request is acknowledged, printed or not
      if magic ≠ 64 then b
      else
        let b :=
          if syscall = 1 ∧ b.memoryBase ≤ argPtr ∧ argPtr < b.memoryBase + b.memorySize then
            let (ch, b) := b.memcpyFrom false (argPtr - b.memoryBase) 1
            b.log (.putchar (ch.setWidth 8))
          else b
        { b with htifFromhostLo := 1, htifFromhostHi := 0 }
    else b

/-- The sum wraps at `2 ^ 32`, as in the source. -/
def validMemoryAccess (b : Bus δ) (addr width : Word) : Bool :=
  b.memoryBase ≤ addr && addr - b.memoryBase + width ≤ b.memorySize

theorem validMemoryAccess_eq_true {b : Bus δ} {addr width : Word} :
    b.validMemoryAccess addr width = true ↔
      b.memoryBase ≤ addr ∧ addr - b.memoryBase + width ≤ b.memorySize := by
  rw [validMemoryAccess, Bool.and_eq_true, decide_eq_true_iff, decide_eq_true_iff]

def readU32 (b : Bus δ) (addr : Word) : Word × Bus δ :=
  if isHtifAddress addr then
    (if addr = 0x80001008#32 then b.htifFromhostLo
      else if addr = 0x8000100c#32 then b.htifFromhostHi else 0, b)
  else if isMmioAddress addr then b.dpiMmioRead dev addr
  else if !b.validMemoryAccess addr 4 then (0, b)
  else b.memcpyFrom true (addr - b.memoryBase) 4

def readU16 (b : Bus δ) (addr : Word) : Word × Bus δ :=
  if isHtifAddress addr then b.readU32 dev addr
  else if isMmioAddress addr then
    let (value, b) := b.dpiMmioRead dev (addr &&& ~~~0x3#32)
    (value >>> ((addr &&& 0x2#32) * 8), b)
  else if !b.validMemoryAccess addr 2 then (0, b)
  else b.memcpyFrom true (addr - b.memoryBase) 2

def readU8 (b : Bus δ) (addr : Word) : Word × Bus δ :=
  if isHtifAddress addr then b.readU32 dev addr
  else if isMmioAddress addr then
    let (value, b) := b.dpiMmioRead dev (addr &&& ~~~0x3#32)
    (value >>> ((addr &&& 0x3#32) * 8), b)
  else if !b.validMemoryAccess addr 1 then (0, b)
  else b.memcpyFrom true (addr - b.memoryBase) 1

def writeU32 (b : Bus δ) (addr value : Word) : Bus δ :=
  if isHtifAddress addr then
    -- only the low half of `tohost` starts a request
    if addr = 0x80001000#32 then
      let b := { b with htifTohostLo := value }
      if value ≠ 0 then b.htifProcessRequest else b
    else if addr = 0x80001004#32 then { b with htifTohostHi := value }
    else if addr = 0x80001008#32 then { b with htifFromhostLo := value }
    else if addr = 0x8000100c#32 then { b with htifFromhostHi := value }
    else b
  else if isMmioAddress addr then b.dpiMmioWrite dev addr value
  else if !b.validMemoryAccess addr 4 then b
  else b.memcpyTo (addr - b.memoryBase) 4 value

/-- The read-modify-write of a sub-word MMIO store: `lane` holds the address bits that select
the lane, `ones` the lane's mask before it is shifted into place. -/
def mmioMerge (b : Bus δ) (addr lane ones value : Word) : Bus δ :=
  let base := addr &&& ~~~0x3#32
  let (old, b) := b.dpiMmioRead dev base
  let shift := (addr &&& lane) * 8
  let mask := ones <<< shift
  let merged := (old &&& ~~~mask) ||| (value <<< shift)
  b.dpiMmioWrite dev base merged

def writeU16 (b : Bus δ) (addr : Word) (value : BitVec 16) : Bus δ :=
  if isMmioAddress addr then b.mmioMerge dev addr 0x2 0xffff (value.setWidth 32)
  else if !b.validMemoryAccess addr 2 then b
  else b.memcpyTo (addr - b.memoryBase) 2 (value.setWidth 32)

def writeU8 (b : Bus δ) (addr : Word) (value : Byte) : Bus δ :=
  if isMmioAddress addr then b.mmioMerge dev addr 0x3 0xff (value.setWidth 32)
  else if !b.validMemoryAccess addr 1 then b
  else b.memcpyTo (addr - b.memoryBase) 1 (value.setWidth 32)

end Bus
end Herve
