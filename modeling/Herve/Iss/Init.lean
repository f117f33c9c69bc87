import Herve.Iss.Step

/-! The initialisations. Each resets its own part of the statics; none of them touches
`mstatus`, `mtvec`, `mepc`, `mcause` or the profiler. -/

namespace Herve
open RiscV (Byte Word Reg)

variable {δ : Type}

/-- Host memory after `memcpy(&mem[dst], src, n)`, where `src` holds the `n` bytes. -/
def copyBytes (dst : ℕ) (src : List Byte) (mem : ℕ → Byte) : ℕ → Byte := fun i =>
  if dst ≤ i ∧ i < dst + src.length then src.getD (i - dst) 0 else mem i

/-- Host memory after `memset(&mem[dst], 0, n)`. -/
def zeroBytes (dst n : ℕ) (mem : ℕ → Byte) : ℕ → Byte := fun i =>
  if dst ≤ i ∧ i < dst + n then 0 else mem i

/-- The statics once RAM is allocated, the same in every initialisation. `block` is what the
host holds from the first byte that `malloc` returned on. -/
def State.allocated (block : ℕ → Byte) (size base : Word) (s : State δ) : State δ :=
  { s with
    memory := zeroBytes 0 size.toNat block
    memorySize := size
    memoryBase := base
    regs := fun _ => 0
    pc := 0
    irqMask := 0
    wfiSleep := false
    csrMie := 0xFFFFFFFF#32
    initialized := true }

/-- `malloc` returned `NULL`. -/
def State.unallocated (s : State δ) : State δ := { s with memorySize := 0, initialized := false }

/-- `firmware` is `none` where there is no file to open, `block` where `malloc` fails. `fread`
stops at the end of RAM. -/
def rvInit (firmware : Option (List Byte)) (ramSize : ℕ) (block : Option (ℕ → Byte))
    (s : State δ) : State δ :=
  let ramSize := if ramSize = 0 then 1 <<< 20 else ramSize
  match block with
  | none => s.unallocated
  | some block =>
    let s := s.allocated block (BitVec.ofNat 32 ramSize) 0
    match firmware with
    | some file => { s with memory := copyBytes 0 (file.take s.memorySize.toNat) s.memory }
    | none => s

/-- `block` is `none` where `malloc` fails. -/
def rvInitFromBuffer (data : Option (List Byte)) (ramSize : ℕ) (block : Option (ℕ → Byte))
    (s : State δ) : State δ :=
  let ramSize := if ramSize = 0 then 1 <<< 20 else ramSize
  match block with
  | none => s.unallocated
  | some block =>
    let s := s.allocated block (BitVec.ofNat 32 ramSize) 0
    match data with
    | some data => { s with memory := copyBytes 0 (data.take ramSize) s.memory }
    | none => s

def rvReset (startPc : Word) (s : State δ) : State δ :=
  if s.initialized then
    { s with
      regs := fun _ => 0, pc := startPc, irqMask := 0, wfiSleep := false, csrMcycle := 0
      csrMie := 0xFFFFFFFF#32 }
  else s

/-- The bytes of a program of 32-bit instructions. -/
def programBytes (insns : List Word) : List Byte :=
  insns.flatMap fun insn => (List.range 4).map (RiscV.byteOf insn)

theorem programBytes_getD {insns : List Word} {i k : ℕ} (hi : i < insns.length) (hk : k < 4) :
    (programBytes insns).getD (4 * i + k) 0 = RiscV.byteOf insns[i] k := by
  induction insns generalizing i with
  | nil => exact absurd hi (Nat.not_lt_zero i)
  | cons insn insns ih =>
    have hbytes : programBytes (insn :: insns) =
        (List.range 4).map (RiscV.byteOf insn) ++ programBytes insns := rfl
    have hlength : ((List.range 4).map (RiscV.byteOf insn)).length = 4 := rfl
    rw [hbytes]
    cases i with
    | zero =>
      rw [List.getD_append _ _ _ _ (by omega)]
      interval_cases k <;> rfl
    | succ i =>
      have hindex : 4 * (i + 1) + k - 4 = 4 * i + k := by omega
      rw [List.getD_append_right _ _ _ _ (by omega), hlength, hindex]
      exact ih (by simpa using hi)

/-- The emulator started on a program in 64 bytes of fresh RAM. -/
def State.booted (insns : List Word) : State Unit :=
  rvReset 0 (rvInitFromBuffer (some (programBytes insns)) 64 (some fun _ => 0) (State.start ()))

end Herve
