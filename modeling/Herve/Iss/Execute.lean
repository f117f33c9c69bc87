import Herve.Iss.Compressed

/-! `execute_instruction`: the SYSTEM opcode, which alone reaches the control and status
registers, and the exit every other opcode shares. -/

namespace Herve
open RiscV (Byte Word Reg)

variable {δ : Type}

/-- `if (herve_profiler_is_enabled()) herve_profiler_record_insn(type, pc, insn)` -/
def State.recordInsn (s : State δ) (type : InsnType) (pc insn : Word) : State δ :=
  if s.profiler.profilingEnabled then
    { s with profiler := herveProfilerRecordInsn s.symbols type pc insn s.profiler }
  else s

theorem recordInsn_profiler (s : State δ) (type : InsnType) (pc insn : Word) :
    ∃ p, s.recordInsn type pc insn = { s with profiler := p } := by
  unfold State.recordInsn
  split_ifs
  · exact ⟨_, rfl⟩
  · exact ⟨s.profiler, rfl⟩

/-- The exit of `execute_instruction`: advance the pc, then record the instruction under the
address it had. -/
def State.retire (s : State δ) (type : InsnType) (nextPc insn : Word) : Bool × State δ :=
  let pcBefore := s.pc
  (true, { s with pc := nextPc }.recordInsn type pcBefore insn)

theorem retire_profiler (s : State δ) (type : InsnType) (nextPc insn : Word) :
    ∃ p, s.retire type nextPc insn = (true, { s with pc := nextPc, profiler := p }) := by
  obtain ⟨p, hp⟩ := recordInsn_profiler { s with pc := nextPc } type s.pc insn
  exact ⟨p, congrArg (Prod.mk true) hp⟩

/-- The exit keeps whatever depends neither on the pc nor on the profiler. -/
theorem retire_keeps {α : Type} (f : State δ → α)
    (hexit : ∀ (u : State δ) pc p, f { u with pc := pc, profiler := p } = f u)
    (s : State δ) (type : InsnType) (nextPc insn : Word) :
    f (s.retire type nextPc insn).2 = f s := by
  obtain ⟨p, hp⟩ := retire_profiler s type nextPc insn
  rw [hp]
  exact hexit s nextPc p

def State.csrRead (s : State δ) (addr : Word) : Word :=
  match addr.toNat with
  | 0x300 => s.csrMstatus
  | 0x304 => s.csrMie
  | 0x305 => s.csrMtvec
  | 0x341 => s.csrMepc
  | 0x342 => s.csrMcause
  -- mip shows the timer bit alone
  | 0x344 => if s.irqMask &&& 0x80#32 ≠ 0 then 0x80#32 else 0
  | 0xB00 => s.csrMcycle.setWidth 32
  | 0xB02 => s.csrMcycle.setWidth 32
  | 0xF11 => 0
  | 0xF12 => 1
  | 0xF14 => 0
  | _ => 0

def State.csrWrite (s : State δ) (addr value : Word) : State δ :=
  match addr.toNat with
  | 0x300 => { s with csrMstatus := value }
  | 0x304 => { s with csrMie := value }
  | 0x305 => { s with csrMtvec := value }
  | 0x341 => { s with csrMepc := value }
  | 0x342 => { s with csrMcause := value }
  | _ => s

theorem csrWrite_frame (s : State δ) (addr v : Word) :
    (s.csrWrite addr v).toCore = s.toCore ∧ (s.csrWrite addr v).csrMcycle = s.csrMcycle := by
  unfold State.csrWrite
  split <;> exact ⟨rfl, rfl⟩

def csrNewValue (funct3 csrVal wrVal : Word) : Word :=
  match funct3.toNat with
  | 0x1 => wrVal
  | 0x2 => csrVal ||| wrVal
  | 0x3 => csrVal &&& ~~~wrVal
  | 0x5 => wrVal
  | 0x6 => csrVal ||| wrVal
  | 0x7 => csrVal &&& ~~~wrVal
  | _ => csrVal

def csrAddr (insn : Word) : Word := (insn >>> 20) &&& 0xFFF#32

/-- The CSR instructions. The operand of an immediate form is the `rd` field. -/
def executeCsr (insn : Word) (s : State δ) : State δ :=
  let csrVal := s.csrRead (csrAddr insn)
  let uimm : Word := (rd insn).setWidth 32
  let wrVal := if funct3 insn &&& 0x4#32 ≠ 0 then uimm else s.regs (rs1 insn)
  let s' := s.csrWrite (csrAddr insn) (csrNewValue (funct3 insn) csrVal wrVal)
  { s' with regs := writeReg (rd insn) csrVal s'.regs }

def executeSystem (insn : Word) (s : State δ) : Bool × State δ :=
  if funct3 insn = 0 then
    -- EBREAK and ECALL
    if insn = 0x00100073#32 ∨ insn = 0x00000073#32 then (false, s)
    -- MRET returns early: it is not recorded
    else if insn = 0x30200073#32 then
      (true, { s with pc := s.csrMepc, csrMstatus := s.csrMstatus ||| 0x8#32 })
    -- WFI, and every other encoding with funct3 = 0
    else if s.csrMstatus &&& 0x8#32 ≠ 0 ∧ s.irqMask ≠ 0 then s.retire .sys (s.pc + 4) insn
    else (false, { s with wfiSleep := true })
  else (executeCsr insn s).retire .csr (s.pc + 4) insn

theorem executeSystem_keeps {α : Type} (f : State δ → α)
    (hexit : ∀ (u : State δ) pc p, f { u with pc := pc, profiler := p } = f u)
    {insn : Word} {s : State δ}
    (hmret : f { s with pc := s.csrMepc, csrMstatus := s.csrMstatus ||| 0x8#32 } = f s)
    (hsleep : f { s with wfiSleep := true } = f s) (hcsr : f (executeCsr insn s) = f s) :
    f (executeSystem insn s).2 = f s := by
  unfold executeSystem
  split_ifs
  · rfl
  · exact hmret
  · exact retire_keeps f hexit _ _ _ _
  · exact hsleep
  · exact (retire_keeps f hexit _ _ _ _).trans hcsr

variable (dev : Device δ)

/-- Every opcode but SYSTEM. The early return of the M-extension arms makes the same exit as
the others. -/
def executeCore (insn : Word) (s : State δ) : Bool × State δ :=
  let (type, arm) := decodeInstruction insn s.regs s.pc
  let (ok, c) := arm.run dev (s.pc + 4) s.toCore
  (ok, { s with toCore := c }.recordInsn type s.pc insn)

theorem executeCore_arm (insn : Word) (s : State δ) :
    ∃ p, executeCore dev insn s =
      (((decodeInstruction insn s.regs s.pc).2.run dev (s.pc + 4) s.toCore).1,
        { s with
          toCore := ((decodeInstruction insn s.regs s.pc).2.run dev (s.pc + 4) s.toCore).2
          profiler := p }) := by
  obtain ⟨p, hp⟩ := recordInsn_profiler
    { s with toCore := ((decodeInstruction insn s.regs s.pc).2.run dev (s.pc + 4) s.toCore).2 }
    (decodeInstruction insn s.regs s.pc).1 s.pc insn
  exact ⟨p, congrArg (Prod.mk _) hp⟩

def executeInstruction (insn : Word) (s : State δ) : Bool × State δ :=
  if opcode insn = 0x73#32 then executeSystem insn s else executeCore dev insn s

end Herve
