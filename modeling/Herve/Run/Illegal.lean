import Herve.Decode.Base
import Herve.Iss.Init
import Herve.Run.Stop
import Herve.Trap.Csr

/-! Illegal 32-bit words. The compressed decoder refuses an illegal halfword; the 32-bit one
has no such exit, and takes an unknown word for a no-op or for WFI. -/

namespace Herve
open RiscV

variable {δ : Type} (dev : Device δ)

/-- The 32-bit words of RV32I, RV32M, Zicsr and Zifencei, with MRET and WFI. -/
inductive Legal : Word → Prop
  | base (i : Instr) : Legal i.encode
  | mulDiv (f3 : BitVec 3) (r2 r1 r : Reg) : Legal (rType 1 r2 r1 f3 r 0x33)
  | csr (i : CsrInstr) : Legal i.encode
  | fenceI (imm : BitVec 12) (r1 r : Reg) : Legal (iType imm r1 1 r 0x0f)
  | ecall : Legal 0x00000073
  | ebreak : Legal 0x00100073
  | mret : Legal 0x30200073
  | wfi : Legal 0x10500073

theorem legal_opcode {insn : Word} (h : Legal insn) :
    opcode insn ∈ [0x03#32, 0x0f#32, 0x13#32, 0x17#32, 0x23#32, 0x33#32, 0x37#32, 0x63#32,
      0x67#32, 0x6f#32, 0x73#32] := by
  cases h with
  | base i => cases i <;> simp [Instr.encode]
  | csr i => simp [CsrInstr.encode]
  | mulDiv f3 r2 r1 r => simp
  | fenceI imm r1 r => simp
  | _ => decide

theorem legal_system {insn : Word} (h : Legal insn) (hsys : opcode insn = 0x73#32) :
    funct3 insn ≠ 0 ∨
      insn ∈ [0x00000073#32, 0x00100073#32, 0x30200073#32, 0x10500073#32] := by
  cases h with
  | base i => exact absurd hsys (opcode_encode_ne_system i)
  | csr i =>
    obtain ⟨_, _, hf3, _⟩ := iType_fields i.csr i.field (BitVec.ofBool i.immediate ++ i.op.funct2)
      i.rd 0x73
    rw [CsrInstr.encode, hf3]
    exact .inl (funct3_csr i.op i.immediate).1
  | mulDiv f3 r2 r1 r => simp at hsys
  | fenceI imm r1 r => simp at hsys
  | _ => exact .inr (by decide)

/-- The word stops the hart and does nothing else. -/
structure Stopped (insn : Word) (s : State δ) : Prop where
  result : (executeInstruction dev insn s).1 = false
  regs : (executeInstruction dev insn s).2.regs = s.regs
  pc : (executeInstruction dev insn s).2.pc = s.pc
  memory : (executeInstruction dev insn s).2.memory = s.memory
  mstatus : (executeInstruction dev insn s).2.csrMstatus = s.csrMstatus
  mie : (executeInstruction dev insn s).2.csrMie = s.csrMie
  mtvec : (executeInstruction dev insn s).2.csrMtvec = s.csrMtvec
  mepc : (executeInstruction dev insn s).2.csrMepc = s.csrMepc
  mcause : (executeInstruction dev insn s).2.csrMcause = s.csrMcause
  mcycle : (executeInstruction dev insn s).2.csrMcycle = s.csrMcycle
  wfiSleep : (executeInstruction dev insn s).2.wfiSleep = s.wfiSleep

/-- An illegal word stops the hart only where it is taken for a WFI by a hart that sleeps
already, and the loops execute nothing then. -/
theorem stopped_iff {insn : Word} (hillegal : ¬ Legal insn) (s : State δ) :
    Stopped dev insn s ↔
      opcode insn = 0x73#32 ∧ funct3 insn = 0 ∧ s.wfiSleep = true ∧
        ¬ (s.mie = true ∧ s.irqMask ≠ 0) := by
  have htrap : ¬ IsTrapCall insn := by
    rintro (rfl | rfl)
    · exact hillegal .ebreak
    · exact hillegal .ecall
  have hmret : insn ≠ 0x30200073#32 := by
    rintro rfl
    exact hillegal .mret
  have hmie : s.mie = true ↔ s.csrMstatus &&& 0x8#32 ≠ 0 := decide_eq_true_iff
  rw [hmie]
  by_cases hsleep : Sleeps insn s
  · have hrun := executeInstruction_sleeps dev hsleep
    obtain ⟨hsys, hf3, _, _, hnone⟩ := hsleep
    constructor
    · intro h
      have hwfi := h.wfiSleep
      rw [hrun] at hwfi
      exact ⟨hsys, hf3, hwfi.symm, hnone⟩
    · intro h
      constructor <;> rw [hrun]
      exact h.2.2.1.symm
  · refine iff_of_false (fun h => ?_) fun h => hsleep ⟨h.1, h.2.1, htrap, hmret, h.2.2.2⟩
    have hretire := (executeInstruction_retires dev htrap hsleep).1
    exact Bool.false_ne_true (h.result.symm.trans hretire)

/-- SRET, executed asleep. -/
theorem stopped_sret :
    Stopped herveStubs 0x10200073 { State.booted [0x10200073] with wfiSleep := true } := by
  refine (stopped_iff herveStubs (fun h => ?_) _).2 (by decide)
  exact absurd (legal_system h (by decide)) (by decide)

/-- FADD.S is skipped. -/
theorem not_stopped_fadd : ¬ Legal 0x00000053 ∧
    ¬ Stopped herveStubs 0x00000053 (State.booted [0x00000053]) := by
  refine ⟨fun h => absurd (legal_opcode h) (by decide), fun h => ?_⟩
  exact absurd h.result (by decide)

end Herve
