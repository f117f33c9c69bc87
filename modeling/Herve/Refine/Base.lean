import Herve.Decode.Base
import Herve.Refine.Hart

/-! `execute_instruction` carries out the base instruction set: on every RV32I instruction
whose data access stays in RAM, the hart it implements takes the step of `Instr.exec`. -/

namespace Herve
open RiscV

variable {δ : Type} (dev : Device δ)

/-- What a base instruction leaves alone beside the hart. -/
structure SameSystem (s t : State δ) : Prop extends SameBus s.toBus t.toBus where
  wfiSleep : t.wfiSleep = s.wfiSleep
  initialized : t.initialized = s.initialized
  csrMstatus : t.csrMstatus = s.csrMstatus
  csrMtvec : t.csrMtvec = s.csrMtvec
  csrMepc : t.csrMepc = s.csrMepc
  csrMcause : t.csrMcause = s.csrMcause
  csrMcycle : t.csrMcycle = s.csrMcycle
  csrMie : t.csrMie = s.csrMie

section armOf
variable {h : Hart}

theorem get_eq (h0 : h.x 0 = 0) (r : Reg) : h.get r = h.x r := by
  unfold Hart.get
  split_ifs with hr
  · rw [hr, h0]
  · rfl

theorem armOf_ne_fail (regs : Reg → Word) (pc : Word) (i : Instr) : armOf regs pc i ≠ .fail := by
  cases i with
  | branch op rs1 rs2 imm =>
    rw [armOf]
    split_ifs <;> exact Arm.noConfusion
  | _ => exact Arm.noConfusion

theorem armOf_access (h0 : h.x 0 = 0) (i : Instr) : (armOf h.x h.pc i).access = i.access h := by
  cases i with
  | branch op rs1 rs2 imm =>
    rw [armOf]
    split_ifs <;> rfl
  | load op rd rs1 imm => rw [armOf, Arm.access, Instr.access, get_eq h0]
  | store op rs2 rs1 imm => rw [armOf, Arm.access, Instr.access, get_eq h0]
  | _ => rfl

theorem armOf_exec (h0 : h.x 0 = 0) (i : Instr) :
    (armOf h.x h.pc i).exec (h.pc + 4) h = i.exec 4 h := by
  cases i with
  | branch op rs1 rs2 imm =>
    rw [armOf, Instr.exec]
    rw [get_eq h0, get_eq h0]
    split_ifs <;> rfl
  | jalr rd rs1 imm => rw [armOf, Arm.exec, Instr.exec, get_eq h0]
  | load op rd rs1 imm => rw [armOf, Arm.exec, Instr.exec, get_eq h0]
  | store op rs2 rs1 imm => rw [armOf, Arm.exec, Instr.exec, get_eq h0, get_eq h0]
  | opImm op rd rs1 imm => rw [armOf, Arm.exec, Instr.exec, get_eq h0]
  | shiftImm op rd rs1 shamt => rw [armOf, Arm.exec, Instr.exec, get_eq h0]
  | opReg op rd rs1 rs2 => rw [armOf, Arm.exec, Instr.exec, get_eq h0, get_eq h0]
  | _ => rfl

end armOf

theorem Hart.exec_x_zero (len : Word) (h : Hart) (i : Instr) : (i.exec len h).x 0 = h.x 0 := by
  have hset : ∀ (r : Reg) (v : Word), (h.set r v).x 0 = h.x 0 := by
    intro r v
    unfold Hart.set
    split_ifs with hr
    · rfl
    · exact Function.update_of_ne (Ne.symm hr) _ _
  cases i <;> first | rfl | exact hset _ _

theorem executeInstruction_base (s : State δ) (i : Instr) (h0 : s.regs 0 = 0)
    (hmem : ∀ addr w, i.access s.hart = some (addr, w) → s.RamAccess addr w) :
    (executeInstruction dev i.encode s).1 = true ∧
    (executeInstruction dev i.encode s).2.hart = i.exec 4 s.hart ∧
    (executeInstruction dev i.encode s).2.regs 0 = 0 ∧
    SameSystem s (executeInstruction dev i.encode s).2 := by
  have hdecode : (decodeInstruction i.encode s.regs s.pc).2 = armOf s.regs s.pc i :=
    decodeInstruction_encode _ _ _
  have hacc : ∀ addr w, (armOf s.regs s.pc i).access = some (addr, w) → s.RamAccess addr w := by
    intro addr w ha
    exact hmem addr w (armOf_access (h := s.hart) h0 i ▸ ha)
  obtain ⟨hok, hhart, hbus⟩ :=
    Arm.run_hart dev (s.pc + 4) (armOf_ne_fail s.regs s.pc i) hacc
  have hexec : ((armOf s.regs s.pc i).run dev (s.pc + 4) s.toCore).2.hart = i.exec 4 s.hart :=
    hhart.trans (armOf_exec (h := s.hart) h0 i)
  obtain ⟨p, hrun⟩ := executeCore_arm dev i.encode s
  rw [executeInstruction, if_neg (opcode_encode_ne_system i), hrun, hdecode]
  refine ⟨hok, hexec, ?_, { hbus with
    wfiSleep := rfl, initialized := rfl, csrMstatus := rfl, csrMtvec := rfl, csrMepc := rfl
    csrMcause := rfl, csrMcycle := rfl, csrMie := rfl }⟩
  calc ((armOf s.regs s.pc i).run dev (s.pc + 4) s.toCore).2.regs 0
      = (i.exec 4 s.hart).x 0 := congrArg (Hart.x · 0) hexec
    _ = s.regs 0 := Hart.exec_x_zero 4 s.hart i
    _ = 0 := h0

/-- `sw x1, -4(x1)` stays in RAM. -/
theorem executeInstruction_sw :
    let s := { State.holding 0 with regs := fun r => if r = 1 then 0x80000008#32 else 0 }
    (executeInstruction herveStubs (Instr.store .sw 1 1 0xffc).encode s).2.hart =
      (Instr.store .sw 1 1 0xffc).exec 4 s.hart := by
  refine (executeInstruction_base herveStubs _ (.store .sw 1 1 0xffc) (by decide) ?_).2.1
  rintro addr w h
  cases h
  constructor <;> decide

end Herve
