import Herve.Decode.Fields

/-! The decoder on an encoded RV32I instruction: which arm of the switch each
instruction takes, with the operand values written as the instruction set writes them. -/

namespace Herve
open RiscV

/-- The arm that carries out a base instruction. -/
def armOf (regs : Reg → Word) (pc : Word) : Instr → Arm
  | .lui rd imm => .writeReg rd (imm ++ 0#12)
  | .auipc rd imm => .writeReg rd (pc + (imm ++ 0#12))
  | .jal rd imm => .link rd (pc + 4) (pc + (imm ++ 0#1).signExtend 32)
  | .jalr rd rs1 imm => .link rd (pc + 4) ((regs rs1 + imm.signExtend 32) &&& ~~~1#32)
  | .branch op rs1 rs2 imm =>
    if op.taken (regs rs1) (regs rs2) then .setPc (pc + (imm ++ 0#1).signExtend 32) else .skip
  | .load op rd rs1 imm => .load op rd (regs rs1 + imm.signExtend 32)
  | .store op rs2 rs1 imm => .store op rs2 (regs rs1 + imm.signExtend 32)
  | .opImm op rd rs1 imm => .writeReg rd (op.alu.eval (regs rs1) (imm.signExtend 32))
  | .shiftImm op rd rs1 shamt => .writeReg rd (op.eval (regs rs1) shamt)
  | .opReg op rd rs1 rs2 => .writeReg rd (op.eval (regs rs1) (regs rs2))
  | .fence _ _ _ => .skip

theorem and_31 (n : ℕ) : n &&& 31 = n % 32 := Nat.and_two_pow_sub_one_eq_mod n 5

theorem opResult_eval (op : Alu) (a b : Word) :
    opResult (op.funct3.setWidth 32) (op.funct7.setWidth 32) a b = some (op.eval a b) := by
  cases op <;>
    simp [opResult, Alu.funct3, Alu.funct7, Alu.eval, BitVec.shiftLeft_eq', BitVec.ushiftRight_eq',
      BitVec.sshiftRight', and_31, BitVec.slt, BitVec.lt_def]

theorem opImmResult_iType (op : AluImm) (imm : BitVec 12) (r1 r : Reg) (o : BitVec 7) (a : Word) :
    opImmResult (iType imm r1 op.funct3 r o) a = some (op.alu.eval a (imm.signExtend 32)) := by
  cases op <;>
    simp [opImmResult, AluImm.funct3, AluImm.alu, Alu.eval, BitVec.slt, BitVec.lt_def]

theorem opImmResult_rType (op : ShiftImm) (shamt r1 r : Reg) (o : BitVec 7) (a : Word) :
    opImmResult (rType op.funct7 shamt r1 op.funct3 r o) a = some (op.eval a shamt) := by
  obtain ⟨h25, h20, hand⟩ := rType_shamt op.funct7 shamt r1 op.funct3 r o
  have hlow : (shamt.setWidth 32).toNat = shamt.toNat := by
    rw [BitVec.toNat_setWidth, Nat.mod_eq_of_lt (by omega)]
  cases op with
  | slli =>
    have h0 : (ShiftImm.slli.funct7 ++ shamt).setWidth 32 = shamt.setWidth 32 := by
      apply BitVec.eq_of_getLsbD_eq
      intro i hi
      simp only [ShiftImm.funct7, BitVec.getLsbD_setWidth, BitVec.getLsbD_append]
      interval_cases i <;> simp
    simp only [opImmResult, rType_fields, h25, h20, h0, BitVec.shiftLeft_eq', hlow]
    simp [ShiftImm.funct3, ShiftImm.funct7, ShiftImm.eval]
  | srli =>
    simp only [opImmResult, rType_fields, h25, hand, BitVec.ushiftRight_eq', hlow]
    simp [ShiftImm.funct3, ShiftImm.funct7, ShiftImm.eval]
  | srai =>
    simp only [opImmResult, rType_fields, h25, hand, BitVec.sshiftRight', hlow]
    simp [ShiftImm.funct3, ShiftImm.funct7, ShiftImm.eval]

theorem branchTaken_funct3 (op : Branch) (a b : Word) :
    branchTaken (op.funct3.setWidth 32) a b = op.taken a b := by
  cases op <;>
    simp [branchTaken, Branch.funct3, Branch.taken, BitVec.slt, BitVec.sle, BitVec.lt_def,
      BitVec.le_def]

theorem loadArm_funct3 (op : Load) (r : Reg) (addr : Word) :
    loadArm (op.funct3.setWidth 32) r addr = .load op r addr := by
  cases op <;> rfl

theorem storeArm_funct3 (op : Store) (r : Reg) (addr : Word) :
    storeArm (op.funct3.setWidth 32) r addr = .store op r addr := by
  cases op <;> rfl

theorem funct7_ne_one (op : Alu) : op.funct7.setWidth 32 ≠ 1#32 := by
  cases op <;> decide

theorem decodeInstruction_encode (regs : Reg → Word) (pc : Word) (i : Instr) :
    (decodeInstruction i.encode regs pc).2 = armOf regs pc i := by
  cases i with
  | lui rd imm => simp [decodeInstruction, Instr.encode, armOf]
  | auipc rd imm => simp [decodeInstruction, Instr.encode, armOf]
  | jal rd imm => simp [decodeInstruction, Instr.encode, armOf]
  | jalr rd rs1 imm => simp [decodeInstruction, Instr.encode, armOf]
  | branch op rs1 rs2 imm =>
    simp [decodeInstruction, Instr.encode, armOf, branchTaken_funct3]
  | load op rd rs1 imm => simp [decodeInstruction, Instr.encode, armOf, loadArm_funct3]
  | store op rs2 rs1 imm => simp [decodeInstruction, Instr.encode, armOf, storeArm_funct3]
  | opImm op rd rs1 imm =>
    simp [decodeInstruction, Instr.encode, armOf, opImmResult_iType, writeResult]
  | shiftImm op rd rs1 shamt =>
    simp [decodeInstruction, Instr.encode, armOf, opImmResult_rType, writeResult]
  | opReg op rd rs1 rs2 =>
    simp [decodeInstruction, Instr.encode, armOf, opResult_eval, funct7_ne_one, writeResult]
  | fence flags rs1 rd => simp [decodeInstruction, Instr.encode, armOf]

theorem opcode_encode_ne_system (i : Instr) : opcode i.encode ≠ 0x73#32 := by
  cases i <;> simp [Instr.encode]

end Herve
