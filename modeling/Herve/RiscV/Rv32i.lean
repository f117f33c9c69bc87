import Herve.RiscV.Bytes

/-! The RV32I base instruction set: the six encoding formats, the instructions
with their assembler fields, and what each does to a hart. Immediates are kept as
the manual's fields; a branch or jump immediate omits its zero bit. -/

namespace RiscV

abbrev Reg := BitVec 5

/-! ## Encoding formats -/

def rType (funct7 : BitVec 7) (rs2 rs1 : Reg) (funct3 : BitVec 3) (rd : Reg)
    (opcode : BitVec 7) : Word := funct7 ++ rs2 ++ rs1 ++ funct3 ++ rd ++ opcode

def iType (imm : BitVec 12) (rs1 : Reg) (funct3 : BitVec 3) (rd : Reg)
    (opcode : BitVec 7) : Word := imm ++ rs1 ++ funct3 ++ rd ++ opcode

def sType (imm : BitVec 12) (rs2 rs1 : Reg) (funct3 : BitVec 3) (opcode : BitVec 7) : Word :=
  imm.extractLsb' 5 7 ++ rs2 ++ rs1 ++ funct3 ++ imm.extractLsb' 0 5 ++ opcode

def bType (offset : BitVec 13) (rs2 rs1 : Reg) (funct3 : BitVec 3) (opcode : BitVec 7) : Word :=
  offset.extractLsb' 12 1 ++ offset.extractLsb' 5 6 ++ rs2 ++ rs1 ++ funct3 ++
    offset.extractLsb' 1 4 ++ offset.extractLsb' 11 1 ++ opcode

def uType (imm : BitVec 20) (rd : Reg) (opcode : BitVec 7) : Word := imm ++ rd ++ opcode

def jType (offset : BitVec 21) (rd : Reg) (opcode : BitVec 7) : Word :=
  offset.extractLsb' 20 1 ++ offset.extractLsb' 1 10 ++ offset.extractLsb' 11 1 ++
    offset.extractLsb' 12 8 ++ rd ++ opcode

/-! ## Operations -/

inductive Alu
  | add | sub | sll | slt | sltu | xor | srl | sra | or | and
  deriving DecidableEq, Repr

inductive AluImm
  | addi | slti | sltiu | xori | ori | andi
  deriving DecidableEq, Repr

inductive ShiftImm
  | slli | srli | srai
  deriving DecidableEq, Repr

inductive Branch
  | beq | bne | blt | bge | bltu | bgeu
  deriving DecidableEq, Repr

inductive Load
  | lb | lh | lw | lbu | lhu
  deriving DecidableEq, Repr

inductive Store
  | sb | sh | sw
  deriving DecidableEq, Repr

def Alu.funct3 : Alu → BitVec 3
  | .add | .sub => 0 | .sll => 1 | .slt => 2 | .sltu => 3
  | .xor => 4 | .srl | .sra => 5 | .or => 6 | .and => 7

def Alu.funct7 : Alu → BitVec 7
  | .sub | .sra => 0x20
  | _ => 0

def Alu.eval : Alu → Word → Word → Word
  | .add, a, b => a + b
  | .sub, a, b => a - b
  | .sll, a, b => a <<< (b.setWidth 5).toNat
  | .slt, a, b => if a.toInt < b.toInt then 1 else 0
  | .sltu, a, b => if a.toNat < b.toNat then 1 else 0
  | .xor, a, b => a ^^^ b
  | .srl, a, b => a >>> (b.setWidth 5).toNat
  | .sra, a, b => a.sshiftRight (b.setWidth 5).toNat
  | .or, a, b => a ||| b
  | .and, a, b => a &&& b

def AluImm.funct3 : AluImm → BitVec 3
  | .addi => 0 | .slti => 2 | .sltiu => 3 | .xori => 4 | .ori => 6 | .andi => 7

def AluImm.alu : AluImm → Alu
  | .addi => .add | .slti => .slt | .sltiu => .sltu | .xori => .xor | .ori => .or | .andi => .and

def ShiftImm.funct3 : ShiftImm → BitVec 3
  | .slli => 1
  | .srli | .srai => 5

def ShiftImm.funct7 : ShiftImm → BitVec 7
  | .srai => 0x20
  | _ => 0

def ShiftImm.eval : ShiftImm → Word → BitVec 5 → Word
  | .slli, a, shamt => a <<< shamt.toNat
  | .srli, a, shamt => a >>> shamt.toNat
  | .srai, a, shamt => a.sshiftRight shamt.toNat

def Branch.funct3 : Branch → BitVec 3
  | .beq => 0 | .bne => 1 | .blt => 4 | .bge => 5 | .bltu => 6 | .bgeu => 7

def Branch.taken : Branch → Word → Word → Bool
  | .beq, a, b => a = b
  | .bne, a, b => a ≠ b
  | .blt, a, b => a.toInt < b.toInt
  | .bge, a, b => b.toInt ≤ a.toInt
  | .bltu, a, b => a.toNat < b.toNat
  | .bgeu, a, b => b.toNat ≤ a.toNat

def Load.funct3 : Load → BitVec 3
  | .lb => 0 | .lh => 1 | .lw => 2 | .lbu => 4 | .lhu => 5

def Load.width : Load → ℕ
  | .lb | .lbu => 1
  | .lh | .lhu => 2
  | .lw => 4

theorem Load.width_pos (op : Load) : 0 < op.width := by cases op <;> decide

def Load.extend : Load → Word → Word
  | .lb, v => (v.setWidth 8).signExtend 32
  | .lh, v => (v.setWidth 16).signExtend 32
  | .lw, v | .lbu, v | .lhu, v => v

def Store.funct3 : Store → BitVec 3
  | .sb => 0 | .sh => 1 | .sw => 2

def Store.width : Store → ℕ
  | .sb => 1
  | .sh => 2
  | .sw => 4

theorem Store.width_pos (op : Store) : 0 < op.width := by cases op <;> decide

/-! ## Instructions -/

inductive Instr
  | lui (rd : Reg) (imm : BitVec 20)
  | auipc (rd : Reg) (imm : BitVec 20)
  | jal (rd : Reg) (imm : BitVec 20)
  | jalr (rd rs1 : Reg) (imm : BitVec 12)
  | branch (op : Branch) (rs1 rs2 : Reg) (imm : BitVec 12)
  | load (op : Load) (rd rs1 : Reg) (imm : BitVec 12)
  | store (op : Store) (rs2 rs1 : Reg) (imm : BitVec 12)
  | opImm (op : AluImm) (rd rs1 : Reg) (imm : BitVec 12)
  | shiftImm (op : ShiftImm) (rd rs1 : Reg) (shamt : BitVec 5)
  | opReg (op : Alu) (rd rs1 rs2 : Reg)
  | fence (flags : BitVec 12) (rs1 rd : Reg)
  deriving DecidableEq, Repr

namespace Instr

def encode : Instr → Word
  | lui rd imm => uType imm rd 0x37
  | auipc rd imm => uType imm rd 0x17
  | jal rd imm => jType (imm ++ 0#1) rd 0x6f
  | jalr rd rs1 imm => iType imm rs1 0 rd 0x67
  | branch op rs1 rs2 imm => bType (imm ++ 0#1) rs2 rs1 op.funct3 0x63
  | load op rd rs1 imm => iType imm rs1 op.funct3 rd 0x03
  | store op rs2 rs1 imm => sType imm rs2 rs1 op.funct3 0x23
  | opImm op rd rs1 imm => iType imm rs1 op.funct3 rd 0x13
  | shiftImm op rd rs1 shamt => rType op.funct7 shamt rs1 op.funct3 rd 0x13
  | opReg op rd rs1 rs2 => rType op.funct7 rs2 rs1 op.funct3 rd 0x33
  -- the reserved fields of FENCE are ignored, so every value of them is a legal FENCE
  | fence flags rs1 rd => iType flags rs1 0 rd 0x0f

end Instr

/-! ## Harts -/

structure Hart where
  pc : Word
  x : Reg → Word
  mem : Word → Byte

namespace Hart

/-- Register read; `x0` is hard-wired to zero whatever the file holds. -/
def get (h : Hart) (r : Reg) : Word := if r = 0 then 0 else h.x r

def set (h : Hart) (r : Reg) (v : Word) : Hart :=
  if r = 0 then h else { h with x := Function.update h.x r v }

def goto (h : Hart) (target : Word) : Hart := { h with pc := target }

/-- Bytes are addressed modulo `2 ^ 32`. -/
def load (h : Hart) (n : ℕ) (a : Word) : Word :=
  fromBytes n fun k => h.mem (a + BitVec.ofNat 32 k)

def store (h : Hart) (n : ℕ) (a v : Word) : Hart :=
  { h with mem := fun b => if (b - a).toNat < n then byteOf v (b - a).toNat else h.mem b }

end Hart

namespace Instr

/-- The bytes a load or store touches: first address and width. -/
def access (h : Hart) : Instr → Option (Word × ℕ)
  | load op _ rs1 imm => some (h.get rs1 + imm.signExtend 32, op.width)
  | store op _ rs1 imm => some (h.get rs1 + imm.signExtend 32, op.width)
  | _ => none

def transfers (h : Hart) : Instr → Bool
  | jal _ _ | jalr _ _ _ => true
  | branch op rs1 rs2 _ => op.taken (h.get rs1) (h.get rs2)
  | _ => false

/-- Execution of an instruction that occupies `len` bytes at `h.pc`. -/
def exec (len : Word) (h : Hart) : Instr → Hart
  | lui rd imm => (h.set rd (imm ++ 0#12)).goto (h.pc + len)
  | auipc rd imm => (h.set rd (h.pc + (imm ++ 0#12))).goto (h.pc + len)
  | jal rd imm => (h.set rd (h.pc + len)).goto (h.pc + (imm ++ 0#1).signExtend 32)
  | jalr rd rs1 imm =>
    (h.set rd (h.pc + len)).goto ((h.get rs1 + imm.signExtend 32) &&& ~~~1#32)
  | branch op rs1 rs2 imm =>
    h.goto (if op.taken (h.get rs1) (h.get rs2) then h.pc + (imm ++ 0#1).signExtend 32
      else h.pc + len)
  | load op rd rs1 imm =>
    (h.set rd (op.extend (h.load op.width (h.get rs1 + imm.signExtend 32)))).goto (h.pc + len)
  | store op rs2 rs1 imm =>
    (h.store op.width (h.get rs1 + imm.signExtend 32) (h.get rs2)).goto (h.pc + len)
  | opImm op rd rs1 imm =>
    (h.set rd (op.alu.eval (h.get rs1) (imm.signExtend 32))).goto (h.pc + len)
  | shiftImm op rd rs1 shamt => (h.set rd (op.eval (h.get rs1) shamt)).goto (h.pc + len)
  | opReg op rd rs1 rs2 => (h.set rd (op.eval (h.get rs1) (h.get rs2))).goto (h.pc + len)
  | fence _ _ _ => h.goto (h.pc + len)

end Instr
end RiscV
