import Herve.RiscV.Rv32m
import Herve.RiscV.Rvc

/-! RV32IMC as a machine: the instruction that stands at the pc, in two bytes or in four, and
what it does to the hart. -/

namespace RiscV

inductive Insn
  | base (i : Instr)
  | mulDiv (op : MulDiv) (rd rs1 rs2 : Reg)
  | compressed (c : CInstr)
  deriving DecidableEq, Repr

namespace Insn

def width : Insn → ℕ
  | compressed _ => 2
  | _ => 4

/-- The bytes of the instruction, least significant first. -/
def bits : Insn → Word
  | base i => i.encode
  | mulDiv op rd rs1 rs2 => op.encode rd rs1 rs2
  | compressed c => c.encode.setWidth 32

def Legal : Insn → Prop
  | compressed c => c.Legal
  | _ => True

instance : DecidablePred Legal := fun i => by cases i <;> unfold Legal <;> infer_instance

/-- The instruction is the one the hart executes next. -/
structure StandsAt (i : Insn) (h : Hart) : Prop where
  legal : i.Legal
  bits : h.load i.width h.pc = i.bits

def exec (h : Hart) : Insn → Hart
  | base i => i.exec 4 h
  | mulDiv op rd rs1 rs2 => (h.set rd (op.eval (h.get rs1) (h.get rs2))).goto (h.pc + 4)
  | compressed c => c.expand.exec 2 h

def access (h : Hart) : Insn → Option (Word × ℕ)
  | base i => i.access h
  | mulDiv _ _ _ _ => none
  | compressed c => c.expand.access h

end Insn
end RiscV
