import Herve.RiscV.Rv32i

/-! The Zicsr instructions: encodings, operands and the value each one leaves in the
control and status register it addresses. -/

namespace RiscV

inductive CsrOp
  | rw | rs | rc
  deriving DecidableEq, Repr

namespace CsrOp

/-- The new value of a CSR that held `old`. -/
def eval : CsrOp → Word → Word → Word
  | rw, _, src => src
  | rs, old, src => old ||| src
  | rc, old, src => old &&& ~~~src

def funct2 : CsrOp → BitVec 2
  | rw => 1
  | rs => 2
  | rc => 3

end CsrOp

/-- One of the six instructions. The immediate forms read bits 19:15 as a number instead of
a register. -/
structure CsrInstr where
  op : CsrOp
  immediate : Bool
  rd : Reg
  field : BitVec 5
  csr : BitVec 12
  deriving DecidableEq, Repr

namespace CsrInstr

def encode (i : CsrInstr) : Word :=
  iType i.csr i.field (BitVec.ofBool i.immediate ++ i.op.funct2) i.rd 0x73

def src (i : CsrInstr) (x : Reg → Word) : Word :=
  if i.immediate then i.field.setWidth 32 else x i.field

end CsrInstr
end RiscV
