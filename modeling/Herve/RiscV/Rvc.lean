import Herve.RiscV.Rv32i

/-! The RV32C compressed instructions without floating point: their halfword
encodings and the 32-bit instruction each one expands to. -/

namespace RiscV

/-- The register named by a three-bit field, `x8` to `x15`. -/
def creg (r : BitVec 3) : Reg := 0b01#2 ++ r

inductive CInstr
  | addi4spn (rd' : BitVec 3) (imm : BitVec 8)
  | lw (rd' rs1' : BitVec 3) (imm : BitVec 5)
  | sw (rs2' rs1' : BitVec 3) (imm : BitVec 5)
  | addi (rd : Reg) (imm : BitVec 6)
  | jal (imm : BitVec 11)
  | li (rd : Reg) (imm : BitVec 6)
  | addi16sp (imm : BitVec 6)
  | lui (rd : Reg) (imm : BitVec 6)
  | srli (rd' : BitVec 3) (shamt : BitVec 5)
  | srai (rd' : BitVec 3) (shamt : BitVec 5)
  | andi (rd' : BitVec 3) (imm : BitVec 6)
  | sub (rd' rs2' : BitVec 3)
  | xor (rd' rs2' : BitVec 3)
  | or (rd' rs2' : BitVec 3)
  | and (rd' rs2' : BitVec 3)
  | j (imm : BitVec 11)
  | beqz (rs1' : BitVec 3) (imm : BitVec 8)
  | bnez (rs1' : BitVec 3) (imm : BitVec 8)
  | slli (rd : Reg) (shamt : BitVec 5)
  | lwsp (rd : Reg) (imm : BitVec 6)
  | jr (rs1 : Reg)
  | mv (rd rs2 : Reg)
  | jalr (rs1 : Reg)
  | add (rd rs2 : Reg)
  | swsp (rs2 : Reg) (imm : BitVec 6)
  deriving DecidableEq, Repr

/-! ## Encoding formats -/

/-- CL and CS: `offset[5:3]`, base, `offset[2|6]`, data register. -/
def clType (funct3 : BitVec 3) (offset : BitVec 7) (rs1' r' : BitVec 3) : BitVec 16 :=
  funct3 ++ offset.extractLsb' 3 3 ++ rs1' ++ offset.extractLsb' 2 1 ++ offset.extractLsb' 6 1 ++
    r' ++ 0b00#2

def ciType (funct3 : BitVec 3) (imm : BitVec 6) (rd : Reg) (quadrant : BitVec 2) : BitVec 16 :=
  funct3 ++ imm.extractLsb' 5 1 ++ rd ++ imm.extractLsb' 0 5 ++ quadrant

def cjType (funct3 : BitVec 3) (offset : BitVec 12) : BitVec 16 :=
  funct3 ++ offset.extractLsb' 11 1 ++ offset.extractLsb' 4 1 ++ offset.extractLsb' 8 2 ++
    offset.extractLsb' 10 1 ++ offset.extractLsb' 6 1 ++ offset.extractLsb' 7 1 ++
    offset.extractLsb' 1 3 ++ offset.extractLsb' 5 1 ++ 0b01#2

def cbType (funct3 : BitVec 3) (offset : BitVec 9) (rs1' : BitVec 3) : BitVec 16 :=
  funct3 ++ offset.extractLsb' 8 1 ++ offset.extractLsb' 3 2 ++ rs1' ++ offset.extractLsb' 6 2 ++
    offset.extractLsb' 1 2 ++ offset.extractLsb' 5 1 ++ 0b01#2

/-- The CB-shaped ALU instructions: `funct2` selects the operation on `rd'`. -/
def cbAluType (imm : BitVec 6) (funct2 : BitVec 2) (rd' : BitVec 3) : BitVec 16 :=
  0b100#3 ++ imm.extractLsb' 5 1 ++ funct2 ++ rd' ++ imm.extractLsb' 0 5 ++ 0b01#2

def caType (funct2 : BitVec 2) (rd' rs2' : BitVec 3) : BitVec 16 :=
  0b100#3 ++ 0b0#1 ++ 0b11#2 ++ rd' ++ funct2 ++ rs2' ++ 0b01#2

def crType (funct4 : BitVec 4) (rd rs2 : Reg) : BitVec 16 := funct4 ++ rd ++ rs2 ++ 0b10#2

def ciwType (imm : BitVec 10) (rd' : BitVec 3) : BitVec 16 :=
  0b000#3 ++ imm.extractLsb' 4 2 ++ imm.extractLsb' 6 4 ++ imm.extractLsb' 2 1 ++
    imm.extractLsb' 3 1 ++ rd' ++ 0b00#2

/-- C.ADDI16SP: `imm[9]`, `x2`, `imm[4|6|8:7|5]`. -/
def ci16spType (imm : BitVec 10) : BitVec 16 :=
  0b011#3 ++ imm.extractLsb' 9 1 ++ 2#5 ++ imm.extractLsb' 4 1 ++ imm.extractLsb' 6 1 ++
    imm.extractLsb' 7 2 ++ imm.extractLsb' 5 1 ++ 0b01#2

/-- C.LWSP: `offset[5]`, `rd`, `offset[4:2|7:6]`. -/
def ciLwspType (offset : BitVec 8) (rd : Reg) : BitVec 16 :=
  0b010#3 ++ offset.extractLsb' 5 1 ++ rd ++ offset.extractLsb' 2 3 ++ offset.extractLsb' 6 2 ++
    0b10#2

/-- C.SWSP: `offset[5:2|7:6]`, `rs2`. -/
def cssType (offset : BitVec 8) (rs2 : Reg) : BitVec 16 :=
  0b110#3 ++ offset.extractLsb' 2 4 ++ offset.extractLsb' 6 2 ++ rs2 ++ 0b10#2

namespace CInstr

def encode : CInstr → BitVec 16
  | addi4spn rd' imm => ciwType (imm ++ 0#2) rd'
  | lw rd' rs1' imm => clType 0b010 (imm ++ 0#2) rs1' rd'
  | sw rs2' rs1' imm => clType 0b110 (imm ++ 0#2) rs1' rs2'
  | addi rd imm => ciType 0b000 imm rd 0b01
  | jal imm => cjType 0b001 (imm ++ 0#1)
  | li rd imm => ciType 0b010 imm rd 0b01
  | addi16sp imm => ci16spType (imm ++ 0#4)
  | lui rd imm => ciType 0b011 imm rd 0b01
  | srli rd' shamt => cbAluType (0#1 ++ shamt) 0b00 rd'
  | srai rd' shamt => cbAluType (0#1 ++ shamt) 0b01 rd'
  | andi rd' imm => cbAluType imm 0b10 rd'
  | sub rd' rs2' => caType 0b00 rd' rs2'
  | xor rd' rs2' => caType 0b01 rd' rs2'
  | or rd' rs2' => caType 0b10 rd' rs2'
  | and rd' rs2' => caType 0b11 rd' rs2'
  | j imm => cjType 0b101 (imm ++ 0#1)
  | beqz rs1' imm => cbType 0b110 (imm ++ 0#1) rs1'
  | bnez rs1' imm => cbType 0b111 (imm ++ 0#1) rs1'
  | slli rd shamt => ciType 0b000 (0#1 ++ shamt) rd 0b10
  | lwsp rd imm => ciLwspType (imm ++ 0#2) rd
  | jr rs1 => crType 0b1000 rs1 0
  | mv rd rs2 => crType 0b1000 rd rs2
  | jalr rs1 => crType 0b1001 rs1 0
  | add rd rs2 => crType 0b1001 rd rs2
  | swsp rs2 imm => cssType (imm ++ 0#2) rs2

/-- The encodings that are neither reserved nor taken by another instruction; hints are legal. -/
def Legal : CInstr → Prop
  | addi4spn _ imm => imm ≠ 0
  | addi16sp imm => imm ≠ 0
  | lui rd imm => rd ≠ 2 ∧ imm ≠ 0
  | lwsp rd _ => rd ≠ 0
  | jr rs1 | jalr rs1 => rs1 ≠ 0
  | mv _ rs2 | add _ rs2 => rs2 ≠ 0
  | _ => True

instance : DecidablePred Legal := fun c => by cases c <;> unfold Legal <;> infer_instance

def expand : CInstr → Instr
  | addi4spn rd' imm => .opImm .addi (creg rd') 2 ((imm ++ 0#2).setWidth 12)
  | lw rd' rs1' imm => .load .lw (creg rd') (creg rs1') ((imm ++ 0#2).setWidth 12)
  | sw rs2' rs1' imm => .store .sw (creg rs2') (creg rs1') ((imm ++ 0#2).setWidth 12)
  | addi rd imm => .opImm .addi rd rd (imm.signExtend 12)
  | jal imm => .jal 1 (imm.signExtend 20)
  | li rd imm => .opImm .addi rd 0 (imm.signExtend 12)
  | addi16sp imm => .opImm .addi 2 2 ((imm ++ 0#4).signExtend 12)
  | lui rd imm => .lui rd (imm.signExtend 20)
  | srli rd' shamt => .shiftImm .srli (creg rd') (creg rd') shamt
  | srai rd' shamt => .shiftImm .srai (creg rd') (creg rd') shamt
  | andi rd' imm => .opImm .andi (creg rd') (creg rd') (imm.signExtend 12)
  | sub rd' rs2' => .opReg .sub (creg rd') (creg rd') (creg rs2')
  | xor rd' rs2' => .opReg .xor (creg rd') (creg rd') (creg rs2')
  | or rd' rs2' => .opReg .or (creg rd') (creg rd') (creg rs2')
  | and rd' rs2' => .opReg .and (creg rd') (creg rd') (creg rs2')
  | j imm => .jal 0 (imm.signExtend 20)
  | beqz rs1' imm => .branch .beq (creg rs1') 0 (imm.signExtend 12)
  | bnez rs1' imm => .branch .bne (creg rs1') 0 (imm.signExtend 12)
  | slli rd shamt => .shiftImm .slli rd rd shamt
  | lwsp rd imm => .load .lw rd 2 ((imm ++ 0#2).setWidth 12)
  | jr rs1 => .jalr 0 rs1 0
  | mv rd rs2 => .opReg .add rd 0 rs2
  | jalr rs1 => .jalr 1 rs1 0
  | add rd rs2 => .opReg .add rd rd rs2
  | swsp rs2 imm => .store .sw rs2 2 ((imm ++ 0#2).setWidth 12)

def IsMemory : CInstr → Prop
  | lw .. | sw .. | lwsp .. | swsp .. => True
  | _ => False

def IsControl : CInstr → Prop
  | j .. | jal .. | jr .. | jalr .. | beqz .. | bnez .. => True
  | _ => False

def IsCompute (c : CInstr) : Prop := ¬ c.IsMemory ∧ ¬ c.IsControl

end CInstr
end RiscV
