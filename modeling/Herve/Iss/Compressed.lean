import Herve.Iss.Arm

/-! `execute_compressed`: the decoder of 16-bit instructions. The halfword is promoted to
32 bits before its fields are cut out, as in C. -/

namespace Herve
open RiscV (Byte Word Reg)

/-! ## Fields -/

/-- `((insn >> 2) & 7) + 8`: the data register of CL and CS, the `rs2'` of CA. -/
def rdC (i : Word) : Reg := (((i >>> 2) &&& 0x7#32) + 8).setWidth 5
def rs1C (i : Word) : Reg := (((i >>> 7) &&& 0x7#32) + 8).setWidth 5
def rdCI (i : Word) : Reg := ((i >>> 7) &&& 0x1f#32).setWidth 5
def rs2CR (i : Word) : Reg := ((i >>> 2) &&& 0x1f#32).setWidth 5

def nzuimmCIW (i : Word) : Word :=
  ((i >>> 12) &&& 0x1#32) <<< 5 ||| ((i >>> 11) &&& 0x1#32) <<< 4 |||
    ((i >>> 10) &&& 0x1#32) <<< 9 ||| ((i >>> 9) &&& 0x1#32) <<< 8 |||
    ((i >>> 8) &&& 0x1#32) <<< 7 ||| ((i >>> 7) &&& 0x1#32) <<< 6 |||
    ((i >>> 6) &&& 0x1#32) <<< 2 ||| ((i >>> 5) &&& 0x1#32) <<< 3

def offsetCL (i : Word) : Word := ((i >>> 10) &&& 0x7#32) <<< 3 ||| ((i >>> 5) &&& 0x3#32) <<< 1

/-- The six-bit immediate of the CI formats, before sign extension; also their `shamt`. -/
def imm6 (i : Word) : Word := ((i >>> 12) &&& 0x1#32) <<< 5 ||| ((i >>> 2) &&& 0x1f#32)

def offsetCJ (i : Word) : Word :=
  signExtend (((i >>> 3) &&& 0x7#32) <<< 1 ||| ((i >>> 11) &&& 0x1#32) <<< 4 |||
    ((i >>> 2) &&& 0x1#32) <<< 5 ||| ((i >>> 7) &&& 0x1#32) <<< 6 |||
    ((i >>> 6) &&& 0x1#32) <<< 7 ||| ((i >>> 9) &&& 0x3#32) <<< 8 |||
    ((i >>> 8) &&& 0x1#32) <<< 10 ||| ((i >>> 12) &&& 0x1#32) <<< 11) 12

def immAddi16sp (i : Word) : Word :=
  signExtend (((i >>> 12) &&& 0x1#32) <<< 9 ||| ((i >>> 6) &&& 0x1#32) <<< 8 |||
    ((i >>> 5) &&& 0x1#32) <<< 7 ||| ((i >>> 4) &&& 0x1#32) <<< 6 |||
    ((i >>> 3) &&& 0x1#32) <<< 5 ||| ((i >>> 2) &&& 0x1#32) <<< 4) 10

def offsetCB (i : Word) : Word :=
  signExtend (((i >>> 3) &&& 0x3#32) <<< 1 ||| ((i >>> 10) &&& 0x3#32) <<< 3 |||
    ((i >>> 2) &&& 0x1#32) <<< 5 ||| ((i >>> 5) &&& 0x1#32) <<< 6 |||
    ((i >>> 12) &&& 0x1#32) <<< 8) 9

def offsetLwsp (i : Word) : Word :=
  ((i >>> 5) &&& 0x3#32) <<< 6 ||| ((i >>> 12) &&& 0x1#32) <<< 5 ||| ((i >>> 2) &&& 0x7#32) <<< 2

def offsetSwsp (i : Word) : Word := ((i >>> 10) &&& 0x3#32) <<< 6 ||| ((i >>> 5) &&& 0x3#32) <<< 4

/-- C.SWSP takes its data register from bits 11:7, unlike the other users of `rs2`. -/
def rs2Swsp (i : Word) : Reg := ((i >>> 7) &&& 0x1f#32).setWidth 5

/-! ## The switch -/

def decodeQuadrant0 (i : Word) (regs : Reg → Word) : Arm :=
  match ((i >>> 13) &&& 0x7#32).toNat with
  | 0x0 =>
    let nzuimm := nzuimmCIW i
    if nzuimm = 0 then .fail else .writeReg (rdC i) (regs 2 + nzuimm)
  | 0x2 => .load .lw (rdC i) (regs (rs1C i) + offsetCL i)
  | 0x6 => .store .sw (rdC i) (regs (rs1C i) + offsetCL i)
  | _ => .fail

/-- Quadrant 1, `funct3 = 100`: the register-register and shift arms. -/
def decodeQuadrant1Alu (i : Word) (regs : Reg → Word) : Arm :=
  let r := rs1C i
  match ((i >>> 10) &&& 0x3#32).toNat with
  | 0x0 =>
    -- with shamt[5] set the C shift is undefined; here it shifts everything out
    let shamt := imm6 i
    if shamt = 0 then .skip else .writeReg r (regs r >>> shamt)
  | 0x1 =>
    let shamt := imm6 i
    if shamt = 0 then .skip else .writeReg r ((regs r).sshiftRight' shamt)
  | 0x2 => .writeReg r (regs r &&& signExtend (imm6 i) 6)
  | _ =>
    if (i >>> 12) &&& 0x1#32 = 0 then
      match ((i >>> 5) &&& 0x3#32).toNat with
      | 0x0 => .writeReg r (regs r - regs (rdC i))
      | 0x1 => .writeReg r (regs r ^^^ regs (rdC i))
      | 0x2 => .writeReg r (regs r ||| regs (rdC i))
      | _ => .writeReg r (regs r &&& regs (rdC i))
    else .fail

def decodeQuadrant1 (i : Word) (regs : Reg → Word) (pc : Word) : Arm :=
  let rd := rdCI i
  match ((i >>> 13) &&& 0x7#32).toNat with
  | 0x0 => if rd = 0 then .skip else .writeReg rd (regs rd + signExtend (imm6 i) 6)
  | 0x1 => .link 1 (pc + 2) (pc + offsetCJ i)
  | 0x2 => .writeReg rd (signExtend (imm6 i) 6)
  | 0x3 =>
    if rd = 2 then .writeReg 2 (regs 2 + immAddi16sp i)
    else if rd = 0 then .skip
    else
      let imm := signExtend (imm6 i) 6 <<< 12
      if imm = 0 then .fail else .writeReg rd imm
  | 0x4 => decodeQuadrant1Alu i regs
  | 0x5 => .setPc (pc + offsetCJ i)
  | 0x6 => if regs (rs1C i) = 0 then .setPc (pc + offsetCB i) else .skip
  | _ => if regs (rs1C i) ≠ 0 then .setPc (pc + offsetCB i) else .skip

def decodeQuadrant2 (i : Word) (regs : Reg → Word) (pc : Word) : Arm :=
  let rd := rdCI i
  let rs2 := rs2CR i
  match ((i >>> 13) &&& 0x7#32).toNat with
  | 0x0 =>
    -- shamt[5] as in quadrant 1
    let shamt := imm6 i
    if shamt = 0 then .skip else .writeReg rd (regs rd <<< shamt)
  | 0x2 => .load .lw rd (regs 2 + offsetLwsp i)
  | 0x4 =>
    if (i >>> 12) &&& 0xf#32 = 0x8#32 then
      if rs2 = 0 then
        if rd = 0 then .fail else .setPc (regs rd)
      else .writeReg rd (regs rs2)
    else if rs2 = 0 ∧ rd = 0 then .fail
    -- C.JALR reads its target after the link register is written
    else if rs2 = 0 then .link 1 (pc + 2) (writeReg 1 (pc + 2) regs rd)
    else .writeReg rd (regs rd + regs rs2)
  | 0x6 => .store .sw (rs2Swsp i) (regs 2 + offsetSwsp i)
  | _ => .fail

def decodeCompressed (insn : BitVec 16) (regs : Reg → Word) (pc : Word) : Arm :=
  let i : Word := insn.setWidth 32
  match (i &&& 0x3#32).toNat with
  | 0x0 => decodeQuadrant0 i regs
  | 0x1 => decodeQuadrant1 i regs pc
  | 0x2 => decodeQuadrant2 i regs pc
  | _ => .fail

variable {δ : Type} (dev : Device δ)

/-- The caller advances the pc of an instruction that does not transfer control. -/
def executeCompressed (insn : BitVec 16) (c : Core δ) : Bool × Core δ :=
  (decodeCompressed insn c.regs c.pc).run dev c.pc c

end Herve
