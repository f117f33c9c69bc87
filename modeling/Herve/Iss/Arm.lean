import Herve.Iss.Memory

/-! The decoders of `execute_compressed` and `execute_instruction`. Every arm of their
switches does one of seven things to the registers, the memory and the pc; the decoder
says which, and `Arm.run` does it. -/

namespace Herve
open RiscV (Byte Word Reg)

/-- One arm of a decoder's switch. A load or store names its data register; a `link` writes
a register and transfers control. -/
inductive Arm
  | fail
  | skip
  | writeReg (rd : Reg) (value : Word)
  | load (op : RiscV.Load) (rd : Reg) (addr : Word)
  | store (op : RiscV.Store) (rs2 : Reg) (addr : Word)
  | setPc (target : Word)
  | link (rd : Reg) (value target : Word)
  deriving DecidableEq, Repr

variable {δ : Type} (dev : Device δ)

def writeReg (rd : Reg) (value : Word) (regs : Reg → Word) : Reg → Word :=
  if rd ≠ 0 then Function.update regs rd value else regs

def loadData (op : RiscV.Load) (addr : Word) (b : Bus δ) : Word × Bus δ :=
  match op with
  | .lb => let (v, b) := b.readU8 dev addr; (signExtend v 8, b)
  | .lh => let (v, b) := b.readU16 dev addr; (signExtend v 16, b)
  | .lw => b.readU32 dev addr
  | .lbu => b.readU8 dev addr
  | .lhu => b.readU16 dev addr

def storeData (op : RiscV.Store) (addr value : Word) (b : Bus δ) : Bus δ :=
  match op with
  | .sb => b.writeU8 dev addr (value.setWidth 8)
  | .sh => b.writeU16 dev addr (value.setWidth 16)
  | .sw => b.writeU32 dev addr value

/-- What the arm does; `nextPc` is where the pc goes unless the arm transfers control. -/
def Arm.run (nextPc : Word) (c : Core δ) : Arm → Bool × Core δ
  | .fail => (false, c)
  | .skip => (true, { c with pc := nextPc })
  | .writeReg rd value => (true, { c with regs := Herve.writeReg rd value c.regs, pc := nextPc })
  | .load op rd addr =>
    let (data, b) := loadData dev op addr c.toBus
    (true, { toBus := b, regs := Herve.writeReg rd data c.regs, pc := nextPc })
  | .store op rs2 addr =>
    (true, { c with toBus := storeData dev op addr (c.regs rs2) c.toBus, pc := nextPc })
  | .setPc target => (true, { c with pc := target })
  | .link rd value target =>
    (true, { c with regs := Herve.writeReg rd value c.regs, pc := target })

/-- The bytes a load or store arm touches: first address and width. -/
def Arm.access : Arm → Option (Word × ℕ)
  | .load op _ addr => some (addr, op.width)
  | .store op _ addr => some (addr, op.width)
  | _ => none

def Arm.target : Arm → Option Word
  | .setPc target => some target
  | .link _ _ target => some target
  | _ => none

theorem Arm.run_pc (nextPc : Word) (c : Core δ) {a : Arm} (ha : a ≠ .fail) :
    (a.run dev nextPc c).2.pc = a.target.getD nextPc := by
  cases a <;> first | exact absurd rfl ha | rfl

/-! ## Fields -/

def opcode (insn : Word) : Word := insn &&& 0x7f#32
def rd (insn : Word) : Reg := ((insn >>> 7) &&& 0x1f#32).setWidth 5
def funct3 (insn : Word) : Word := (insn >>> 12) &&& 0x7#32
def rs1 (insn : Word) : Reg := ((insn >>> 15) &&& 0x1f#32).setWidth 5
def rs2 (insn : Word) : Reg := ((insn >>> 20) &&& 0x1f#32).setWidth 5
def funct7 (insn : Word) : Word := (insn >>> 25) &&& 0x7f#32

def immI (insn : Word) : Word := signExtend (insn >>> 20) 12

def immS (insn : Word) : Word :=
  signExtend (((insn >>> 7) &&& 0x1f#32) ||| (((insn >>> 25) &&& 0x7f#32) <<< 5)) 12

def immB (insn : Word) : Word :=
  signExtend (((insn >>> 7) &&& 0x1e#32) ||| ((insn >>> 25) &&& 0x3f#32) <<< 5 |||
    ((insn >>> 7) &&& 0x1#32) <<< 11 ||| (insn >>> 31) <<< 12) 13

def immJ (insn : Word) : Word :=
  signExtend (((insn >>> 21) &&& 0x3ff#32) <<< 1 ||| ((insn >>> 20) &&& 0x1#32) <<< 11 |||
    ((insn >>> 12) &&& 0xff#32) <<< 12 ||| (insn >>> 31) <<< 20) 21

/-! ## 32-bit instructions -/

/-- The M-extension switch: the value written to `rd`. -/
def mulDivResult (funct3 src1 src2 : Word) : Word :=
  match funct3.toNat with
  | 0x0 => (src1.signExtend 64 * src2.signExtend 64).setWidth 32
  | 0x1 => ((src1.signExtend 64 * src2.signExtend 64).sshiftRight 32).setWidth 32
  | 0x2 => ((src1.signExtend 64 * src2.setWidth 64) >>> 32).setWidth 32
  | 0x3 => ((src1.setWidth 64 * src2.setWidth 64) >>> 32).setWidth 32
  | 0x4 =>
    if src2 = 0 then 0xFFFFFFFF#32
    else if src1 = 0x80000000#32 ∧ src2 = 0xFFFFFFFF#32 then 0x80000000#32
    else src1.sdiv src2
  | 0x5 => if src2 = 0 then 0xFFFFFFFF#32 else src1.udiv src2
  | 0x6 =>
    if src2 = 0 then src1
    else if src1 = 0x80000000#32 ∧ src2 = 0xFFFFFFFF#32 then 0
    else src1.srem src2
  | _ => if src2 = 0 then src1 else src1.umod src2

/-- The OP switch; no value where the arm writes nothing. -/
def opResult (funct3 funct7 src1 src2 : Word) : Option Word :=
  match funct3.toNat with
  | 0x0 => some (if funct7 = 0x20#32 then src1 - src2 else src1 + src2)
  | 0x1 => if funct7 = 0 then some (src1 <<< (src2 &&& 0x1f#32)) else none
  | 0x2 => some (if src1.slt src2 then 1 else 0)
  | 0x3 => some (if src1 < src2 then 1 else 0)
  | 0x4 => some (src1 ^^^ src2)
  | 0x5 =>
    some (if funct7 = 0x20#32 then src1.sshiftRight' (src2 &&& 0x1f#32)
      else src1 >>> (src2 &&& 0x1f#32))
  | 0x6 => some (src1 ||| src2)
  | 0x7 => some (src1 &&& src2)
  | _ => none

def opImmResult (insn src1 : Word) : Option Word :=
  let imm := immI insn
  match (funct3 insn).toNat with
  | 0x0 => some (src1 + imm)
  | 0x2 => some (if src1.slt imm then 1 else 0)
  | 0x3 => some (if src1 < imm then 1 else 0)
  | 0x4 => some (src1 ^^^ imm)
  | 0x6 => some (src1 ||| imm)
  | 0x7 => some (src1 &&& imm)
  | 0x1 => if insn >>> 25 = 0 then some (src1 <<< (insn >>> 20)) else none
  | 0x5 =>
    if insn >>> 25 = 0 then some (src1 >>> ((insn >>> 20) &&& 0x1f#32))
    else if insn >>> 25 = 0x20#32 then some (src1.sshiftRight' ((insn >>> 20) &&& 0x1f#32))
    else none
  | _ => none

def writeResult (rd : Reg) : Option Word → Arm
  | some value => .writeReg rd value
  | none => .skip

/-- The LOAD switch; an unknown `funct3` leaves `data` zero and still writes it. -/
def loadArm (funct3 : Word) (rd : Reg) (addr : Word) : Arm :=
  match funct3.toNat with
  | 0x0 => .load .lb rd addr
  | 0x1 => .load .lh rd addr
  | 0x2 => .load .lw rd addr
  | 0x4 => .load .lbu rd addr
  | 0x5 => .load .lhu rd addr
  | _ => .writeReg rd 0

def storeArm (funct3 : Word) (rs2 : Reg) (addr : Word) : Arm :=
  match funct3.toNat with
  | 0x0 => .store .sb rs2 addr
  | 0x1 => .store .sh rs2 addr
  | 0x2 => .store .sw rs2 addr
  | _ => .skip

def branchTaken (funct3 a b : Word) : Bool :=
  match funct3.toNat with
  | 0x0 => a = b
  | 0x1 => a ≠ b
  | 0x4 => a.slt b
  | 0x5 => b.sle a
  | 0x6 => a < b
  | 0x7 => b ≤ a
  | _ => false

/-- `execute_instruction` up to its common exit, for every opcode but SYSTEM: the profiler's
class of the instruction and the arm taken. -/
def decodeInstruction (insn : Word) (regs : Reg → Word) (pc : Word) : InsnType × Arm :=
  let src1 := regs (rs1 insn)
  let src2 := regs (rs2 insn)
  match (opcode insn).toNat with
  | 0x33 =>
    if funct7 insn = 0x01#32 then
      (if funct3 insn < 4 then .mul else .div,
        .writeReg (rd insn) (mulDivResult (funct3 insn) src1 src2))
    else (.alu, writeResult (rd insn) (opResult (funct3 insn) (funct7 insn) src1 src2))
  | 0x13 => (.alu, writeResult (rd insn) (opImmResult insn src1))
  | 0x03 => (.load, loadArm (funct3 insn) (rd insn) (src1 + immI insn))
  | 0x23 => (.store, storeArm (funct3 insn) (rs2 insn) (src1 + immS insn))
  | 0x63 =>
    (.branch, if branchTaken (funct3 insn) src1 src2 then .setPc (pc + immB insn) else .skip)
  | 0x6f => (.jump, .link (rd insn) (pc + 4) (pc + immJ insn))
  | 0x67 => (.jump, .link (rd insn) (pc + 4) ((src1 + immI insn) &&& ~~~1#32))
  | 0x37 => (.alu, .writeReg (rd insn) (insn &&& 0xfffff000#32))
  | 0x17 => (.alu, .writeReg (rd insn) (pc + (insn &&& 0xfffff000#32)))
  -- FENCE, and every opcode the source does not know
  | 0x0f => (.alu, .skip)
  | _ => (.alu, .skip)

end Herve
