import Herve.RiscV.Rvc
import Herve.Decode.Fields
import Herve.Iss.Compressed

/-! What the 16-bit decoder cuts out of an encoded compressed instruction, and the arm it
then takes. Five immediates do not come out as they went in; they are named by what does
come out. -/

namespace Herve
open RiscV

/-! ## Immediates as decoded -/

/-- C.LW and C.SW: bit 6 of the offset comes back as bit 1. -/
def clOffset (imm : BitVec 5) : Word :=
  (imm.extractLsb' 0 4 ++ imm.extractLsb' 4 1 ++ 0#1).setWidth 32

/-- C.ADDI16SP: bits 8 to 4 come back permuted. -/
def addi16spImm (imm : BitVec 6) : Word :=
  (imm.extractLsb' 5 1 ++ imm.extractLsb' 0 1 ++ imm.extractLsb' 2 1 ++ imm.extractLsb' 4 1 ++
    imm.extractLsb' 3 1 ++ imm.extractLsb' 1 1 ++ 0#4).signExtend 32

/-- C.BEQZ and C.BNEZ: bit 7 of the offset is dropped. -/
def cbOffset (imm : BitVec 8) : Word :=
  (imm.extractLsb' 7 1 ++ 0#1 ++ imm.extractLsb' 0 6 ++ 0#1).signExtend 32

/-- C.LWSP: the two halves of `insn[6:2]` overlap differently. -/
def lwspOffset (imm : BitVec 6) : Word :=
  (imm.extractLsb' 1 2 ++ imm.extractLsb' 3 1 ++ imm.extractLsb' 0 1 ++ imm.extractLsb' 4 2 ++
    0#2).setWidth 32

/-- C.SWSP: part of the offset is read from the register field … -/
def swspOffset (r2 : Reg) (imm : BitVec 6) : Word :=
  (imm.extractLsb' 1 2 ++ r2.extractLsb' 3 2 ++ 0#4).setWidth 32

/-- … and the register from the offset field. -/
def swspReg (imm : BitVec 6) : Reg := imm.extractLsb' 0 3 ++ imm.extractLsb' 4 2

/-! ## Fields of the formats -/

theorem creg_eq (r : BitVec 3) : (r.setWidth 32 + 8#32).setWidth 5 = creg r := by
  revert r
  decide

theorem cregField_eq {x : Word} {k : ℕ} {r : BitVec 3}
    (h : ∀ i < 3, x.getLsbD (k + i) = r.getLsbD i) :
    (((x >>> k) &&& 0x7#32) + 8).setWidth 5 = creg r := by
  have hfield : (x >>> k) &&& 0x7#32 = r.setWidth 32 := field_eq rfl h
  rw [hfield]
  exact creg_eq r

@[simp] theorem clType_fields (f3 : BitVec 3) (offset : BitVec 7) (r1 r : BitVec 3) :
    (clType f3 offset r1 r).setWidth 32 &&& 0x3#32 = 0 ∧
    ((clType f3 offset r1 r).setWidth 32 >>> 13) &&& 0x7#32 = f3.setWidth 32 ∧
    rs1C ((clType f3 offset r1 r).setWidth 32) = creg r1 ∧
    rdC ((clType f3 offset r1 r).setWidth 32) = creg r := by
  refine ⟨lowField_eq (f := 0#2) rfl ?_, field_eq rfl ?_, cregField_eq ?_, cregField_eq ?_⟩ <;>
  · intro i hi
    simp only [clType, BitVec.getLsbD_setWidth, BitVec.getLsbD_append]
    interval_cases i <;> simp

@[simp] theorem offsetCL_clType (f3 : BitVec 3) (imm : BitVec 5) (r1 r : BitVec 3) :
    offsetCL ((clType f3 (imm ++ 0#2) r1 r).setWidth 32) = clOffset imm := by
  have hjoin : ∀ imm : BitVec 5, (imm.extractLsb' 1 3).setWidth 32 <<< 3 |||
      (imm.extractLsb' 0 1 ++ imm.extractLsb' 4 1).setWidth 32 <<< 1 = clOffset imm := by decide
  have hhigh : ((clType f3 (imm ++ 0#2) r1 r).setWidth 32 >>> 10) &&& 0x7#32 =
      (imm.extractLsb' 1 3).setWidth 32 := by
    refine field_eq rfl fun i hi => ?_
    simp only [clType, BitVec.getLsbD_setWidth, BitVec.getLsbD_append, BitVec.getLsbD_extractLsb']
    interval_cases i <;> simp
  have hlow : ((clType f3 (imm ++ 0#2) r1 r).setWidth 32 >>> 5) &&& 0x3#32 =
      (imm.extractLsb' 0 1 ++ imm.extractLsb' 4 1).setWidth 32 := by
    refine field_eq rfl fun i hi => ?_
    simp only [clType, BitVec.getLsbD_setWidth, BitVec.getLsbD_append, BitVec.getLsbD_extractLsb']
    interval_cases i <;> simp
  rw [offsetCL, hhigh, hlow, hjoin]

theorem imm6_eq {x : Word} {imm : BitVec 6}
    (hhigh : ∀ i < 1, x.getLsbD (12 + i) = (imm.extractLsb' 5 1).getLsbD i)
    (hlow : ∀ i < 5, x.getLsbD (2 + i) = (imm.extractLsb' 0 5).getLsbD i) :
    imm6 x = imm.setWidth 32 := by
  have hjoin : ∀ imm : BitVec 6, (imm.extractLsb' 5 1).setWidth 32 <<< 5 |||
      (imm.extractLsb' 0 5).setWidth 32 = imm.setWidth 32 := by decide
  have hsign : (x >>> 12) &&& 0x1#32 = _ := field_eq rfl hhigh
  have hrest : (x >>> 2) &&& 0x1f#32 = _ := field_eq rfl hlow
  rw [imm6, hsign, hrest, hjoin]

@[simp] theorem ciType_fields (f3 : BitVec 3) (imm : BitVec 6) (r : Reg) (q : BitVec 2) :
    (ciType f3 imm r q).setWidth 32 &&& 0x3#32 = q.setWidth 32 ∧
    ((ciType f3 imm r q).setWidth 32 >>> 13) &&& 0x7#32 = f3.setWidth 32 ∧
    rdCI ((ciType f3 imm r q).setWidth 32) = r ∧
    imm6 ((ciType f3 imm r q).setWidth 32) = imm.setWidth 32 := by
  refine ⟨lowField_eq rfl ?_, field_eq rfl ?_, regField_eq ?_, imm6_eq ?_ ?_⟩ <;>
  · intro i hi
    simp only [ciType, BitVec.getLsbD_setWidth, BitVec.getLsbD_append, BitVec.getLsbD_extractLsb']
    interval_cases i <;> simp

@[simp] theorem cjType_fields (f3 : BitVec 3) (offset : BitVec 12) :
    (cjType f3 offset).setWidth 32 &&& 0x3#32 = 1 ∧
    ((cjType f3 offset).setWidth 32 >>> 13) &&& 0x7#32 = f3.setWidth 32 := by
  refine ⟨lowField_eq (f := 1#2) rfl ?_, field_eq rfl ?_⟩ <;>
  · intro i hi
    simp only [cjType, BitVec.getLsbD_setWidth, BitVec.getLsbD_append]
    interval_cases i <;> simp

@[simp] theorem offsetCJ_cjType (f3 : BitVec 3) (imm : BitVec 11) :
    offsetCJ ((cjType f3 (imm ++ 0#1)).setWidth 32) = (imm ++ 0#1).signExtend 32 := by
  apply signExtend_eq (by decide)
  apply BitVec.eq_of_getLsbD_eq
  intro i hi
  simp only [cjType, BitVec.getLsbD_setWidth, BitVec.getLsbD_and, BitVec.getLsbD_or,
    BitVec.getLsbD_shiftLeft, BitVec.getLsbD_ushiftRight, BitVec.getLsbD_append,
    BitVec.getLsbD_extractLsb']
  interval_cases i <;> simp

@[simp] theorem cbType_fields (f3 : BitVec 3) (offset : BitVec 9) (r1 : BitVec 3) :
    (cbType f3 offset r1).setWidth 32 &&& 0x3#32 = 1 ∧
    ((cbType f3 offset r1).setWidth 32 >>> 13) &&& 0x7#32 = f3.setWidth 32 ∧
    rs1C ((cbType f3 offset r1).setWidth 32) = creg r1 := by
  refine ⟨lowField_eq (f := 1#2) rfl ?_, field_eq rfl ?_, cregField_eq ?_⟩ <;>
  · intro i hi
    simp only [cbType, BitVec.getLsbD_setWidth, BitVec.getLsbD_append]
    interval_cases i <;> simp

@[simp] theorem offsetCB_cbType (f3 : BitVec 3) (imm : BitVec 8) (r1 : BitVec 3) :
    offsetCB ((cbType f3 (imm ++ 0#1) r1).setWidth 32) = cbOffset imm := by
  apply signExtend_eq (by decide)
  apply BitVec.eq_of_getLsbD_eq
  intro i hi
  simp only [cbType, BitVec.getLsbD_setWidth, BitVec.getLsbD_and, BitVec.getLsbD_or,
    BitVec.getLsbD_shiftLeft, BitVec.getLsbD_ushiftRight, BitVec.getLsbD_append,
    BitVec.getLsbD_extractLsb']
  interval_cases i <;> simp

@[simp] theorem cbAluType_fields (imm : BitVec 6) (f2 : BitVec 2) (r : BitVec 3) :
    (cbAluType imm f2 r).setWidth 32 &&& 0x3#32 = 1 ∧
    ((cbAluType imm f2 r).setWidth 32 >>> 13) &&& 0x7#32 = 4 ∧
    ((cbAluType imm f2 r).setWidth 32 >>> 10) &&& 0x3#32 = f2.setWidth 32 ∧
    imm6 ((cbAluType imm f2 r).setWidth 32) = imm.setWidth 32 ∧
    rs1C ((cbAluType imm f2 r).setWidth 32) = creg r := by
  refine ⟨lowField_eq (f := 1#2) rfl ?_, field_eq (f := 4#3) rfl ?_, field_eq rfl ?_,
    imm6_eq ?_ ?_, cregField_eq ?_⟩ <;>
  · intro i hi
    simp only [cbAluType, BitVec.getLsbD_setWidth, BitVec.getLsbD_append,
      BitVec.getLsbD_extractLsb']
    interval_cases i <;> simp

@[simp] theorem caType_fields (f2 : BitVec 2) (r r2 : BitVec 3) :
    (caType f2 r r2).setWidth 32 &&& 0x3#32 = 1 ∧
    ((caType f2 r r2).setWidth 32 >>> 13) &&& 0x7#32 = 4 ∧
    ((caType f2 r r2).setWidth 32 >>> 10) &&& 0x3#32 = 3 ∧
    ((caType f2 r r2).setWidth 32 >>> 12) &&& 0x1#32 = 0 ∧
    ((caType f2 r r2).setWidth 32 >>> 5) &&& 0x3#32 = f2.setWidth 32 ∧
    rs1C ((caType f2 r r2).setWidth 32) = creg r ∧
    rdC ((caType f2 r r2).setWidth 32) = creg r2 := by
  refine ⟨lowField_eq (f := 1#2) rfl ?_, field_eq (f := 4#3) rfl ?_, field_eq (f := 3#2) rfl ?_,
    field_eq (f := 0#1) rfl ?_, field_eq rfl ?_, cregField_eq ?_, cregField_eq ?_⟩ <;>
  · intro i hi
    simp only [caType, BitVec.getLsbD_setWidth, BitVec.getLsbD_append]
    interval_cases i <;> simp

@[simp] theorem crType_fields (f4 : BitVec 4) (r r2 : Reg) :
    (crType f4 r r2).setWidth 32 &&& 0x3#32 = 2 ∧
    ((crType f4 r r2).setWidth 32 >>> 13) &&& 0x7#32 = (f4.extractLsb' 1 3).setWidth 32 ∧
    ((crType f4 r r2).setWidth 32 >>> 12) &&& 0xf#32 = f4.setWidth 32 ∧
    rdCI ((crType f4 r r2).setWidth 32) = r ∧ rs2CR ((crType f4 r r2).setWidth 32) = r2 := by
  refine ⟨lowField_eq (f := 2#2) rfl ?_, field_eq rfl ?_, field_eq rfl ?_, regField_eq ?_,
    regField_eq ?_⟩ <;>
  · intro i hi
    simp only [crType, BitVec.getLsbD_setWidth, BitVec.getLsbD_append,
      BitVec.getLsbD_extractLsb']
    interval_cases i <;> simp

@[simp] theorem ciwType_fields (imm : BitVec 10) (r : BitVec 3) :
    (ciwType imm r).setWidth 32 &&& 0x3#32 = 0 ∧
    ((ciwType imm r).setWidth 32 >>> 13) &&& 0x7#32 = 0 ∧
    rdC ((ciwType imm r).setWidth 32) = creg r := by
  refine ⟨lowField_eq (f := 0#2) rfl ?_, field_eq (f := 0#3) rfl ?_, cregField_eq ?_⟩ <;>
  · intro i hi
    simp only [ciwType, BitVec.getLsbD_setWidth, BitVec.getLsbD_append]
    interval_cases i <;> simp

@[simp] theorem nzuimmCIW_ciwType (imm : BitVec 8) (r : BitVec 3) :
    nzuimmCIW ((ciwType (imm ++ 0#2) r).setWidth 32) = (imm ++ 0#2).setWidth 32 := by
  have hjoin : ∀ imm : BitVec 8, (imm.extractLsb' 3 1).setWidth 32 <<< 5 |||
      (imm.extractLsb' 2 1).setWidth 32 <<< 4 ||| (imm.extractLsb' 7 1).setWidth 32 <<< 9 |||
      (imm.extractLsb' 6 1).setWidth 32 <<< 8 ||| (imm.extractLsb' 5 1).setWidth 32 <<< 7 |||
      (imm.extractLsb' 4 1).setWidth 32 <<< 6 ||| (imm.extractLsb' 0 1).setWidth 32 <<< 2 |||
      (imm.extractLsb' 1 1).setWidth 32 <<< 3 = (imm ++ 0#2).setWidth 32 := by decide +kernel
  obtain ⟨h₁₂, h₁₁, h₁₀, h₉, h₈, h₇, h₆, h₅⟩ :
      ((ciwType (imm ++ 0#2) r).setWidth 32).getLsbD 12 = imm.getLsbD 3 ∧
      ((ciwType (imm ++ 0#2) r).setWidth 32).getLsbD 11 = imm.getLsbD 2 ∧
      ((ciwType (imm ++ 0#2) r).setWidth 32).getLsbD 10 = imm.getLsbD 7 ∧
      ((ciwType (imm ++ 0#2) r).setWidth 32).getLsbD 9 = imm.getLsbD 6 ∧
      ((ciwType (imm ++ 0#2) r).setWidth 32).getLsbD 8 = imm.getLsbD 5 ∧
      ((ciwType (imm ++ 0#2) r).setWidth 32).getLsbD 7 = imm.getLsbD 4 ∧
      ((ciwType (imm ++ 0#2) r).setWidth 32).getLsbD 6 = imm.getLsbD 0 ∧
      ((ciwType (imm ++ 0#2) r).setWidth 32).getLsbD 5 = imm.getLsbD 1 := by
    refine ⟨?_, ?_, ?_, ?_, ?_, ?_, ?_, ?_⟩ <;>
    · simp only [ciwType, BitVec.getLsbD_setWidth, BitVec.getLsbD_append,
        BitVec.getLsbD_extractLsb']
      simp
  rw [nzuimmCIW, bitField_eq h₁₂, bitField_eq h₁₁, bitField_eq h₁₀, bitField_eq h₉,
    bitField_eq h₈, bitField_eq h₇, bitField_eq h₆, bitField_eq h₅, hjoin]

@[simp] theorem ci16spType_fields (imm : BitVec 6) :
    (ci16spType (imm ++ 0#4)).setWidth 32 &&& 0x3#32 = 1 ∧
    ((ci16spType (imm ++ 0#4)).setWidth 32 >>> 13) &&& 0x7#32 = 3 ∧
    rdCI ((ci16spType (imm ++ 0#4)).setWidth 32) = 2 := by
  refine ⟨lowField_eq (f := 1#2) rfl ?_, field_eq (f := 3#3) rfl ?_, regField_eq ?_⟩ <;>
  · intro i hi
    simp only [ci16spType, BitVec.getLsbD_setWidth, BitVec.getLsbD_append]
    interval_cases i <;> simp

@[simp] theorem immAddi16sp_ci16spType (imm : BitVec 6) :
    immAddi16sp ((ci16spType (imm ++ 0#4)).setWidth 32) = addi16spImm imm := by
  apply signExtend_eq (by decide)
  apply BitVec.eq_of_getLsbD_eq
  intro i hi
  simp only [ci16spType, BitVec.getLsbD_setWidth, BitVec.getLsbD_and, BitVec.getLsbD_or,
    BitVec.getLsbD_shiftLeft, BitVec.getLsbD_ushiftRight, BitVec.getLsbD_append,
    BitVec.getLsbD_extractLsb']
  interval_cases i <;> simp

@[simp] theorem ciLwspType_fields (imm : BitVec 6) (r : Reg) :
    (ciLwspType (imm ++ 0#2) r).setWidth 32 &&& 0x3#32 = 2 ∧
    ((ciLwspType (imm ++ 0#2) r).setWidth 32 >>> 13) &&& 0x7#32 = 2 ∧
    rdCI ((ciLwspType (imm ++ 0#2) r).setWidth 32) = r ∧
    offsetLwsp ((ciLwspType (imm ++ 0#2) r).setWidth 32) = lwspOffset imm := by
  have hoffset : offsetLwsp ((ciLwspType (imm ++ 0#2) r).setWidth 32) = lwspOffset imm := by
    have hjoin : ∀ imm : BitVec 6, (imm.extractLsb' 1 2).setWidth 32 <<< 6 |||
        (imm.extractLsb' 3 1).setWidth 32 <<< 5 |||
        (imm.extractLsb' 0 1 ++ imm.extractLsb' 4 2).setWidth 32 <<< 2 = lwspOffset imm := by
      decide
    have hpieces :
        ((ciLwspType (imm ++ 0#2) r).setWidth 32 >>> 5) &&& 0x3#32 =
          (imm.extractLsb' 1 2).setWidth 32 ∧
        ((ciLwspType (imm ++ 0#2) r).setWidth 32 >>> 12) &&& 0x1#32 =
          (imm.extractLsb' 3 1).setWidth 32 ∧
        ((ciLwspType (imm ++ 0#2) r).setWidth 32 >>> 2) &&& 0x7#32 =
          (imm.extractLsb' 0 1 ++ imm.extractLsb' 4 2).setWidth 32 := by
      refine ⟨field_eq rfl ?_, field_eq rfl ?_, field_eq rfl ?_⟩ <;>
      · intro i hi
        simp only [ciLwspType, BitVec.getLsbD_setWidth, BitVec.getLsbD_append,
          BitVec.getLsbD_extractLsb']
        interval_cases i <;> simp
    rw [offsetLwsp, hpieces.1, hpieces.2.1, hpieces.2.2, hjoin]
  refine ⟨lowField_eq (f := 2#2) rfl ?_, field_eq (f := 2#3) rfl ?_, regField_eq ?_, hoffset⟩ <;>
  · intro i hi
    simp only [ciLwspType, BitVec.getLsbD_setWidth, BitVec.getLsbD_append]
    interval_cases i <;> simp

@[simp] theorem cssType_fields (imm : BitVec 6) (r2 : Reg) :
    (cssType (imm ++ 0#2) r2).setWidth 32 &&& 0x3#32 = 2 ∧
    ((cssType (imm ++ 0#2) r2).setWidth 32 >>> 13) &&& 0x7#32 = 6 ∧
    rs2Swsp ((cssType (imm ++ 0#2) r2).setWidth 32) = swspReg imm ∧
    offsetSwsp ((cssType (imm ++ 0#2) r2).setWidth 32) = swspOffset r2 imm := by
  have hoffset : offsetSwsp ((cssType (imm ++ 0#2) r2).setWidth 32) = swspOffset r2 imm := by
    have hjoin : ∀ a b : BitVec 2,
        a.setWidth 32 <<< 6 ||| b.setWidth 32 <<< 4 = (a ++ b ++ 0#4).setWidth 32 := by decide
    have hpieces :
        ((cssType (imm ++ 0#2) r2).setWidth 32 >>> 10) &&& 0x3#32 =
          (imm.extractLsb' 1 2).setWidth 32 ∧
        ((cssType (imm ++ 0#2) r2).setWidth 32 >>> 5) &&& 0x3#32 =
          (r2.extractLsb' 3 2).setWidth 32 := by
      refine ⟨field_eq rfl ?_, field_eq rfl ?_⟩ <;>
      · intro i hi
        simp only [cssType, BitVec.getLsbD_setWidth, BitVec.getLsbD_append,
          BitVec.getLsbD_extractLsb']
        interval_cases i <;> simp
    rw [offsetSwsp, hpieces.1, hpieces.2, hjoin, swspOffset]
  refine ⟨lowField_eq (f := 2#2) rfl ?_, field_eq (f := 6#3) rfl ?_, regField_eq ?_, hoffset⟩ <;>
  · intro i hi
    simp only [cssType, swspReg, BitVec.getLsbD_setWidth, BitVec.getLsbD_append,
      BitVec.getLsbD_extractLsb']
    interval_cases i <;> simp

/-! ## The decoder -/

def cArmOf (regs : Reg → Word) (pc : Word) : CInstr → Arm
  | .addi4spn rd' imm => .writeReg (creg rd') (regs 2 + (imm ++ 0#2).setWidth 32)
  | .lw rd' rs1' imm => .load .lw (creg rd') (regs (creg rs1') + clOffset imm)
  | .sw rs2' rs1' imm => .store .sw (creg rs2') (regs (creg rs1') + clOffset imm)
  | .addi rd imm => if rd = 0 then .skip else .writeReg rd (regs rd + imm.signExtend 32)
  | .jal imm => .link 1 (pc + 2) (pc + (imm ++ 0#1).signExtend 32)
  | .li rd imm => .writeReg rd (imm.signExtend 32)
  | .addi16sp imm => .writeReg 2 (regs 2 + addi16spImm imm)
  | .lui rd imm => if rd = 0 then .skip else .writeReg rd (imm.signExtend 32 <<< 12)
  | .srli rd' shamt =>
    if shamt = 0 then .skip else .writeReg (creg rd') (regs (creg rd') >>> shamt.toNat)
  | .srai rd' shamt =>
    if shamt = 0 then .skip
    else .writeReg (creg rd') ((regs (creg rd')).sshiftRight shamt.toNat)
  | .andi rd' imm => .writeReg (creg rd') (regs (creg rd') &&& imm.signExtend 32)
  | .sub rd' rs2' => .writeReg (creg rd') (regs (creg rd') - regs (creg rs2'))
  | .xor rd' rs2' => .writeReg (creg rd') (regs (creg rd') ^^^ regs (creg rs2'))
  | .or rd' rs2' => .writeReg (creg rd') (regs (creg rd') ||| regs (creg rs2'))
  | .and rd' rs2' => .writeReg (creg rd') (regs (creg rd') &&& regs (creg rs2'))
  | .j imm => .setPc (pc + (imm ++ 0#1).signExtend 32)
  | .beqz rs1' imm => if regs (creg rs1') = 0 then .setPc (pc + cbOffset imm) else .skip
  | .bnez rs1' imm => if regs (creg rs1') ≠ 0 then .setPc (pc + cbOffset imm) else .skip
  | .slli rd shamt => if shamt = 0 then .skip else .writeReg rd (regs rd <<< shamt.toNat)
  | .lwsp rd imm => .load .lw rd (regs 2 + lwspOffset imm)
  | .jr rs1 => .setPc (regs rs1)
  | .mv rd rs2 => .writeReg rd (regs rs2)
  | .jalr rs1 => .link 1 (pc + 2) (writeReg 1 (pc + 2) regs rs1)
  | .add rd rs2 => .writeReg rd (regs rd + regs rs2)
  | .swsp rs2 imm => .store .sw (swspReg imm) (regs 2 + swspOffset rs2 imm)

/-- A shift amount below 32 survives the promotion, and is zero only if it was. -/
theorem shamt_setWidth (shamt : BitVec 5) :
    ((0#1 ++ shamt).setWidth 32 = 0#32 ↔ shamt = 0) ∧
      (0#1 ++ shamt).toNat % 4294967296 = shamt.toNat := by
  revert shamt
  decide

theorem signExtend_imm6 (imm : BitVec 6) : signExtend (imm.setWidth 32) 6 = imm.signExtend 32 :=
  signExtend_eq (by decide) (by simp)

theorem nzimm_ne_zero :
    (∀ imm : BitVec 8, imm ≠ 0 → (imm ++ 0#2).setWidth 32 ≠ 0#32) ∧
      ∀ imm : BitVec 6, imm ≠ 0 → imm.signExtend 32 <<< 12 ≠ 0#32 := by
  constructor
  · intro imm hne h0
    have hpos : imm.toNat ≠ 0 := fun h => hne (BitVec.eq_of_toNat_eq h)
    have hlt := imm.isLt
    have hval : ((imm ++ 0#2).setWidth 32).toNat = 0 := congrArg BitVec.toNat h0
    rw [BitVec.toNat_setWidth, BitVec.toNat_append, Nat.shiftLeft_eq] at hval
    simp at hval
    omega
  · intro imm hne h0
    -- bit k of the immediate is bit k + 12 of the value
    refine hne (BitVec.eq_of_getLsbD_eq fun k hk => ?_)
    have hbit : ((imm.signExtend 32) <<< 12).getLsbD (k + 12) = false := by
      rw [h0, BitVec.getLsbD_zero]
    rw [BitVec.getLsbD_shiftLeft, BitVec.getLsbD_signExtend, Nat.add_sub_cancel, if_pos hk] at hbit
    have hk32 : k < 32 ∧ k + 12 < 32 := by omega
    simpa [hk32] using hbit

theorem decodeCompressed_encode (regs : Reg → Word) (pc : Word) {c : CInstr} (h : c.Legal) :
    decodeCompressed c.encode regs pc = cArmOf regs pc c := by
  cases c with
  | addi4spn rd' imm =>
    simp [decodeCompressed, decodeQuadrant0, CInstr.encode, cArmOf, nzimm_ne_zero.1 imm h]
  | lw | sw => simp [decodeCompressed, decodeQuadrant0, CInstr.encode, cArmOf]
  | addi | li =>
    simp [decodeCompressed, decodeQuadrant1, CInstr.encode, cArmOf, signExtend_imm6]
  | lui rd imm =>
    have h2 : ¬ rd = 2#5 := h.1
    simp [decodeCompressed, decodeQuadrant1, CInstr.encode, cArmOf, signExtend_imm6, h2,
      nzimm_ne_zero.2 imm h.2]
  | srli rd' shamt =>
    simp [decodeCompressed, decodeQuadrant1, decodeQuadrant1Alu, CInstr.encode, cArmOf,
      shamt_setWidth, BitVec.ushiftRight_eq']
  | srai rd' shamt =>
    simp [decodeCompressed, decodeQuadrant1, decodeQuadrant1Alu, CInstr.encode, cArmOf,
      shamt_setWidth, BitVec.sshiftRight']
  | andi rd' imm =>
    simp [decodeCompressed, decodeQuadrant1, decodeQuadrant1Alu, CInstr.encode, cArmOf,
      signExtend_imm6]
  | sub | xor | or | and =>
    simp [decodeCompressed, decodeQuadrant1, decodeQuadrant1Alu, CInstr.encode, cArmOf]
  | jal | addi16sp | j | beqz | bnez =>
    simp [decodeCompressed, decodeQuadrant1, CInstr.encode, cArmOf]
  | slli rd shamt =>
    simp [decodeCompressed, decodeQuadrant2, CInstr.encode, cArmOf, shamt_setWidth,
      BitVec.shiftLeft_eq']
  | jr rs1 =>
    have h1 : ¬ rs1 = 0#5 := h
    simp [decodeCompressed, decodeQuadrant2, CInstr.encode, cArmOf, h1]
  | mv rd rs2 =>
    have h2 : ¬ rs2 = 0#5 := h
    simp [decodeCompressed, decodeQuadrant2, CInstr.encode, cArmOf, h2]
  | jalr rs1 =>
    have h1 : ¬ rs1 = 0#5 := h
    simp [decodeCompressed, decodeQuadrant2, CInstr.encode, cArmOf, h1]
  | add rd rs2 =>
    have h2 : ¬ rs2 = 0#5 := h
    simp [decodeCompressed, decodeQuadrant2, CInstr.encode, cArmOf, h2]
  | lwsp | swsp => simp [decodeCompressed, decodeQuadrant2, CInstr.encode, cArmOf]

end Herve
