import Herve.Guest.Program

/-! How the C++ testbenches write their programs: the encoders they have in common, and the words
put into RAM before the reset. -/

namespace Herve
open RiscV (Byte Word Reg Instr)

/-! ## The encoders -/

/-- The form of `make_addi` and `make_lw`, which differ in `funct3` and the opcode. -/
def makeI (funct3 opcode : Word) (rd rs1 imm : Word) : Word :=
  ((imm &&& 0xfff#32) <<< 20) ||| (rs1 <<< 15) ||| (funct3 <<< 12) ||| (rd <<< 7) ||| opcode

def makeAddi (rd rs1 imm : Word) : Word := makeI 0 0x13#32 rd rs1 imm

def makeLw (rd rs1 imm : Word) : Word := makeI 2 0x03#32 rd rs1 imm

def makeLui (rd imm20 : Word) : Word := (imm20 <<< 12) ||| (rd <<< 7) ||| 0x37#32

def makeSw (rs2 rs1 imm : Word) : Word :=
  let imm11_5 := (imm >>> 5) &&& 0x7f#32
  let imm4_0 := imm &&& 0x1f#32
  (imm11_5 <<< 25) ||| (rs2 <<< 20) ||| (rs1 <<< 15) ||| (2#32 <<< 12) ||| (imm4_0 <<< 7) |||
    0x23#32

def makeEbreak : Word := 0x00100073#32

/-- The two instructions that `load_imm` writes. -/
def loadImm (rd value : Word) : List Word :=
  let upper := value >>> 12
  let lower := value &&& 0xfff#32
  if lower &&& 0x800#32 ≠ 0 then
    let lower := ((lower ||| 0xfffff000#32).setWidth 16).signExtend 32
    [makeLui rd (upper + 1#32), makeAddi rd rd lower]
  else [makeLui rd upper, makeAddi rd rd lower]

/-- `make_csrw` and `make_csrs`, which differ in `funct3`. -/
def makeCsr (funct3 csrAddr rs1 : Word) : Word :=
  (csrAddr <<< 20) ||| (rs1 <<< 15) ||| (funct3 <<< 12) ||| (0#32 <<< 7) ||| 0x73#32

def makeCsrw (csrAddr rs1 : Word) : Word := makeCsr 1 csrAddr rs1

def makeCsrs (csrAddr rs1 : Word) : Word := makeCsr 2 csrAddr rs1

def makeMret : Word := 0x30200073#32

def makeJal (rd offset : Word) : Word :=
  let imm := offset &&& 0x1fffff#32
  (((imm >>> 20) &&& 0x1#32) <<< 31) ||| (((imm >>> 1) &&& 0x3ff#32) <<< 21) |||
    (((imm >>> 11) &&& 0xff#32) <<< 12) ||| (((imm >>> 19) &&& 0x1#32) <<< 20) ||| (rd <<< 7) |||
    0x6f#32

theorem makeI_eq (f3 : BitVec 3) (op : BitVec 7) (rd rs1 : Reg) (imm : Word) :
    makeI (f3.setWidth 32) (op.setWidth 32) (rd.setWidth 32) (rs1.setWidth 32) imm =
      RiscV.iType (imm.setWidth 12) rs1 f3 rd op := by
  apply BitVec.eq_of_getLsbD_eq
  intro i hi
  simp only [makeI, RiscV.iType, BitVec.getLsbD_or, BitVec.getLsbD_and,
    BitVec.getLsbD_shiftLeft, BitVec.getLsbD_setWidth, BitVec.getLsbD_append]
  interval_cases i <;> simp

theorem makeLui_eq (rd : Reg) (imm20 : Word) :
    makeLui (rd.setWidth 32) imm20 = (Instr.lui rd (imm20.setWidth 20)).encode := by
  apply BitVec.eq_of_getLsbD_eq
  intro i hi
  simp only [makeLui, Instr.encode, RiscV.uType, BitVec.getLsbD_or,
    BitVec.getLsbD_shiftLeft, BitVec.getLsbD_setWidth, BitVec.getLsbD_append]
  interval_cases i <;> simp

theorem makeSw_eq (rs2 rs1 : Reg) (imm : Word) :
    makeSw (rs2.setWidth 32) (rs1.setWidth 32) imm =
      (Instr.store .sw rs2 rs1 (imm.setWidth 12)).encode := by
  apply BitVec.eq_of_getLsbD_eq
  intro i hi
  simp only [makeSw, Instr.encode, RiscV.sType, RiscV.Store.funct3, BitVec.getLsbD_or,
    BitVec.getLsbD_and, BitVec.getLsbD_ushiftRight, BitVec.getLsbD_extractLsb',
    BitVec.getLsbD_shiftLeft, BitVec.getLsbD_setWidth, BitVec.getLsbD_append]
  interval_cases i <;> simp

theorem makeAddi_eq (rd rs1 : Reg) (imm : Word) :
    makeAddi (rd.setWidth 32) (rs1.setWidth 32) imm =
      (Instr.opImm .addi rd rs1 (imm.setWidth 12)).encode := makeI_eq 0 0x13 rd rs1 imm

theorem makeLw_eq (rd rs1 : Reg) (imm : Word) :
    makeLw (rd.setWidth 32) (rs1.setWidth 32) imm =
      (Instr.load .lw rd rs1 (imm.setWidth 12)).encode := makeI_eq 2 0x03 rd rs1 imm

theorem makeCsr_eq (op : RiscV.CsrOp) (csr : BitVec 12) (rs1 : Reg) :
    makeCsr (op.funct2.setWidth 32) (csr.setWidth 32) (rs1.setWidth 32) =
      (RiscV.CsrInstr.mk op false 0 rs1 csr).encode := by
  apply BitVec.eq_of_getLsbD_eq
  intro i hi
  simp only [makeCsr, RiscV.CsrInstr.encode, RiscV.iType, BitVec.getLsbD_or,
    BitVec.getLsbD_shiftLeft, BitVec.getLsbD_setWidth, BitVec.getLsbD_append]
  interval_cases i <;> simp

/-- Bit 11 of the offset and the eight above it stand one place off. -/
theorem makeJal_eq_iff (rd : Reg) (offset : BitVec 20) :
    makeJal (rd.setWidth 32) ((offset ++ 0#1).signExtend 32) = (Instr.jal rd offset).encode ↔
      ∀ i, 10 ≤ i → i < 18 → offset.getLsbD i = offset.getLsbD (i + 1) := by
  have hmake : ∀ i < 32, (makeJal (rd.setWidth 32) ((offset ++ 0#1).signExtend 32)).getLsbD i =
      if 12 ≤ i ∧ i < 20 then offset.getLsbD (i - 2)
      else if i = 20 then offset.getLsbD 18 else (Instr.jal rd offset).encode.getLsbD i := by
    intro i hi
    simp only [makeJal, Instr.encode, RiscV.jType, BitVec.getLsbD_or, BitVec.getLsbD_and,
      BitVec.getLsbD_shiftLeft, BitVec.getLsbD_ushiftRight, BitVec.getLsbD_setWidth,
      BitVec.getLsbD_append, BitVec.getLsbD_extractLsb', BitVec.getLsbD_signExtend]
    interval_cases i <;> simp
  have hencode : ∀ i < 32, 12 ≤ i → i ≤ 20 → (Instr.jal rd offset).encode.getLsbD i =
      offset.getLsbD (if i = 20 then 10 else i - 1) := by
    intro i hi hlo hhi
    simp only [Instr.encode, RiscV.jType, BitVec.getLsbD_append, BitVec.getLsbD_extractLsb']
    interval_cases i <;> simp
  constructor
  · intro heq i hlo hhi
    have hleft := hmake (i + 2) (by omega)
    have hright := hencode (i + 2) (by omega) (by omega) (by omega)
    rw [heq, hright, if_neg (by omega), if_pos (by omega)] at hleft
    exact hleft.symm
  · intro hsame
    refine BitVec.eq_of_getLsbD_eq fun i hi => ?_
    rw [hmake i hi]
    split_ifs with hfield h20
    · rw [hencode i hi hfield.1 hfield.2.le, if_neg (by omega), hsame (i - 2) (by omega) (by omega)]
      exact congrArg offset.getLsbD (by omega)
    · rw [h20, hencode 20 (by decide) (by decide) le_rfl, if_pos rfl]
      -- from bit 10 up to bit 18, one place at a time
      have hchain : ∀ k ≤ 8, offset.getLsbD 10 = offset.getLsbD (10 + k) := by
        intro k hk
        induction k with
        | zero => rfl
        | succ k ih => exact (ih (by omega)).trans (hsame (10 + k) (by omega) (by omega))
      exact (hchain 8 le_rfl).symm
    · rfl

/-- The two immediates add up to the value, the upper one taking the sign of the lower one back. -/
theorem upper_add_lower (value : Word) :
    ((value >>> 12 + if value.getLsbD 11 then 1#32 else 0#32).setWidth 20 ++ 0#12) +
      (value.setWidth 12).signExtend 32 = value := by
  have hmsb : (value.setWidth 12).msb = value.getLsbD 11 := by
    rw [BitVec.msb_setWidth]
    rfl
  have hlow := BitVec.msb_eq_decide (value.setWidth 12)
  have hshift : (value >>> 12).toNat = value.toNat / 2 ^ 12 := by
    rw [BitVec.toNat_ushiftRight, Nat.shiftRight_eq_div_pow]
  have hlt := value.isLt
  rw [hmsb, BitVec.toNat_setWidth] at hlow
  apply BitVec.eq_of_toNat_eq
  rw [BitVec.toNat_add, BitVec.toNat_append, BitVec.toNat_signExtend, hmsb, BitVec.toNat_setWidth,
    BitVec.toNat_setWidth, BitVec.toNat_add, BitVec.toNat_setWidth, hshift, BitVec.toNat_ofNat,
    Nat.zero_mod, Nat.or_zero, Nat.shiftLeft_eq]
  cases h : value.getLsbD 11 with
  | false =>
    rw [h] at hlow
    have hsmall := of_decide_eq_false hlow.symm
    simp only [Bool.false_eq_true, if_false, Nat.add_zero, BitVec.toNat_ofNat]
    omega
  | true =>
    rw [h] at hlow
    have hlarge := of_decide_eq_true hlow.symm
    simp only [if_true, BitVec.toNat_ofNat]
    omega

/-- `load_imm` comes to LUI and ADDI with these immediates. -/
theorem loadImm_eq (rd : Reg) (value : Word) :
    loadImm (rd.setWidth 32) value =
      [(Instr.lui rd ((value >>> 12 + if value.getLsbD 11 then 1#32 else 0#32).setWidth 20)).encode,
        (Instr.opImm .addi rd rd (value.setWidth 12)).encode] := by
  have hbit : value &&& 0xfff#32 &&& 0x800#32 ≠ 0 ↔ value.getLsbD 11 = true := by
    have hmask : value &&& 0xfff#32 &&& 0x800#32 = value &&& BitVec.twoPow 32 11 := by
      rw [BitVec.and_assoc]
      rfl
    rw [hmask]
    exact RiscV.and_twoPow_ne_zero value (by decide)
  have hlower : (((value &&& 0xfff#32 ||| 0xfffff000#32).setWidth 16).signExtend 32).setWidth 12 =
      value.setWidth 12 := by
    apply BitVec.eq_of_getLsbD_eq
    intro i hi
    rw [BitVec.getLsbD_setWidth, BitVec.getLsbD_signExtend]
    interval_cases i <;> simp
  have hplain : (value &&& 0xfff#32).setWidth 12 = value.setWidth 12 := by
    apply BitVec.eq_of_getLsbD_eq
    intro i hi
    interval_cases i <;> simp
  unfold loadImm
  dsimp only
  rw [makeLui_eq, makeLui_eq, makeAddi_eq, makeAddi_eq, hlower, hplain]
  cases h : value.getLsbD 11 with
  | false =>
    rw [if_neg fun hne => ne_true_of_eq_false h (hbit.1 hne)]
    simp only [Bool.false_eq_true, if_false, BitVec.add_zero]
  | true =>
    rw [if_pos (hbit.2 h)]
    rfl

/-! ## The program in RAM -/

/-- `rv_init(NULL, 1 << 20)`, the program written into RAM, and `rv_reset(0)`. -/
def programStart {δ : Type} (program : List Word) (block : ℕ → Byte) (s : State δ) : State δ :=
  let s := rvInit none (1 <<< 20) (some block) s
  rvReset 0 { s with memory := copyBytes 0 (programBytes program) s.memory }

theorem programStart_runsProgram {δ : Type} {program : List Word}
    (hlength : 4 * program.length ≤ 1 <<< 20) (block : ℕ → Byte) {s : State δ}
    (hrunning : s.htifHalted = false) : (programStart program block s).RunsProgram program := by
  have hsize : (programStart program block s).memorySize = BitVec.ofNat 32 (1 <<< 20) := rfl
  refine ⟨rfl, hrunning, rfl, ?_, ?_, fun k hk => ?_⟩
  · rw [hsize]
    exact hlength
  · rw [hsize]
    decide
  · have hcopy : k < 0 + (programBytes program).length := by
      rw [programBytes_length]
      omega
    exact if_pos ⟨Nat.zero_le k, hcopy⟩

end Herve
