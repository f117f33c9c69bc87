import Herve.RiscV.Rv32i
import Herve.Iss.Arm

/-! What the decoder's shifts and masks cut out of an encoded instruction: for each
format, its fields and its immediate. All of it is bit by bit. -/

namespace Herve
open RiscV

/-- The shift pair of the source is sign extension from the low `n` bits. -/
theorem signExtend_eq {n : ℕ} (hn : n ≤ 32) {v : Word} {imm : BitVec n}
    (h : v.setWidth n = imm) : signExtend v n = imm.signExtend 32 := by
  subst h
  apply BitVec.eq_of_getLsbD_eq
  intro i hi
  simp only [signExtend, BitVec.getLsbD_sshiftRight, BitVec.getLsbD_signExtend,
    BitVec.msb_eq_getLsbD_last, BitVec.getLsbD_shiftLeft, BitVec.getLsbD_setWidth]
  rcases n with _ | n
  · simp [hi]
  · grind

/-! ## Fields -/

/-- A field that a shift and a mask cut out: only its own bits are to be checked. -/
theorem field_eq {x mask : Word} {k n : ℕ} {f : BitVec n}
    (hmask : mask = (BitVec.allOnes n).setWidth 32)
    (h : ∀ i < n, x.getLsbD (k + i) = f.getLsbD i) : (x >>> k) &&& mask = f.setWidth 32 := by
  rw [hmask]
  apply BitVec.eq_of_getLsbD_eq
  intro i hi
  rw [BitVec.getLsbD_and, BitVec.getLsbD_ushiftRight, BitVec.getLsbD_setWidth,
    BitVec.getLsbD_setWidth, BitVec.getLsbD_allOnes]
  by_cases hin : i < n
  · simp [hi, hin, h i hin]
  · simp [hin, BitVec.getLsbD_of_ge f i (not_lt.1 hin)]

theorem lowField_eq {x mask : Word} {n : ℕ} {f : BitVec n}
    (hmask : mask = (BitVec.allOnes n).setWidth 32)
    (h : ∀ i < n, x.getLsbD i = f.getLsbD i) : x &&& mask = f.setWidth 32 := by
  have hfield := field_eq (x := x) (k := 0) hmask fun i hi => by rw [zero_add]; exact h i hi
  rwa [BitVec.ushiftRight_zero] at hfield

theorem regField_eq {x : Word} {k : ℕ} {r : Reg}
    (h : ∀ i < 5, x.getLsbD (k + i) = r.getLsbD i) :
    ((x >>> k) &&& 0x1f#32).setWidth 5 = r := by
  have hfield : (x >>> k) &&& 0x1f#32 = r.setWidth 32 := field_eq rfl h
  rw [hfield]
  exact BitVec.setWidth_setWidth_of_le r (by decide)

theorem bitField_eq {x : Word} {k j n : ℕ} {f : BitVec n} (h : x.getLsbD k = f.getLsbD j) :
    (x >>> k) &&& 0x1#32 = (f.extractLsb' j 1).setWidth 32 := by
  refine field_eq rfl fun i hi => ?_
  obtain rfl := Nat.lt_one_iff.1 hi
  simpa using h

@[simp] theorem rType_fields (f7 : BitVec 7) (r2 r1 : Reg) (f3 : BitVec 3) (r : Reg)
    (op : BitVec 7) :
    opcode (rType f7 r2 r1 f3 r op) = op.setWidth 32 ∧ rd (rType f7 r2 r1 f3 r op) = r ∧
    funct3 (rType f7 r2 r1 f3 r op) = f3.setWidth 32 ∧ rs1 (rType f7 r2 r1 f3 r op) = r1 ∧
    rs2 (rType f7 r2 r1 f3 r op) = r2 ∧ funct7 (rType f7 r2 r1 f3 r op) = f7.setWidth 32 := by
  refine ⟨lowField_eq rfl ?_, regField_eq ?_, field_eq rfl ?_, regField_eq ?_,
    regField_eq ?_, field_eq rfl ?_⟩ <;>
  · intro i hi
    simp only [rType, BitVec.getLsbD_append]
    interval_cases i <;> simp

@[simp] theorem iType_fields (imm : BitVec 12) (r1 : Reg) (f3 : BitVec 3) (r : Reg)
    (op : BitVec 7) :
    opcode (iType imm r1 f3 r op) = op.setWidth 32 ∧ rd (iType imm r1 f3 r op) = r ∧
    funct3 (iType imm r1 f3 r op) = f3.setWidth 32 ∧ rs1 (iType imm r1 f3 r op) = r1 := by
  refine ⟨lowField_eq rfl ?_, regField_eq ?_, field_eq rfl ?_, regField_eq ?_⟩ <;>
  · intro i hi
    simp only [iType, BitVec.getLsbD_append]
    interval_cases i <;> simp

@[simp] theorem sType_fields (imm : BitVec 12) (r2 r1 : Reg) (f3 : BitVec 3) (op : BitVec 7) :
    opcode (sType imm r2 r1 f3 op) = op.setWidth 32 ∧
    funct3 (sType imm r2 r1 f3 op) = f3.setWidth 32 ∧ rs1 (sType imm r2 r1 f3 op) = r1 ∧
    rs2 (sType imm r2 r1 f3 op) = r2 := by
  refine ⟨lowField_eq rfl ?_, field_eq rfl ?_, regField_eq ?_, regField_eq ?_⟩ <;>
  · intro i hi
    simp only [sType, BitVec.getLsbD_append]
    interval_cases i <;> simp

@[simp] theorem bType_fields (offset : BitVec 13) (r2 r1 : Reg) (f3 : BitVec 3)
    (op : BitVec 7) :
    opcode (bType offset r2 r1 f3 op) = op.setWidth 32 ∧
    funct3 (bType offset r2 r1 f3 op) = f3.setWidth 32 ∧ rs1 (bType offset r2 r1 f3 op) = r1 ∧
    rs2 (bType offset r2 r1 f3 op) = r2 := by
  refine ⟨lowField_eq rfl ?_, field_eq rfl ?_, regField_eq ?_, regField_eq ?_⟩ <;>
  · intro i hi
    simp only [bType, BitVec.getLsbD_append]
    interval_cases i <;> simp

@[simp] theorem uType_fields (imm : BitVec 20) (r : Reg) (op : BitVec 7) :
    opcode (uType imm r op) = op.setWidth 32 ∧ rd (uType imm r op) = r := by
  refine ⟨lowField_eq rfl ?_, regField_eq ?_⟩ <;>
  · intro i hi
    simp only [uType, BitVec.getLsbD_append]
    interval_cases i <;> simp

@[simp] theorem jType_fields (offset : BitVec 21) (r : Reg) (op : BitVec 7) :
    opcode (jType offset r op) = op.setWidth 32 ∧ rd (jType offset r op) = r := by
  refine ⟨lowField_eq rfl ?_, regField_eq ?_⟩ <;>
  · intro i hi
    simp only [jType, BitVec.getLsbD_append]
    interval_cases i <;> simp

/-! ## Immediates -/

@[simp] theorem immI_iType (imm : BitVec 12) (r1 : Reg) (f3 : BitVec 3) (r : Reg)
    (op : BitVec 7) : immI (iType imm r1 f3 r op) = imm.signExtend 32 := by
  apply signExtend_eq (by decide)
  apply BitVec.eq_of_getLsbD_eq
  intro i hi
  simp only [iType, BitVec.getLsbD_setWidth, BitVec.getLsbD_ushiftRight, BitVec.getLsbD_append]
  interval_cases i <;> simp

@[simp] theorem immS_sType (imm : BitVec 12) (r2 r1 : Reg) (f3 : BitVec 3) (op : BitVec 7) :
    immS (sType imm r2 r1 f3 op) = imm.signExtend 32 := by
  apply signExtend_eq (by decide)
  apply BitVec.eq_of_getLsbD_eq
  intro i hi
  simp only [sType, BitVec.getLsbD_setWidth, BitVec.getLsbD_and, BitVec.getLsbD_or,
    BitVec.getLsbD_shiftLeft, BitVec.getLsbD_ushiftRight, BitVec.getLsbD_append,
    BitVec.getLsbD_extractLsb']
  interval_cases i <;> simp

@[simp] theorem immB_bType (imm : BitVec 12) (r2 r1 : Reg) (f3 : BitVec 3) (op : BitVec 7) :
    immB (bType (imm ++ 0#1) r2 r1 f3 op) = (imm ++ 0#1).signExtend 32 := by
  apply signExtend_eq (by decide)
  apply BitVec.eq_of_getLsbD_eq
  intro i hi
  simp only [bType, BitVec.getLsbD_setWidth, BitVec.getLsbD_and, BitVec.getLsbD_or,
    BitVec.getLsbD_shiftLeft, BitVec.getLsbD_ushiftRight, BitVec.getLsbD_append,
    BitVec.getLsbD_extractLsb']
  interval_cases i <;> simp

@[simp] theorem immJ_jType (imm : BitVec 20) (r : Reg) (op : BitVec 7) :
    immJ (jType (imm ++ 0#1) r op) = (imm ++ 0#1).signExtend 32 := by
  apply signExtend_eq (by decide)
  apply BitVec.eq_of_getLsbD_eq
  intro i hi
  simp only [jType, BitVec.getLsbD_setWidth, BitVec.getLsbD_and, BitVec.getLsbD_or,
    BitVec.getLsbD_shiftLeft, BitVec.getLsbD_ushiftRight, BitVec.getLsbD_append,
    BitVec.getLsbD_extractLsb']
  interval_cases i <;> simp

@[simp] theorem upper_uType (imm : BitVec 20) (r : Reg) (op : BitVec 7) :
    uType imm r op &&& 0xfffff000#32 = imm ++ 0#12 := by
  apply BitVec.eq_of_getLsbD_eq
  intro i hi
  simp only [uType, BitVec.getLsbD_and, BitVec.getLsbD_append]
  interval_cases i <;> simp

/-- A shift instruction is an R-type word whose `rs2` field is the amount. -/
theorem rType_shamt (f7 : BitVec 7) (shamt r1 : Reg) (f3 : BitVec 3) (r : Reg) (op : BitVec 7) :
    rType f7 shamt r1 f3 r op >>> 25 = f7.setWidth 32 ∧
    rType f7 shamt r1 f3 r op >>> 20 = (f7 ++ shamt).setWidth 32 ∧
    (rType f7 shamt r1 f3 r op >>> 20) &&& 0x1f#32 = shamt.setWidth 32 := by
  refine ⟨?_, ?_, ?_⟩ <;>
  · apply BitVec.eq_of_getLsbD_eq
    intro i hi
    simp only [rType, BitVec.getLsbD_setWidth, BitVec.getLsbD_and, BitVec.getLsbD_ushiftRight,
      BitVec.getLsbD_append]
    interval_cases i <;> simp

end Herve
