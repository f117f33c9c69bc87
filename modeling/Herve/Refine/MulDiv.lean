import Herve.RiscV.Rv32m
import Herve.Decode.Fields
import Herve.Iss.Execute

/-! `execute_instruction` carries out the M extension, and no operation of the host that does so
is one the C language leaves undefined. -/

namespace Herve
open RiscV

/-! ## Words as integers -/

theorem setWidth_eq_ofInt {w : ℕ} (x : BitVec w) (h : 32 ≤ w) :
    x.setWidth 32 = .ofInt 32 x.toInt := by
  apply BitVec.eq_of_toInt_eq
  rw [BitVec.toInt_ofInt, BitVec.toInt_setWidth, BitVec.toInt_eq_toNat_bmod,
    Int.bmod_bmod_of_dvd]
  exact_mod_cast Nat.pow_dvd_pow 2 h

theorem toInt_bounds (a : Word) : -2 ^ 31 ≤ a.toInt ∧ a.toInt < 2 ^ 31 :=
  ⟨BitVec.le_toInt a, BitVec.toInt_lt⟩

theorem toInt_mul_bounds (a b : Word) :
    -2 ^ 63 ≤ a.toInt * b.toInt ∧ a.toInt * b.toInt < 2 ^ 63 := by
  obtain ⟨ha, ha'⟩ := toInt_bounds a
  obtain ⟨hb, hb'⟩ := toInt_bounds b
  constructor <;> nlinarith

theorem signExtend_mul_toInt (a b : Word) :
    (a.signExtend 64 * b.signExtend 64).toInt = a.toInt * b.toInt := by
  obtain ⟨hlow, hhigh⟩ := toInt_mul_bounds a b
  rw [BitVec.signExtend, BitVec.signExtend, ← BitVec.ofInt_mul]
  exact BitVec.toInt_ofInt_eq_self (by decide) hlow hhigh

theorem setWidth_eq_ofInt_toNat (x : Word) : x.setWidth 64 = .ofInt 64 x.toNat := by
  rw [BitVec.ofInt_natCast, BitVec.ofNat_toNat]

/-- A product that wraps at `2 ^ 64` keeps the high word modulo `2 ^ 32`. -/
theorem highWord_ofInt (p : ℤ) :
    (BitVec.ofInt 64 p >>> 32).setWidth 32 = BitVec.ofInt 32 (p / 2 ^ 32) := by
  apply BitVec.eq_of_toNat_eq
  rw [BitVec.toNat_setWidth, BitVec.toNat_ushiftRight, BitVec.toNat_ofInt, BitVec.toNat_ofInt,
    Nat.shiftRight_eq_div_pow]
  omega

/-! ## The switch -/

theorem signedProduct_low (a b : Word) :
    (a.signExtend 64 * b.signExtend 64).setWidth 32 = .ofInt 32 (a.toInt * b.toInt) := by
  rw [setWidth_eq_ofInt _ (by decide), signExtend_mul_toInt]

theorem signedProduct_high (a b : Word) :
    ((a.signExtend 64 * b.signExtend 64).sshiftRight 32).setWidth 32 =
      .ofInt 32 (a.toInt * b.toInt / 2 ^ 32) := by
  rw [setWidth_eq_ofInt _ (by decide), BitVec.toInt_sshiftRight, signExtend_mul_toInt,
    Int.shiftRight_eq_div_pow]
  rfl

theorem sdiv_eq_ofInt (a b : Word) : a.sdiv b = .ofInt 32 (a.toInt.tdiv b.toInt) :=
  BitVec.eq_of_toInt_eq ((BitVec.toInt_sdiv a b).trans (BitVec.toInt_ofInt _).symm)

theorem srem_eq_ofInt (a b : Word) : a.srem b = .ofInt 32 (a.toInt.tmod b.toInt) := by
  rw [← BitVec.toInt_srem, BitVec.ofInt_toInt]

theorem mulDivResult_product (op : MulDiv) (a b : Word) (hop : op.funct3 < 4) :
    mulDivResult (op.funct3.setWidth 32) a b = op.eval a b := by
  cases op with
  | mul => exact signedProduct_low a b
  | mulh => exact signedProduct_high a b
  | mulhsu =>
    show ((a.signExtend 64 * b.setWidth 64) >>> 32).setWidth 32 =
      .ofInt 32 (a.toInt * b.toNat / 2 ^ 32)
    rw [BitVec.signExtend, setWidth_eq_ofInt_toNat, ← BitVec.ofInt_mul, highWord_ofInt]
  | mulhu =>
    show ((a.setWidth 64 * b.setWidth 64) >>> 32).setWidth 32 =
      .ofInt 32 (a.toNat * b.toNat / 2 ^ 32)
    rw [setWidth_eq_ofInt_toNat, setWidth_eq_ofInt_toNat, ← BitVec.ofInt_mul, highWord_ofInt]
  | _ => exact absurd hop (by decide)

theorem overflows_iff (a b : Word) :
    a = 0x80000000#32 ∧ b = 0xFFFFFFFF#32 ↔ MulDiv.Overflows a b := by
  constructor
  · rintro ⟨rfl, rfl⟩
    decide
  · exact MulDiv.Overflows.eq

theorem mulDivResult_quotient (op : MulDiv) (a b : Word) (hop : ¬ op.funct3 < 4) :
    mulDivResult (op.funct3.setWidth 32) a b = op.eval a b := by
  cases op with
  | div =>
    show (if b = 0 then 0xFFFFFFFF#32 else if a = 0x80000000#32 ∧ b = 0xFFFFFFFF#32 then
      0x80000000#32 else a.sdiv b) = _
    rw [MulDiv.eval]
    simp only [overflows_iff]
    split_ifs with h0 hover
    · rfl
    · rfl
    · exact sdiv_eq_ofInt a b
  | divu =>
    show (if b = 0 then 0xFFFFFFFF#32 else a.udiv b) = _
    rw [MulDiv.eval]
    split_ifs with h0
    · rfl
    · exact BitVec.udiv_def
  | rem =>
    show (if b = 0 then a else if a = 0x80000000#32 ∧ b = 0xFFFFFFFF#32 then 0 else
      a.srem b) = _
    rw [MulDiv.eval]
    simp only [overflows_iff]
    split_ifs with h0 hover
    · rfl
    · rfl
    · exact srem_eq_ofInt a b
  | remu =>
    show (if b = 0 then a else a.umod b) = _
    rw [MulDiv.eval]
    split_ifs with h0
    · rfl
    · exact BitVec.umod_def
  | _ => exact absurd (by decide) hop

theorem mulDivResult_eval (op : MulDiv) (a b : Word) :
    mulDivResult (op.funct3.setWidth 32) a b = op.eval a b := by
  by_cases hop : op.funct3 < 4
  · exact mulDivResult_product op a b hop
  · exact mulDivResult_quotient op a b hop

/-! ## The operations of the host -/

/-- A signed product of the host, in 64 bits. -/
def hostMul (x y : ℤ) : Option ℤ := if -2 ^ 63 ≤ x * y ∧ x * y < 2 ^ 63 then some (x * y) else none

/-- The operands of `/` and `%` on signed 32-bit integers of the host. -/
def HostDivides (x y : ℤ) : Prop := y ≠ 0 ∧ ¬ (x = -2 ^ 31 ∧ y = -1)
  deriving Decidable

def hostDiv (x y : ℤ) : Option ℤ := if HostDivides x y then some (x.tdiv y) else none

def hostRem (x y : ℤ) : Option ℤ := if HostDivides x y then some (x.tmod y) else none

def hostDivu (x y : Word) : Option Word := if y ≠ 0 then some (x.udiv y) else none

def hostRemu (x y : Word) : Option Word := if y ≠ 0 then some (x.umod y) else none

/-- The M-extension switch with operations that have no result where C leaves it undefined. The
products of MULHSU and MULHU are unsigned. -/
def hostMulDiv (funct3 src1 src2 : Word) : Option Word :=
  match funct3.toNat with
  | 0x0 => (hostMul src1.toInt src2.toInt).map (.ofInt 32)
  | 0x1 => (hostMul src1.toInt src2.toInt).map fun p => .ofInt 32 (p / 2 ^ 32)
  | 0x2 => some (((src1.signExtend 64 * src2.setWidth 64) >>> 32).setWidth 32)
  | 0x3 => some (((src1.setWidth 64 * src2.setWidth 64) >>> 32).setWidth 32)
  | 0x4 =>
    if src2 = 0 then some 0xFFFFFFFF#32
    else if src1 = 0x80000000#32 ∧ src2 = 0xFFFFFFFF#32 then some 0x80000000#32
    else (hostDiv src1.toInt src2.toInt).map (.ofInt 32)
  | 0x5 => if src2 = 0 then some 0xFFFFFFFF#32 else hostDivu src1 src2
  | 0x6 =>
    if src2 = 0 then some src1
    else if src1 = 0x80000000#32 ∧ src2 = 0xFFFFFFFF#32 then some 0
    else (hostRem src1.toInt src2.toInt).map (.ofInt 32)
  | _ => if src2 = 0 then some src1 else hostRemu src1 src2

theorem hostMul_eq (a b : Word) : hostMul a.toInt b.toInt = some (a.toInt * b.toInt) :=
  if_pos (toInt_mul_bounds a b)

theorem hostDivides {a b : Word} (h0 : b ≠ 0) (hover : ¬ (a = 0x80000000#32 ∧ b = 0xFFFFFFFF#32)) :
    HostDivides a.toInt b.toInt :=
  ⟨fun h => h0 (BitVec.eq_of_toInt_eq h), fun h => hover ((overflows_iff a b).2 h)⟩

/-- The guards of the source keep every operation away from its undefined cases, so that the switch
gives the same on the host's own operations, whatever the operands. -/
theorem hostMulDiv_eq (funct3 src1 src2 : Word) :
    hostMulDiv funct3 src1 src2 = some (mulDivResult funct3 src1 src2) := by
  unfold hostMulDiv mulDivResult
  generalize funct3.toNat = op
  match op with
  | 0 =>
    exact (congrArg (Option.map _) (hostMul_eq src1 src2)).trans
      (congrArg some (signedProduct_low src1 src2).symm)
  | 1 =>
    exact (congrArg (Option.map _) (hostMul_eq src1 src2)).trans
      (congrArg some (signedProduct_high src1 src2).symm)
  | 2 => rfl
  | 3 => rfl
  | 4 =>
    show (if src2 = 0 then _ else if _ then _ else (hostDiv src1.toInt src2.toInt).map _) =
      some (if src2 = 0 then _ else if _ then _ else src1.sdiv src2)
    split_ifs with h0 hover
    · rfl
    · rfl
    · rw [hostDiv, if_pos (hostDivides h0 hover), sdiv_eq_ofInt]
      rfl
  | 5 =>
    show (if src2 = 0 then _ else hostDivu src1 src2) =
      some (if src2 = 0 then _ else src1.udiv src2)
    split_ifs with h0
    · rfl
    · exact if_pos h0
  | 6 =>
    show (if src2 = 0 then _ else if _ then _ else (hostRem src1.toInt src2.toInt).map _) =
      some (if src2 = 0 then _ else if _ then _ else src1.srem src2)
    split_ifs with h0 hover
    · rfl
    · rfl
    · rw [hostRem, if_pos (hostDivides h0 hover), srem_eq_ofInt]
      rfl
  | _ + 7 =>
    show (if src2 = 0 then _ else hostRemu src1 src2) =
      some (if src2 = 0 then _ else src1.umod src2)
    split_ifs with h0
    · rfl
    · exact if_pos h0

/-! ## The instruction -/

def mulDivType (op : MulDiv) : InsnType := if op.funct3 < 4 then .mul else .div

variable {δ : Type} (dev : Device δ)

theorem decodeInstruction_mulDiv (op : MulDiv) (r r1 r2 : Reg) (regs : Reg → Word) (pc : Word) :
    decodeInstruction (op.encode r r1 r2) regs pc =
      (mulDivType op, .writeReg r (op.eval (regs r1) (regs r2))) := by
  have htype : (if op.funct3.setWidth 32 < 4#32 then InsnType.mul else .div) =
      mulDivType op := by
    cases op <;> rfl
  rw [← mulDivResult_eval, ← htype]
  simp [decodeInstruction, MulDiv.encode]

/-- On every state and all operands: the result in `rd`, the pc on the next instruction, and
beside the profiler's record of the instruction nothing else. The result is what the switch gives
on the operations of the host, none of which is undefined. -/
theorem executeInstruction_mulDiv (op : MulDiv) (r r1 r2 : Reg) (s : State δ) :
    executeInstruction dev (op.encode r r1 r2) s =
      (true, { s with
        regs := writeReg r (op.eval (s.regs r1) (s.regs r2)) s.regs
        pc := s.pc + 4 }.recordInsn (mulDivType op) s.pc (op.encode r r1 r2)) ∧
    hostMulDiv (funct3 (op.encode r r1 r2)) (s.regs r1) (s.regs r2) =
      some (mulDivResult (funct3 (op.encode r r1 r2)) (s.regs r1) (s.regs r2)) ∧
    mulDivResult (funct3 (op.encode r r1 r2)) (s.regs r1) (s.regs r2) =
      op.eval (s.regs r1) (s.regs r2) ∧
    MulDiv.div.eval (s.regs r1) (s.regs r2) * s.regs r2 +
      MulDiv.rem.eval (s.regs r1) (s.regs r2) = s.regs r1 ∧
    MulDiv.divu.eval (s.regs r1) (s.regs r2) * s.regs r2 +
      MulDiv.remu.eval (s.regs r1) (s.regs r2) = s.regs r1 := by
  refine ⟨?_, hostMulDiv_eq _ _ _, ?_, MulDiv.div_mul_add_rem _ _, MulDiv.divu_mul_add_remu _ _⟩
  · have hsys : opcode (op.encode r r1 r2) ≠ 0x73#32 := by simp [MulDiv.encode]
    rw [executeInstruction, if_neg hsys, executeCore, decodeInstruction_mulDiv]
    rfl
  · have hf3 : funct3 (op.encode r r1 r2) = op.funct3.setWidth 32 := by simp [MulDiv.encode]
    rw [hf3]
    exact mulDivResult_eval op _ _

end Herve
