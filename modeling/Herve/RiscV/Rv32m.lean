import Herve.RiscV.Rv32i

/-! The M extension: products and quotients of the integers that the operands stand for, and
the results the manual fixes where the quotient does not exist or does not fit. -/

namespace RiscV

inductive MulDiv
  | mul | mulh | mulhsu | mulhu | div | divu | rem | remu
  deriving DecidableEq, Repr

namespace MulDiv

def funct3 : MulDiv → BitVec 3
  | mul => 0 | mulh => 1 | mulhsu => 2 | mulhu => 3
  | div => 4 | divu => 5 | rem => 6 | remu => 7

/-- `-2 ^ 31` divided by `-1`. -/
def Overflows (a b : Word) : Prop := a.toInt = -2 ^ 31 ∧ b.toInt = -1
  deriving Decidable

/-- Division of integers by `2 ^ 32` rounds down; `tdiv` and `tmod` round towards zero. -/
def eval : MulDiv → Word → Word → Word
  | mul, a, b => .ofInt 32 (a.toInt * b.toInt)
  | mulh, a, b => .ofInt 32 (a.toInt * b.toInt / 2 ^ 32)
  | mulhsu, a, b => .ofInt 32 (a.toInt * b.toNat / 2 ^ 32)
  | mulhu, a, b => .ofInt 32 (a.toNat * b.toNat / 2 ^ 32)
  | div, a, b =>
    if b = 0 then .ofInt 32 (-1)
    else if Overflows a b then .ofInt 32 (-2 ^ 31)
    else .ofInt 32 (a.toInt.tdiv b.toInt)
  | divu, a, b => if b = 0 then .ofInt 32 (2 ^ 32 - 1) else .ofNat 32 (a.toNat / b.toNat)
  | rem, a, b =>
    if b = 0 then a else if Overflows a b then 0 else .ofInt 32 (a.toInt.tmod b.toInt)
  | remu, a, b => if b = 0 then a else .ofNat 32 (a.toNat % b.toNat)

def encode (op : MulDiv) (rd rs1 rs2 : Reg) : Word := rType 1 rs2 rs1 op.funct3 rd 0x33

theorem Overflows.eq {a b : Word} (h : Overflows a b) : a = 0x80000000#32 ∧ b = 0xFFFFFFFF#32 :=
  ⟨BitVec.eq_of_toInt_eq h.1, BitVec.eq_of_toInt_eq h.2⟩

theorem div_mul_add_rem (a b : Word) : div.eval a b * b + rem.eval a b = a := by
  rw [eval, eval]
  split_ifs with h0 hover
  · rw [h0]
    exact (congrArg (· + a) BitVec.mul_zero).trans (BitVec.zero_add a)
  · obtain ⟨rfl, rfl⟩ := hover.eq
    rfl
  · calc BitVec.ofInt 32 (a.toInt.tdiv b.toInt) * b + BitVec.ofInt 32 (a.toInt.tmod b.toInt)
        = BitVec.ofInt 32 (a.toInt.tdiv b.toInt * b.toInt + a.toInt.tmod b.toInt) := by
          rw [BitVec.ofInt_add, BitVec.ofInt_mul, BitVec.ofInt_toInt]
      _ = a := by rw [Int.tdiv_mul_add_tmod, BitVec.ofInt_toInt]

theorem divu_mul_add_remu (a b : Word) : divu.eval a b * b + remu.eval a b = a := by
  rw [eval, eval]
  split_ifs with h0
  · rw [h0]
    exact (congrArg (· + a) BitVec.mul_zero).trans (BitVec.zero_add a)
  · calc BitVec.ofNat 32 (a.toNat / b.toNat) * b + BitVec.ofNat 32 (a.toNat % b.toNat)
        = BitVec.ofNat 32 (a.toNat / b.toNat * b.toNat + a.toNat % b.toNat) := by
          rw [BitVec.ofNat_add, BitVec.ofNat_mul, BitVec.ofNat_toNat, BitVec.setWidth_eq]
      _ = a := by rw [Nat.div_add_mod', BitVec.ofNat_toNat, BitVec.setWidth_eq]

end MulDiv
end RiscV
