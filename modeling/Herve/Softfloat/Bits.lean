import Mathlib
import Herve.Softfloat.Source

/-! The fields of a pattern and the masks and shifts of the source as arithmetic on numbers. -/

namespace Herve.Softfloat

section Words
variable {w : ℕ} {x y : BitVec w}

/-! ## Masks -/

theorem toNat_and_ones {k : ℕ} (hk : k ≤ w) (x : BitVec w) :
    (x &&& BitVec.ofNat w (2 ^ k - 1)).toNat = x.toNat % 2 ^ k := by
  have hle : 2 ^ k ≤ 2 ^ w := Nat.pow_le_pow_right Nat.two_pos hk
  have hpos := Nat.two_pow_pos k
  rw [BitVec.toNat_and, BitVec.toNat_ofNat, Nat.mod_eq_of_lt (by omega),
    Nat.and_two_pow_sub_one_eq_mod]

theorem and_bit_ne_zero {k : ℕ} (hk : k < w) :
    x &&& BitVec.twoPow w k ≠ 0 ↔ x.toNat / 2 ^ k % 2 = 1 := by
  have hbit : x.getLsbD k = decide (x.toNat / 2 ^ k % 2 = 1) := Nat.testBit_eq_decide_div_mod_eq
  rw [BitVec.and_twoPow, hbit]
  by_cases h : x.toNat / 2 ^ k % 2 = 1
  · refine iff_of_true ?_ h
    rw [if_pos (decide_eq_true h), ne_eq, ← BitVec.toNat_inj, BitVec.toNat_twoPow,
      Nat.mod_eq_of_lt (Nat.pow_lt_pow_right (by decide) hk)]
    exact (Nat.two_pow_pos k).ne'
  · rw [decide_eq_false h, if_neg Bool.false_ne_true]
    exact iff_of_false (not_not.2 rfl) h

theorem and_one_ne_zero (hw : 0 < w) : x &&& 1 ≠ 0 ↔ x.toNat % 2 = 1 := by
  rw [show (1 : BitVec w) = BitVec.twoPow w 0 from BitVec.twoPow_zero.symm]
  refine (and_bit_ne_zero hw).trans ?_
  rw [pow_zero, Nat.div_one]

/-- Words without a common bit are added by `|`. -/
theorem toNat_or {k : ℕ} (hx : x.toNat % 2 ^ k = 0) (hy : y.toNat < 2 ^ k) :
    (x ||| y).toNat = x.toNat + y.toNat := by
  obtain ⟨a, ha⟩ := Nat.dvd_of_mod_eq_zero hx
  rw [BitVec.toNat_or, ha, Nat.two_pow_add_eq_or_of_lt hy]

theorem toNat_shiftRight (x : BitVec w) (k : ℕ) : (x >>> k).toNat = x.toNat / 2 ^ k := by
  rw [BitVec.toNat_ushiftRight, Nat.shiftRight_eq_div_pow]

theorem toNat_shiftLeft (x : BitVec w) (k : ℕ) :
    (x <<< k).toNat = x.toNat * 2 ^ k % 2 ^ w := by
  rw [BitVec.toNat_shiftLeft, Nat.shiftLeft_eq]

theorem toNat_add_one (h : x.toNat + 1 < 2 ^ w) : (x + 1).toNat = x.toNat + 1 := by
  rw [BitVec.toNat_add, show (1 : BitVec w).toNat = 1 % 2 ^ w from BitVec.toNat_ofNat 1 w,
    Nat.add_mod_mod, Nat.mod_eq_of_lt h]

theorem word_eq_zero_iff : x = 0 ↔ x.toNat = 0 := by
  rw [← BitVec.toNat_inj, show (0 : BitVec w).toNat = 0 from BitVec.toNat_zero]

end Words

variable {x y : BitVec 64}

theorem toNat_and_mantMask (x : BitVec 64) : (x &&& mantMask).toNat = x.toNat % 2 ^ 52 :=
  toNat_and_ones (k := 52) (by decide) x

theorem toNat_and_low {d : ℕ} (h : d < 64) (x : BitVec 64) :
    (x &&& ((1#64 <<< d) - 1)).toNat = x.toNat % 2 ^ d := by
  have hlt : 2 ^ d < 2 ^ 64 := Nat.pow_lt_pow_right (by decide) h
  have hpos := Nat.two_pow_pos d
  have hshift : (1#64 <<< d).toNat = 2 ^ d := by
    rw [BitVec.toNat_shiftLeft, Nat.shiftLeft_eq, show (1#64).toNat = 1 from rfl, Nat.one_mul,
      Nat.mod_eq_of_lt hlt]
  have hmask : (1#64 <<< d) - 1 = BitVec.ofNat 64 (2 ^ d - 1) := by
    rw [← BitVec.toNat_inj, BitVec.toNat_sub, hshift, BitVec.toNat_ofNat,
      show (1 : BitVec 64).toNat = 1 from rfl]
    omega
  rw [hmask, toNat_and_ones h.le]

theorem and_bit52_eq_zero (h : x.toNat < 2 ^ 53) : x &&& bit52 = 0 ↔ x.toNat < 2 ^ 52 := by
  rw [← not_iff_not, show bit52 = BitVec.twoPow 64 52 by decide]
  exact (and_bit_ne_zero (by decide)).trans (by omega)

theorem and_bit53_ne_zero (h : x.toNat < 2 ^ 54) : x &&& bit53 ≠ 0 ↔ 2 ^ 53 ≤ x.toNat := by
  rw [show bit53 = BitVec.twoPow 64 53 by decide]
  exact (and_bit_ne_zero (by decide)).trans (by omega)

theorem toNat_or_one (x : BitVec 64) :
    (x ||| 1).toNat = if x.toNat % 2 = 1 then x.toNat else x.toNat + 1 := by
  have hdiv : x.toNat = 2 * (x.toNat / 2) + x.toNat % 2 := (Nat.div_add_mod _ _).symm
  have hor : ∀ a b : ℕ, b < 2 → (2 * a + b) ||| 1 = 2 * a + 1 := by
    intro a b hb
    have hone : b ||| 1 = 1 := by
      interval_cases b <;> rfl
    rw [Nat.two_pow_add_eq_or_of_lt (i := 1) hb, Nat.or_assoc, hone,
      ← Nat.two_pow_add_eq_or_of_lt (i := 1) (by decide)]
  have heq : (x ||| 1).toNat = 2 * (x.toNat / 2) + 1 := by
    rw [BitVec.toNat_or, hdiv]
    refine (hor _ _ (Nat.mod_lt _ Nat.two_pos)).trans ?_
    omega
  rw [heq]
  split_ifs with h <;> omega

theorem flag_ne_zero {p : Prop} [Decidable p] : flag p ≠ 0 ↔ p := by
  unfold flag
  split_ifs with h
  · exact iff_of_true (by decide) h
  · exact iff_of_false (not_not.2 rfl) h

/-! ## Fields -/

theorem getExp_eq (x : BitVec 64) : getExp x = x.toNat / 2 ^ 52 % 2 ^ 11 := by
  unfold getExp
  rw [show expMask = BitVec.ofNat 64 (2 ^ 11 - 1) by decide, toNat_and_ones (by decide),
    toNat_shiftRight]

theorem toNat_getMant (x : BitVec 64) : (getMant x).toNat = x.toNat % 2 ^ 52 :=
  toNat_and_mantMask x

theorem getSign_eq (x : BitVec 64) : getSign x = x.toNat / 2 ^ 63 := toNat_shiftRight x 63

theorem toNat_magnitude (x : BitVec 64) : (x &&& ~~~signMask).toNat = x.toNat % 2 ^ 63 := by
  rw [show ~~~signMask = BitVec.ofNat 64 (2 ^ 63 - 1) by decide, toNat_and_ones (by decide)]

theorem toNat_setSign (x : BitVec 64) (s : ℕ) :
    (setSign x s).toNat = s % 2 * 2 ^ 63 + x.toNat % 2 ^ 63 := by
  have hsign : (BitVec.ofNat 64 (s &&& 1) <<< 63).toNat = s % 2 * 2 ^ 63 := by
    rw [toNat_shiftLeft, BitVec.toNat_ofNat, Nat.and_one_is_mod]
    omega
  have hmag := toNat_magnitude x
  unfold setSign
  rw [BitVec.or_comm, toNat_or (k := 63), hsign, hmag]
  · rw [hsign]
    exact Nat.mul_mod_left _ _
  · rw [hmag]
    exact Nat.mod_lt _ (by decide)

theorem getSign_setSign (x : BitVec 64) (s : ℕ) : getSign (setSign x s) = s % 2 := by
  rw [getSign_eq, toNat_setSign]
  omega

/-- Exponent and mantissa of a pattern are its lower 63 bits. -/
theorem fields_eq (x : BitVec 64) :
    getExp x * 2 ^ 52 + (getMant x).toNat = x.toNat % 2 ^ 63 := by
  rw [getExp_eq, toNat_getMant]
  omega

theorem toNat_getMant_lt (x : BitVec 64) : (getMant x).toNat < 2 ^ 52 :=
  toNat_getMant x ▸ Nat.mod_lt _ (by decide)

theorem getExp_lt (x : BitVec 64) : getExp x < 2 ^ 11 := getExp_eq x ▸ Nat.mod_lt _ (by decide)

theorem getSign_lt (x : BitVec 64) : getSign x < 2 := by
  rw [getSign_eq]
  omega

theorem toNat_fullMant (h : getExp x ≠ 0) :
    (fullMant x).toNat = 2 ^ 52 + (getMant x).toNat := by
  unfold fullMant
  rw [if_pos h, BitVec.or_comm, toNat_or (k := 52) (by decide) (toNat_getMant_lt x)]
  rfl

theorem fullMant_bounds (h : getExp x ≠ 0) :
    2 ^ 52 ≤ (fullMant x).toNat ∧ (fullMant x).toNat < 2 ^ 53 := by
  have := toNat_getMant_lt x
  rw [toNat_fullMant h]
  omega

theorem fullMant_lt (x : BitVec 64) : (fullMant x).toNat < 2 ^ 53 := by
  by_cases h : getExp x = 0
  · have hlt := toNat_getMant_lt x
    unfold fullMant
    rw [if_neg (not_not.2 h)]
    omega
  · exact (fullMant_bounds h).2

/-! ## The sign bit -/

theorem xor_and_of_disjoint {s m : BitVec 64} (h : s &&& m = 0) (x : BitVec 64) :
    (x ^^^ s) &&& m = x &&& m := by
  have hnat : s.toNat &&& m.toNat = 0 := by rw [← BitVec.toNat_and, h]; rfl
  rw [← BitVec.toNat_inj, BitVec.toNat_and, BitVec.toNat_xor, Nat.and_xor_distrib_right, hnat,
    Nat.xor_zero, BitVec.toNat_and]

theorem getMant_flip (x : BitVec 64) : getMant (x ^^^ signMask) = getMant x :=
  xor_and_of_disjoint (by decide) x

theorem getExp_flip (x : BitVec 64) : getExp (x ^^^ signMask) = getExp x := by
  unfold getExp
  rw [BitVec.ushiftRight_xor_distrib, xor_and_of_disjoint (by decide)]

theorem getSign_flip (x : BitVec 64) : getSign (x ^^^ signMask) = 1 - getSign x := by
  have hmask : (signMask >>> 63).toNat = 1 := by decide
  have hlt := getSign_lt x
  unfold getSign at hlt ⊢
  rw [BitVec.ushiftRight_xor_distrib, BitVec.toNat_xor, hmask]
  interval_cases (x >>> 63).toNat <;> rfl

theorem fullMant_flip (x : BitVec 64) : fullMant (x ^^^ signMask) = fullMant x := by
  unfold fullMant
  rw [getExp_flip, getMant_flip]

/-! ## Packing -/

theorem pack_of_nonpos {e : ℤ} (h : e ≤ 0) (m : BitVec 64) (s : ℕ) :
    (pack e m s).toNat = s % 2 * 2 ^ 63 := by
  unfold pack
  rw [if_pos h, toNat_setSign, show (0 : BitVec 64).toNat % 2 ^ 63 = 0 by decide, Nat.add_zero]

theorem pack_of_infinite {e : ℤ} (h : 2047 ≤ e) (m : BitVec 64) (s : ℕ) :
    (pack e m s).toNat = s % 2 * 2 ^ 63 + 2047 * 2 ^ 52 := by
  unfold pack
  rw [if_neg (by omega), if_pos h, toNat_setSign,
    show (expMask <<< 52).toNat % 2 ^ 63 = 2047 * 2 ^ 52 by decide]

theorem pack_of_normal {e : ℕ} (hpos : 0 < e) (hlt : e < 2047) (m : BitVec 64) (s : ℕ) :
    (pack e m s).toNat = s % 2 * 2 ^ 63 + (e * 2 ^ 52 + m.toNat % 2 ^ 52) := by
  have hexp : (BitVec.ofInt 64 e <<< 52).toNat = e * 2 ^ 52 := by
    rw [BitVec.ofInt_natCast, toNat_shiftLeft, BitVec.toNat_ofNat]
    omega
  have hmant := toNat_and_mantMask m
  unfold pack
  rw [if_neg (by omega), if_neg (by omega), toNat_setSign, toNat_or (k := 52), hexp, hmant]
  · omega
  · rw [hexp]
    exact Nat.mul_mod_left _ _
  · rw [hmant]
    exact Nat.mod_lt _ (by decide)

end Herve.Softfloat
