import Herve.Softfloat.Bits

/-! The 106 bit product of two mantissas is exact, and what `normalize` makes of it. -/

namespace Herve.Softfloat

/-! ## The product of the mantissas -/

/-- The number in two words. -/
def wide (w : BitVec 64 × BitVec 64) : ℕ := w.1.toNat * 2 ^ 64 + w.2.toNat

theorem addLow_wide {w : BitVec 64 × BitVec 64} {n : ℕ} (h : w.1.toNat ≤ n) (hn : n < 2 ^ 63)
    (x : BitVec 64) :
    wide (addLow w x) = wide w + x.toNat ∧ (addLow w x).1.toNat ≤ n + 1 := by
  have hcarry : w.2 + x < w.2 ↔ 2 ^ 64 ≤ w.2.toNat + x.toNat := by
    rw [BitVec.lt_def, BitVec.toNat_add]
    omega
  have hone : (w.1 + 1).toNat = w.1.toNat + 1 := toNat_add_one (by omega)
  unfold addLow wide
  dsimp only
  rw [BitVec.toNat_add]
  split_ifs with hc
  · rw [hcarry] at hc
    rw [hone]
    omega
  · rw [hcarry] at hc
    omega

theorem toNat_halfProduct {x y : BitVec 32} (hx : x.toNat < 2 ^ 27) (hy : y.toNat < 2 ^ 27) :
    (x.setWidth 64 * y.setWidth 64 : BitVec 64).toNat = x.toNat * y.toNat := by
  have hlt : x.toNat * y.toNat < 2 ^ 27 * 2 ^ 27 := Nat.mul_lt_mul'' hx hy
  rw [BitVec.toNat_mul, BitVec.toNat_setWidth, BitVec.toNat_setWidth,
    Nat.mod_eq_of_lt (by omega : x.toNat < 2 ^ 64), Nat.mod_eq_of_lt (by omega : y.toNat < 2 ^ 64),
    Nat.mod_eq_of_lt (by omega)]

/-- The bits that the shifted words lose are those that are added to the high word. -/
theorem accumulate_arith {hi lo p00 p01 p10 p11 : ℕ} (hhi : hi ≤ 3) (h01 : p01 < 2 ^ 54)
    (h10 : p10 < 2 ^ 54) (h11 : p11 < 2 ^ 54)
    (h : hi * 2 ^ 64 + lo = p00 + p01 * 2 ^ 26 % 2 ^ 64 + p10 * 2 ^ 26 % 2 ^ 64 +
      p11 % 2 ^ 52 * 2 ^ 52 % 2 ^ 64) :
    (((hi + p11 / 2 ^ 12) % 2 ^ 64 + p01 / 2 ^ 38) % 2 ^ 64 + p10 / 2 ^ 38) % 2 ^ 64 * 2 ^ 64 +
      lo = p00 + (p01 + p10) * 2 ^ 26 + p11 * 2 ^ 52 := by
  have hmod : (((hi + p11 / 2 ^ 12) % 2 ^ 64 + p01 / 2 ^ 38) % 2 ^ 64 + p10 / 2 ^ 38) % 2 ^ 64 =
      hi + p11 / 2 ^ 12 + p01 / 2 ^ 38 + p10 / 2 ^ 38 := by
    omega
  have hlost : ∀ p : ℕ, p * 2 ^ 26 % 2 ^ 64 + p / 2 ^ 38 * 2 ^ 64 = p * 2 ^ 26 := by
    omega
  have hlost11 : p11 % 2 ^ 52 * 2 ^ 52 % 2 ^ 64 + p11 / 2 ^ 12 * 2 ^ 64 = p11 * 2 ^ 52 := by
    omega
  rw [hmod]
  linarith [hlost p01, hlost p10]

theorem accumulate_wide {p00 p01 p10 p11 : BitVec 64} (h01 : p01.toNat < 2 ^ 54)
    (h10 : p10.toNat < 2 ^ 54) (h11 : p11.toNat < 2 ^ 54) :
    wide (accumulate p00 p01 p10 p11) =
      p00.toNat + (p01.toNat + p10.toNat) * 2 ^ 26 + p11.toNat * 2 ^ 52 := by
  obtain ⟨h1, hc1⟩ := addLow_wide (w := (0, p00)) (n := 0) le_rfl (by decide) (p01 <<< 26)
  obtain ⟨h2, hc2⟩ := addLow_wide hc1 (by decide) (p10 <<< 26)
  obtain ⟨h3, hc3⟩ := addLow_wide hc2 (by decide) ((p11 &&& mantMask) <<< 52)
  have h0 : wide (0, p00) = p00.toNat := by
    simp only [wide, BitVec.toNat_zero, Nat.zero_mul, Nat.zero_add, BitVec.ofNat_eq_ofNat]
  rw [h2, h1, h0, toNat_shiftLeft, toNat_shiftLeft, toNat_shiftLeft, toNat_and_mantMask] at h3
  unfold accumulate
  generalize addLow (addLow (addLow (0, p00) (p01 <<< 26)) (p10 <<< 26))
    ((p11 &&& mantMask) <<< 52) = w at h3 hc3 ⊢
  unfold wide at h3 ⊢
  dsimp only
  rw [BitVec.toNat_add, BitVec.toNat_add, BitVec.toNat_add, toNat_shiftRight, toNat_shiftRight,
    toNat_shiftRight]
  exact accumulate_arith hc3 h01 h10 h11 h3

theorem toNat_lowHalf (x : BitVec 64) :
    ((x &&& 0x3FFFFFF).setWidth 32).toNat = x.toNat % 2 ^ 26 := by
  have hmask : (x &&& 0x3FFFFFF).toNat = x.toNat % 2 ^ 26 :=
    toNat_and_ones (k := 26) (by decide) x
  rw [BitVec.toNat_setWidth, hmask]
  omega

theorem toNat_highHalf {x : BitVec 64} (h : x.toNat < 2 ^ 53) :
    ((x >>> 26).setWidth 32).toNat = x.toNat / 2 ^ 26 := by
  rw [BitVec.toNat_setWidth, toNat_shiftRight]
  omega

/-- The words `m_hi` and `m_lo` of a number below `2 ^ 106`. -/
theorem split_words {w : BitVec 64 × BitVec 64} (h : wide w < 2 ^ 106) :
    (((w.1 <<< 11) ||| (w.2 >>> 53)) &&& 0x001FFFFFFFFFFFFF).toNat = wide w / 2 ^ 53 ∧
      (w.2 &&& 0x001FFFFFFFFFFFFF).toNat = wide w % 2 ^ 53 := by
  have hmask : ∀ x : BitVec 64, (x &&& 0x001FFFFFFFFFFFFF).toNat = x.toNat % 2 ^ 53 :=
    toNat_and_ones (k := 53) (by decide)
  unfold wide at h ⊢
  have hshift : (w.1 <<< 11).toNat = w.1.toNat * 2 ^ 11 := by
    rw [toNat_shiftLeft]
    omega
  have hlow : (w.2 >>> 53).toNat = w.2.toNat / 2 ^ 53 := toNat_shiftRight _ _
  rw [hmask, hmask, toNat_or (k := 11), hshift, hlow]
  · omega
  · rw [hshift]
    exact Nat.mul_mod_left _ _
  · rw [hlow]
    omega

/-- `(hi64, lo64)` when all four partial products have been added. -/
def accumulated (ma mb : BitVec 64) : BitVec 64 × BitVec 64 :=
  let aLo := (ma &&& 0x3FFFFFF).setWidth 32
  let aHi := (ma >>> 26).setWidth 32
  let bLo := (mb &&& 0x3FFFFFF).setWidth 32
  let bHi := (mb >>> 26).setWidth 32
  accumulate (aLo.setWidth 64 * bLo.setWidth 64) (aLo.setWidth 64 * bHi.setWidth 64)
    (aHi.setWidth 64 * bLo.setWidth 64) (aHi.setWidth 64 * bHi.setWidth 64)

theorem product_split (ma mb : BitVec 64) :
    product ma mb =
      ((((accumulated ma mb).1 <<< 11) ||| ((accumulated ma mb).2 >>> 53)) &&& 0x001FFFFFFFFFFFFF,
        (accumulated ma mb).2 &&& 0x001FFFFFFFFFFFFF) := rfl

section Exact
variable {ma mb : BitVec 64} (ha : ma.toNat < 2 ^ 53) (hb : mb.toNat < 2 ^ 53)
include ha hb

theorem accumulated_wide : wide (accumulated ma mb) = ma.toNat * mb.toNat := by
  have hal := toNat_lowHalf ma
  have hah := toNat_highHalf ha
  have hbl := toNat_lowHalf mb
  have hbh := toNat_highHalf hb
  have hprod : ∀ {x y : BitVec 32}, x.toNat < 2 ^ 27 → y.toNat < 2 ^ 27 →
      (x.setWidth 64 * y.setWidth 64 : BitVec 64).toNat < 2 ^ 54 := by
    intro x y hx hy
    have hmul : x.toNat * y.toNat < 2 ^ 27 * 2 ^ 27 := Nat.mul_lt_mul'' hx hy
    rw [toNat_halfProduct hx hy]
    omega
  unfold accumulated
  dsimp only
  generalize (ma &&& 0x3FFFFFF).setWidth 32 = aLo at hal ⊢
  generalize (ma >>> 26).setWidth 32 = aHi at hah ⊢
  generalize (mb &&& 0x3FFFFFF).setWidth 32 = bLo at hbl ⊢
  generalize (mb >>> 26).setWidth 32 = bHi at hbh ⊢
  have hma : ma.toNat = aLo.toNat + aHi.toNat * 2 ^ 26 := by omega
  have hmb : mb.toNat = bLo.toNat + bHi.toNat * 2 ^ 26 := by omega
  have hal' : aLo.toNat < 2 ^ 27 := by omega
  have hah' : aHi.toNat < 2 ^ 27 := by omega
  have hbl' : bLo.toNat < 2 ^ 27 := by omega
  have hbh' : bHi.toNat < 2 ^ 27 := by omega
  rw [accumulate_wide (hprod hal' hbh') (hprod hah' hbl') (hprod hah' hbh'),
    toNat_halfProduct hal' hbl', toNat_halfProduct hal' hbh', toNat_halfProduct hah' hbl',
    toNat_halfProduct hah' hbh', hma, hmb]
  ring

theorem product_eq :
    (product ma mb).1.toNat = ma.toNat * mb.toNat / 2 ^ 53 ∧
      (product ma mb).2.toNat = ma.toNat * mb.toNat % 2 ^ 53 := by
  have hlt : ma.toNat * mb.toNat < 2 ^ 53 * 2 ^ 53 := Nat.mul_lt_mul'' ha hb
  rw [product_split, ← accumulated_wide ha hb]
  refine split_words ?_
  rw [accumulated_wide ha hb]
  exact hlt

/-- Neither the two accumulated words nor the two halves of 53 bits lose anything. -/
theorem product_exact :
    wide (accumulated ma mb) = ma.toNat * mb.toNat ∧ (product ma mb).2.toNat < 2 ^ 53 ∧
      (product ma mb).1.toNat < 2 ^ 53 ∧
      (product ma mb).1.toNat * 2 ^ 53 + (product ma mb).2.toNat = ma.toNat * mb.toNat := by
  have hlt : ma.toNat * mb.toNat < 2 ^ 53 * 2 ^ 53 := Nat.mul_lt_mul'' ha hb
  obtain ⟨hhi, hlo⟩ := product_eq ha hb
  rw [hhi, hlo]
  refine ⟨accumulated_wide ha hb, Nat.mod_lt _ (Nat.two_pow_pos 53), ?_, Nat.div_add_mod' _ _⟩
  exact Nat.div_lt_of_lt_mul hlt

end Exact

/-- The largest mantissas: every bit of both is set. -/
theorem product_exact_ones :
    (product 0x1FFFFFFFFFFFFF 0x1FFFFFFFFFFFFF).1.toNat * 2 ^ 53 +
      (product 0x1FFFFFFFFFFFFF 0x1FFFFFFFFFFFFF).2.toNat = (2 ^ 53 - 1) * (2 ^ 53 - 1) :=
  (product_exact (by decide) (by decide)).2.2.2

/-! ## `normalize` -/

variable {mHi mLo : BitVec 64}

theorem roundAndPack_eq {mant : BitVec 64} (h : mant.toNat < 2 ^ 52) (g r t : BitVec 64) (exp : ℤ)
    (sign : ℕ) :
    roundAndPack mant g r t exp sign =
      pack exp (if g ≠ 0 ∧ (r ≠ 0 ∨ t ≠ 0) then mant + 1 else mant) sign := by
  have hadd : (mant + 1).toNat = mant.toNat + 1 := toNat_add_one (by omega)
  have hcarry : ¬ (mant + 1) &&& bit53 ≠ 0 := by
    rw [and_bit53_ne_zero (by omega)]
    omega
  unfold roundAndPack
  rw [if_neg hcarry]
  split_ifs <;> rfl

/-- The bits behind the lowest bit of the mantissa that make `normalize` round up. -/
theorem roundsUp_bits (x : BitVec 64) :
    ((x >>> 51) &&& 1 ≠ 0 ∧
      ((x >>> 50) &&& 1 ≠ 0 ∨ flag (x &&& ((1#64 <<< 50) - 1) ≠ 0) ≠ 0)) ↔
      2 ^ 51 < x.toNat % 2 ^ 52 := by
  have hsticky : x &&& ((1#64 <<< 50) - 1) ≠ 0 ↔ x.toNat % 2 ^ 50 ≠ 0 := by
    rw [ne_eq, word_eq_zero_iff, toNat_and_low (by decide)]
  rw [flag_ne_zero, hsticky, and_one_ne_zero (by decide), and_one_ne_zero (by decide),
    toNat_shiftRight, toNat_shiftRight]
  omega

theorem toNat_mr (hHi : mHi.toNat < 2 ^ 53) (hLo : mLo.toNat < 2 ^ 53) :
    ((mHi <<< 1) ||| (mLo >>> 52)).toNat = (mHi.toNat * 2 ^ 53 + mLo.toNat) / 2 ^ 52 := by
  have hshift : (mHi <<< 1).toNat = mHi.toNat * 2 := by
    rw [toNat_shiftLeft]
    omega
  have hlow : (mLo >>> 52).toNat = mLo.toNat / 2 ^ 52 := toNat_shiftRight _ _
  rw [toNat_or (k := 1), hshift, hlow]
  · omega
  · rw [hshift]
    exact Nat.mul_mod_left _ _
  · rw [hlow]
    omega

variable {p : ℕ}

theorem normalize_of_large (hLo : mLo.toNat < 2 ^ 53)
    (hp : mHi.toNat * 2 ^ 53 + mLo.toNat = p) (hge : 2 ^ 104 ≤ p) (hlt : p < 2 ^ 106) (exp : ℤ)
    (sign : ℕ) :
    ∃ mr : BitVec 64, mr.toNat = p / 2 ^ 52 ∧ normalize mHi mLo exp sign =
      if mr &&& bit53 ≠ 0 then roundAndPack ((mr >>> 1) &&& mantMask) (mr &&& 1) 0 0 (exp + 1) sign
      else roundAndPack (mr &&& mantMask) ((mLo >>> 51) &&& 1) ((mLo >>> 50) &&& 1)
        (flag (mLo &&& ((1#64 <<< 50) - 1) ≠ 0)) exp sign := by
  have hmr : ((mHi <<< 1) ||| (mLo >>> 52)).toNat = p / 2 ^ 52 :=
    hp ▸ toNat_mr (by omega) hLo
  have hne : (mHi <<< 1) ||| (mLo >>> 52) ≠ 0 := by
    intro h0
    rw [h0] at hmr
    have : (0 : BitVec 64).toNat = 0 := rfl
    omega
  have hHi : mHi ≠ 0 := by
    rintro rfl
    have : (0 : BitVec 64).toNat = 0 := rfl
    omega
  refine ⟨_, hmr, ?_⟩
  unfold normalize
  rw [if_neg fun h => hHi h.1]
  dsimp only
  rw [if_neg hne]

/-- A number below `2 ^ 105` keeps its exponent; it is rounded up above the half. -/
theorem normalize_low (hLo : mLo.toNat < 2 ^ 53) (hp : mHi.toNat * 2 ^ 53 + mLo.toNat = p)
    (hge : 2 ^ 104 ≤ p) (hlt : p < 2 ^ 105) (exp : ℤ) (sign : ℕ) :
    ∃ m, normalize mHi mLo exp sign = pack exp m sign ∧
      m.toNat = p / 2 ^ 52 - 2 ^ 52 + if 2 ^ 51 < p % 2 ^ 52 then 1 else 0 := by
  obtain ⟨mr, hmr, heq⟩ := normalize_of_large hLo hp hge (by omega) exp sign
  have hbit : ¬ mr &&& bit53 ≠ 0 := by
    rw [and_bit53_ne_zero (by omega)]
    omega
  have hmant : (mr &&& mantMask).toNat = p / 2 ^ 52 - 2 ^ 52 := by
    rw [toNat_and_mantMask]
    omega
  have hround : 2 ^ 51 < mLo.toNat % 2 ^ 52 ↔ 2 ^ 51 < p % 2 ^ 52 := by
    omega
  rw [if_neg hbit, roundAndPack_eq (by omega), if_congr ((roundsUp_bits mLo).trans hround) rfl rfl]
    at heq
  refine ⟨_, heq, ?_⟩
  split_ifs
  · rw [toNat_add_one (by omega), hmant]
  · rw [hmant, Nat.add_zero]

/-- A number from `2 ^ 105` on is cut off. -/
theorem normalize_high (hLo : mLo.toNat < 2 ^ 53) (hp : mHi.toNat * 2 ^ 53 + mLo.toNat = p)
    (hge : 2 ^ 105 ≤ p) (hlt : p < 2 ^ 106) (exp : ℤ) (sign : ℕ) :
    ∃ m, normalize mHi mLo exp sign = pack (exp + 1) m sign ∧ m.toNat = p / 2 ^ 53 - 2 ^ 52 := by
  obtain ⟨mr, hmr, heq⟩ := normalize_of_large hLo hp (by omega) hlt exp sign
  have hbit : mr &&& bit53 ≠ 0 := by
    rw [and_bit53_ne_zero (by omega)]
    omega
  have hmant : ((mr >>> 1) &&& mantMask).toNat = p / 2 ^ 53 - 2 ^ 52 := by
    rw [toNat_and_mantMask, toNat_shiftRight]
    omega
  have hround : ¬ (mr &&& 1 ≠ 0 ∧ ((0 : BitVec 64) ≠ 0 ∨ (0 : BitVec 64) ≠ 0)) := fun h =>
    h.2.elim (fun h0 => h0 rfl) fun h0 => h0 rfl
  rw [if_pos hbit, roundAndPack_eq (by omega), if_neg hround] at heq
  exact ⟨_, heq, hmant⟩

end Herve.Softfloat
