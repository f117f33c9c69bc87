import Herve.Softfloat.Classes
import Herve.Softfloat.Product

/-! Multiplication of normal numbers: the product is exact, and these are the products that are
rounded to nearest. -/

namespace Herve.Softfloat
open Nearest

variable {a b r : BitVec 64}

def mantProduct (a b : BitVec 64) : ℕ := (fullMant a).toNat * (fullMant b).toNat

/-- The exact product is at least `2 ^ -1022`. If its mantissa is below 2, it is not rounded up to
2 and no tie with an odd last bit; otherwise rounding drops the bits behind the last one. -/
def MulRounds (a b : BitVec 64) : Prop :=
  let p := mantProduct a b
  if p < 2 ^ 105 then
    1024 ≤ getExp a + getExp b ∧ p + 2 ^ 51 < 2 ^ 105 ∧ ¬ (p % 2 ^ 52 = 2 ^ 51 ∧ Odd (p / 2 ^ 52))
  else
    1023 ≤ getExp a + getExp b ∧ (p % 2 ^ 53 < 2 ^ 52 ∨ p % 2 ^ 53 = 2 ^ 52 ∧ Even (p / 2 ^ 53))
  deriving Decidable

theorem mantProduct_bounds (ha : Normal a) (hb : Normal b) :
    2 ^ 104 ≤ mantProduct a b ∧ mantProduct a b < 2 ^ 106 := by
  have hma := ha.fullMant_bounds
  have hmb := hb.fullMant_bounds
  have hlow : 2 ^ 52 * 2 ^ 52 ≤ mantProduct a b := Nat.mul_le_mul hma.1 hmb.1
  have hhigh : mantProduct a b < 2 ^ 53 * 2 ^ 53 := Nat.mul_lt_mul'' hma.2 hmb.2
  omega

theorem muldf3_normal (ha : Normal a) (hb : Normal b) :
    muldf3 a b = normalize (product (fullMant a) (fullMant b)).1
      (product (fullMant a) (fullMant b)).2 (getExp a + getExp b - 1023)
      (getSign a ^^^ getSign b) :=
  muldf3_finite (not_or.2 ⟨ha.not_isNaN, hb.not_isNaN⟩) (not_or.2 ⟨ha.not_isInf, hb.not_isInf⟩)
    (not_or.2 ⟨ha.not_isZero, hb.not_isZero⟩)

theorem product_words (ha : Normal a) (hb : Normal b) :
    (product (fullMant a) (fullMant b)).2.toNat < 2 ^ 53 ∧
      (product (fullMant a) (fullMant b)).1.toNat * 2 ^ 53 +
        (product (fullMant a) (fullMant b)).2.toNat = mantProduct a b := by
  obtain ⟨hhi, hlo⟩ := product_eq ha.fullMant_bounds.2 hb.fullMant_bounds.2
  rw [hhi, hlo]
  exact ⟨Nat.mod_lt _ (Nat.two_pow_pos 53), Nat.div_add_mod' _ _⟩

/-! ## The exact product -/

theorem abs_mul_val (ha : Normal a) (hb : Normal b) {k s : ℕ}
    (h : getExp a + getExp b + s = k + 1076) :
    |val a * val b| * 2 ^ s = mantProduct a b * (2 ^ k / 2 ^ 1074) := by
  have hpow : (2 : ℚ) ^ (getExp a - 1) * 2 ^ (getExp b - 1) * 2 ^ s = 2 ^ k * 2 ^ 1074 := by
    have := ha.1
    have := hb.1
    rw [← pow_add, ← pow_add, ← pow_add]
    congr 1
    omega
  have hne : (2 : ℚ) ^ 1074 ≠ 0 := pow_ne_zero _ two_ne_zero
  rw [abs_mul, ha.abs_val, hb.abs_val, mantProduct, Nat.cast_mul]
  generalize (2 : ℚ) ^ 1074 = c at hpow hne ⊢
  field_simp
  linear_combination ((fullMant a).toNat * (fullMant b).toNat : ℚ) * hpow

theorem sign_mul_val (ha : Normal a) (hb : Normal b) :
    (if val a * val b < 0 then 1 else 0) = getSign a ^^^ getSign b := by
  have hsa := getSign_lt a
  have hsb := getSign_lt b
  have hna := ha.val_neg_iff
  have hnb := hb.val_neg_iff
  have hpa : 0 < val a ↔ ¬ val a < 0 := ⟨fun h => not_lt.2 h.le, fun h =>
    lt_of_le_of_ne (not_lt.1 h) ha.val_ne_zero.symm⟩
  have hpb : 0 < val b ↔ ¬ val b < 0 := ⟨fun h => not_lt.2 h.le, fun h =>
    lt_of_le_of_ne (not_lt.1 h) hb.val_ne_zero.symm⟩
  simp only [mul_neg_iff, hpa, hpb, hna, hnb]
  interval_cases getSign a <;> interval_cases getSign b <;> rfl

/-! ## The rounded product -/

theorem roundsTo_mul (ha : Normal a) (hb : Normal b) {k s : ℕ}
    (h : getExp a + getExp b + s = k + 1076) (hlow : 2 ^ 52 ≤ mantProduct a b / 2 ^ s)
    (hhigh : mantProduct a b / 2 ^ s < 2 ^ 53)
    (htop : k * 2 ^ 52 + mantProduct a b / 2 ^ s < infinity)
    (hsign : getSign r = getSign a ^^^ getSign b)
    (hindex : index r = k * 2 ^ 52 + roundShift (mantProduct a b) s) :
    RoundsTo (val a * val b) r where
  sign := hsign.trans (sign_mul_val ha hb).symm
  nearest := hindex ▸ tiesToEven_binade hlow hhigh htop (abs_mul_val ha hb h)

theorem low_arith {p : ℕ} (hge : 2 ^ 104 ≤ p) (hlt : p < 2 ^ 105) (k : ℕ) :
    (k + 1) * 2 ^ 52 + (p / 2 ^ 52 - 2 ^ 52 + if 2 ^ 51 < p % 2 ^ 52 then 1 else 0) % 2 ^ 52 =
        k * 2 ^ 52 + roundShift p 52 ↔
      p + 2 ^ 51 < 2 ^ 105 ∧ ¬ (p % 2 ^ 52 = 2 ^ 51 ∧ Odd (p / 2 ^ 52)) := by
  unfold roundShift RoundsUp
  simp only [Nat.odd_iff]
  split_ifs <;> omega

theorem high_arith {p : ℕ} (hge : 2 ^ 105 ≤ p) (hlt : p < 2 ^ 106) (k : ℕ) :
    (k + 1) * 2 ^ 52 + (p / 2 ^ 53 - 2 ^ 52) % 2 ^ 52 = k * 2 ^ 52 + roundShift p 53 ↔
      p % 2 ^ 53 < 2 ^ 52 ∨ p % 2 ^ 53 = 2 ^ 52 ∧ Even (p / 2 ^ 53) := by
  unfold roundShift RoundsUp
  simp only [Nat.odd_iff, Nat.even_iff]
  split_ifs <;> omega

theorem muldf3_low (ha : Normal a) (hb : Normal b) (hp : mantProduct a b < 2 ^ 105) :
    ∃ m, muldf3 a b = pack (getExp a + getExp b - 1023) m (getSign a ^^^ getSign b) ∧
      m.toNat = mantProduct a b / 2 ^ 52 - 2 ^ 52 +
        if 2 ^ 51 < mantProduct a b % 2 ^ 52 then 1 else 0 := by
  obtain ⟨hlo, hwords⟩ := product_words ha hb
  rw [muldf3_normal ha hb]
  exact normalize_low hlo hwords (mantProduct_bounds ha hb).1 hp _ _

theorem muldf3_high (ha : Normal a) (hb : Normal b) (hp : 2 ^ 105 ≤ mantProduct a b) :
    ∃ m, muldf3 a b = pack (getExp a + getExp b - 1023 + 1) m (getSign a ^^^ getSign b) ∧
      m.toNat = mantProduct a b / 2 ^ 53 - 2 ^ 52 := by
  obtain ⟨hlo, hwords⟩ := product_words ha hb
  rw [muldf3_normal ha hb]
  exact normalize_high hlo hwords hp (mantProduct_bounds ha hb).2 _ _

/-- A packed product against the rounded one, whose exponent is in range as that is normal. -/
theorem pack_product_iff (ha : Normal a) (hb : Normal b) (hr : Normal r)
    (h : RoundsTo (val a * val b) r) {k s : ℕ} (hexp : getExp a + getExp b + s = k + 1076)
    (hlow : 2 ^ 52 ≤ mantProduct a b / 2 ^ s) (hhigh : mantProduct a b / 2 ^ s < 2 ^ 53) {e : ℤ}
    (he : e = (k + 1 : ℕ)) (m : BitVec 64) :
    pack e m (getSign a ^^^ getSign b) = r ↔
      (k + 1) * 2 ^ 52 + m.toNat % 2 ^ 52 = k * 2 ^ 52 + roundShift (mantProduct a b) s := by
  have hsign : getSign r = getSign a ^^^ getSign b := h.sign.trans (sign_mul_val ha hb)
  have hindex := h.index_eq hr hlow hhigh (abs_mul_val ha hb hexp)
  have hround : 2 ^ 52 ≤ roundShift (mantProduct a b) s := hlow.trans (Nat.le_add_right _ _)
  have hlt := hr.index_lt
  unfold infinity at hlt
  rw [he, pack_eq_iff k.succ_pos (by omega) m hsign, hindex]

theorem muldf3_eq_iff (ha : Normal a) (hb : Normal b) (hr : Normal r)
    (h : RoundsTo (val a * val b) r) : muldf3 a b = r ↔ MulRounds a b := by
  obtain ⟨hge, hlt⟩ := mantProduct_bounds ha hb
  unfold MulRounds
  dsimp only
  split_ifs with hp
  · obtain ⟨m, hm, hmant⟩ := muldf3_low ha hb hp
    rw [hm]
    rcases Nat.lt_or_ge (getExp a + getExp b) 1024 with hsmall | hexp
    · exact iff_of_false (pack_ne_of_nonpos (by omega) hr _ _) fun hc => absurd hc.1 (by omega)
    · obtain ⟨k, hk⟩ := Nat.exists_eq_add_of_le' hexp
      rw [pack_product_iff ha hb hr h (k := k) (s := 52) (by omega) (by omega) (by omega)
        (by omega), hmant, and_iff_right hexp]
      exact low_arith hge hp k
  · have hp' := not_lt.1 hp
    obtain ⟨m, hm, hmant⟩ := muldf3_high ha hb hp'
    rw [hm]
    rcases Nat.lt_or_ge (getExp a + getExp b) 1023 with hsmall | hexp
    · exact iff_of_false (pack_ne_of_nonpos (by omega) hr _ _) fun hc => absurd hc.1 (by omega)
    · obtain ⟨k, hk⟩ := Nat.exists_eq_add_of_le' hexp
      rw [pack_product_iff ha hb hr h (k := k) (s := 53) (by omega) (by omega) (by omega)
        (by omega), hmant, and_iff_right hexp]
      exact high_arith hp' hlt k

/-- `1.5 * 1.5 = 2.25` -/
theorem muldf3_square : muldf3 0x3FF8000000000000 0x3FF8000000000000 = 0x4002000000000000 :=
  (muldf3_eq_iff (by decide) (by decide) (by decide) (roundsTo_mul (k := 1023) (s := 53)
    (by decide) (by decide) (by decide) (by decide) (by decide) (by decide) (by decide)
    (by decide))).2 (by decide)

/-- `(1 + 2 ^ -52) * 1.5` is a tie with an odd last bit. -/
theorem muldf3_not_rounded :
    ¬ ∀ a b r, Normal a → Normal b → Normal r → RoundsTo (val a * val b) r → muldf3 a b = r := by
  intro h
  have hr : RoundsTo (val 0x3FF0000000000001 * val 0x3FF8000000000000) 0x3FF8000000000002 :=
    roundsTo_mul (k := 1022) (s := 52) (by decide) (by decide) (by decide) (by decide) (by decide)
      (by decide) (by decide) (by decide)
  exact absurd (h _ _ _ (by decide) (by decide) (by decide) hr) (by decide)

end Herve.Softfloat
