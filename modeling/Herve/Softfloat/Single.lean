import Herve.Softfloat.Compare

/-! Conversion from and to single precision. -/

namespace Herve.Softfloat
open Nearest

variable {a x : BitVec 64} {f r : BitVec 32}

/-! ## Single precision -/

def singleSign (f : BitVec 32) : ℕ := f.toNat / 2 ^ 31

def singleExp (f : BitVec 32) : ℕ := f.toNat / 2 ^ 23 % 2 ^ 8

def singleMant (f : BitVec 32) : ℕ := f.toNat % 2 ^ 23

def singleIndex (f : BitVec 32) : ℕ := f.toNat % 2 ^ 31

def singleGrid (i : ℕ) : ℚ := scaled 23 (2 ^ 149) i

/-- As a magnitude it is `2 ^ 128`. -/
def singleInfinity : ℕ := 255 * 2 ^ 23

def singleVal (f : BitVec 32) : ℚ :=
  if singleSign f = 0 then singleGrid (singleIndex f) else -singleGrid (singleIndex f)

def singleExtVal (f : BitVec 32) : WithBot (WithTop ℚ) :=
  if singleExp f = 255 then if singleSign f = 0 then ⊤ else ⊥
  else ((singleVal f : WithTop ℚ) : WithBot _)

def SingleNaN (f : BitVec 32) : Prop := singleExp f = 255 ∧ singleMant f ≠ 0
  deriving Decidable

def SingleSubnormal (f : BitVec 32) : Prop := singleExp f = 0 ∧ singleMant f ≠ 0
  deriving Decidable

/-- `r` is `x` rounded to nearest, ties to even. -/
structure RoundsToSingle (x : ℚ) (r : BitVec 32) : Prop where
  sign : singleSign r = if x < 0 then 1 else 0
  nearest : TiesToEven singleGrid singleInfinity |x| (singleIndex r)

theorem singleGrid_strictMono : StrictMono singleGrid := scaled_strictMono 23 (by positivity)

theorem singleSign_lt (f : BitVec 32) : singleSign f < 2 := by
  unfold singleSign
  omega

theorem singleExp_lt (f : BitVec 32) : singleExp f < 256 := Nat.mod_lt _ (by decide)

theorem singleMant_lt (f : BitVec 32) : singleMant f < 2 ^ 23 := Nat.mod_lt _ (by decide)

theorem singleIndex_eq (f : BitVec 32) :
    singleIndex f = singleExp f * 2 ^ 23 + singleMant f := by
  unfold singleIndex singleExp singleMant
  omega

theorem single_toNat (f : BitVec 32) : f.toNat = singleSign f * 2 ^ 31 + singleIndex f := by
  unfold singleSign singleIndex
  omega

theorem single_eq_iff {s i : ℕ} (h : f.toNat = s * 2 ^ 31 + i) (hs : singleSign r = s) :
    f = r ↔ i = singleIndex r := by
  rw [← BitVec.toNat_inj, h, single_toNat r, hs, Nat.add_left_cancel_iff]

/-! ## Widening -/

/-- Three fields that do not overlap. -/
theorem toNat_fields {w j k : ℕ} {x y z : BitVec w} (hx : x.toNat % 2 ^ k = 0)
    (hy : y.toNat < 2 ^ k) (hxy : (x.toNat + y.toNat) % 2 ^ j = 0) (hz : z.toNat < 2 ^ j) :
    (x ||| y ||| z).toNat = x.toNat + y.toNat + z.toNat := by
  have hor := toNat_or hx hy
  rw [← hor] at hxy ⊢
  exact toNat_or hxy hz

/-- The lower bits of a widened pattern: the exponent of a subnormal number is not adjusted. -/
def wideIndex (f : BitVec 32) : ℕ :=
  if singleIndex f = 0 then 0
  else if singleExp f = 255 then infinity
  else 896 * 2 ^ 52 + singleIndex f * 2 ^ 29

theorem toNat_sign (f : BitVec 32) :
    (BitVec.ofNat 64 (f >>> 31).toNat <<< 63).toNat = singleSign f * 2 ^ 63 := by
  have hlt := singleSign_lt f
  rw [toNat_shiftLeft, BitVec.toNat_ofNat, toNat_shiftRight]
  change singleSign f % 2 ^ 64 * 2 ^ 63 % 2 ^ 64 = _
  omega

theorem toNat_extendsfdf2 (h : ¬ SingleNaN f) :
    (extendsfdf2 f).toNat = singleSign f * 2 ^ 63 + wideIndex f := by
  have hsign := toNat_sign f
  have hslt := singleSign_lt f
  have helt := singleExp_lt f
  have hmlt := singleMant_lt f
  have hindex := singleIndex_eq f
  have hexp : ((f >>> 23) &&& 0xFF).toNat = singleExp f := by
    rw [show (0xFF : BitVec 32) = BitVec.ofNat 32 (2 ^ 8 - 1) from rfl, toNat_and_ones (by decide),
      toNat_shiftRight]
    rfl
  have hmant : (f &&& 0x7FFFFF).toNat = singleMant f := toNat_and_ones (k := 23) (by decide) f
  have hzero : f &&& 0x7FFFFF = 0 ↔ singleMant f = 0 := by
    rw [word_eq_zero_iff, hmant]
  have hzeros : singleExp f = 0 ∧ f &&& 0x7FFFFF = 0 ↔ singleIndex f = 0 := by
    rw [hzero]
    omega
  unfold extendsfdf2 wideIndex
  dsimp only
  rw [hexp, if_congr hzeros rfl rfl]
  by_cases h0 : singleIndex f = 0
  · rw [if_pos h0, if_pos h0, hsign, Nat.add_zero]
  rw [if_neg h0, if_neg h0]
  by_cases h255 : singleExp f = 255
  · have hm0 : singleMant f = 0 := not_not.1 fun hm => h ⟨h255, hm⟩
    rw [if_pos h255, if_pos h255, if_pos (hzero.2 hm0), toNat_or (k := 63), hsign]
    · rfl
    · rw [hsign]
      exact Nat.mul_mod_left _ _
    · decide
  · have hwide : (BitVec.ofNat 64 (singleExp f + (1023 - 127)) <<< 52).toNat =
        (singleExp f + 896) * 2 ^ 52 := by
      rw [toNat_shiftLeft, BitVec.toNat_ofNat]
      omega
    have hlow : ((f &&& 0x7FFFFF).setWidth 64 <<< 29).toNat = singleMant f * 2 ^ 29 := by
      rw [toNat_shiftLeft, BitVec.toNat_setWidth, hmant]
      omega
    rw [if_neg h255, if_neg h255, toNat_fields (k := 63) (j := 52), hsign, hwide, hlow]
    · omega
    · rw [hsign]
      exact Nat.mul_mod_left _ _
    · omega
    · omega
    · omega

/-! ## Narrowing -/

theorem toNat_single_sign (a : BitVec 64) :
    (BitVec.ofNat 32 (getSign a) <<< 31).toNat = getSign a * 2 ^ 31 := by
  have hlt := getSign_lt a
  rw [toNat_shiftLeft, BitVec.toNat_ofNat]
  omega

theorem toNat_single_inf (a : BitVec 64) :
    ((BitVec.ofNat 32 (getSign a) <<< 31) ||| 0x7F800000).toNat =
      getSign a * 2 ^ 31 + singleInfinity := by
  have hsign := toNat_single_sign a
  rw [toNat_or (k := 31), hsign]
  · rfl
  · rw [hsign]
    exact Nat.mul_mod_left _ _
  · decide

theorem toNat_packSingle {e : ℕ} (he : e < 256) (m : BitVec 32) (a : BitVec 64) :
    (packSingle e m (getSign a)).toNat =
      getSign a * 2 ^ 31 + (e * 2 ^ 23 + m.toNat % 2 ^ 23) := by
  have hsign := toNat_single_sign a
  have hexp : (BitVec.ofInt 32 e <<< 23).toNat = e * 2 ^ 23 := by
    rw [BitVec.ofInt_natCast, toNat_shiftLeft, BitVec.toNat_ofNat]
    omega
  have hmant : (m &&& 0x7FFFFF).toNat = m.toNat % 2 ^ 23 := toNat_and_ones (k := 23) (by decide) m
  unfold packSingle
  rw [toNat_fields (k := 31) (j := 23), hsign, hexp, hmant, Nat.add_assoc]
  · rw [hsign]
    exact Nat.mul_mod_left _ _
  · omega
  · omega
  · omega

theorem truncdfsf2_large (h : ¬ IsNaN a) (hexp : 1151 ≤ getExp a) :
    (truncdfsf2 a).toNat = getSign a * 2 ^ 31 + singleInfinity := by
  rw [← toNat_single_inf]
  unfold truncdfsf2
  dsimp only
  by_cases hinf : getExp a = 2047
  · rw [if_pos hinf, if_pos (not_not.1 fun hm => h ⟨hinf, hm⟩)]
  · rw [if_neg hinf, if_neg fun hz => absurd hz.1 (by omega),
      if_pos (show (getExp a - 1023 + 127 : ℤ) ≥ 255 by omega)]

theorem truncdfsf2_small (hexp : getExp a ≤ 896) :
    (truncdfsf2 a).toNat = getSign a * 2 ^ 31 := by
  rw [← toNat_single_sign]
  unfold truncdfsf2
  dsimp only
  rw [if_neg (by omega), if_neg (show ¬ (getExp a - 1023 + 127 : ℤ) ≥ 255 by omega),
    if_pos (show (getExp a - 1023 + 127 : ℤ) ≤ 0 by omega), ite_self]

theorem narrow_roundsUp (x : BitVec 64) :
    ((((x &&& 0x1FFFFFFF).setWidth 32 >>> 28) &&& 1 : BitVec 32) ≠ 0 ∧
      ((((x &&& 0x1FFFFFFF).setWidth 32 >>> 27) &&& 1 : BitVec 32) ≠ 0 ∨
        ((x &&& 0x1FFFFFFF).setWidth 32 &&& 0x7FFFFFF : BitVec 32) ≠ 0)) ↔
      2 ^ 28 < x.toNat % 2 ^ 29 := by
  have hextra : ((x &&& 0x1FFFFFFF).setWidth 32).toNat = x.toNat % 2 ^ 29 := by
    rw [BitVec.toNat_setWidth,
      show (0x1FFFFFFF : BitVec 64) = BitVec.ofNat 64 (2 ^ 29 - 1) from rfl,
      toNat_and_ones (by decide)]
    omega
  have hsticky : ((x &&& 0x1FFFFFFF).setWidth 32 &&& 0x7FFFFFF : BitVec 32) ≠ 0 ↔
      x.toNat % 2 ^ 29 % 2 ^ 27 ≠ 0 := by
    rw [ne_eq, word_eq_zero_iff, ← hextra]
    exact not_congr (Eq.congr_left (toNat_and_ones (k := 27) (by decide) _))
  rw [hsticky, and_one_ne_zero (by decide), and_one_ne_zero (by decide), toNat_shiftRight,
    toNat_shiftRight, hextra]
  omega

/-- A carry out of the mantissa moves on into the exponent. -/
theorem packSingle_carry {e q : ℕ} {m : BitVec 32} (hpos : 1 ≤ e) (he : e ≤ 254)
    (hm : m.toNat = q) (hlow : 2 ^ 23 ≤ q) (hhigh : q ≤ 2 ^ 24) (a : BitVec 64) :
    (if m &&& 0x1000000 ≠ 0 then packSingle (e + 1) (m >>> 1) (getSign a)
      else packSingle e m (getSign a)).toNat =
      getSign a * 2 ^ 31 + ((e - 1) * 2 ^ 23 + q) := by
  have hcarry : m &&& 0x1000000 ≠ 0 ↔ q = 2 ^ 24 := by
    rw [show (0x1000000 : BitVec 32) = BitVec.twoPow 32 24 by decide,
      and_bit_ne_zero (by decide), hm]
    omega
  rw [if_congr hcarry rfl rfl]
  split_ifs with hc
  · have hhalf : (m >>> 1).toNat = q / 2 := by
      rw [toNat_shiftRight, hm]
      rfl
    have hnext := toNat_packSingle (e := e + 1) (by omega) (m >>> 1) a
    rw [Nat.cast_succ, hhalf] at hnext
    rw [hnext]
    omega
  · rw [toNat_packSingle (by omega), hm]
    omega

/-- Rounded to the last bit that is kept, ties down. -/
theorem truncdfsf2_normal (hlow : 897 ≤ getExp a) (hhigh : getExp a ≤ 1150) :
    (truncdfsf2 a).toNat = getSign a * 2 ^ 31 + ((getExp a - 897) * 2 ^ 23 +
      ((fullMant a).toNat / 2 ^ 29 + if 2 ^ 28 < (fullMant a).toNat % 2 ^ 29 then 1 else 0)) := by
  have hnormal : Normal a := ⟨by omega, by omega⟩
  have hbounds := hnormal.fullMant_bounds
  have hmant : getMant a ||| bit52 = fullMant a := (if_pos hnormal.exp_ne_zero).symm
  have hexp : (getExp a - 1023 + 127 : ℤ) = (getExp a - 896 : ℕ) := by omega
  have htop : ((fullMant a >>> 29).setWidth 32).toNat = (fullMant a).toNat / 2 ^ 29 := by
    rw [BitVec.toNat_setWidth, toNat_shiftRight]
    omega
  have hq : (if 2 ^ 28 < (fullMant a).toNat % 2 ^ 29 then (fullMant a >>> 29).setWidth 32 + 1
      else (fullMant a >>> 29).setWidth 32 : BitVec 32).toNat = (fullMant a).toNat / 2 ^ 29 +
        if 2 ^ 28 < (fullMant a).toNat % 2 ^ 29 then 1 else 0 := by
    split_ifs
    · rw [toNat_add_one (by omega), htop]
    · exact htop
  unfold truncdfsf2
  dsimp only
  rw [if_neg (by omega), if_neg fun hz => hnormal.exp_ne_zero hz.1, hexp, if_neg (by omega),
    if_neg (by omega), hmant, if_congr (narrow_roundsUp _) rfl rfl,
    packSingle_carry (by omega) (by omega) hq (by split_ifs <;> omega) (by split_ifs <;> omega)]
  omega

/-! ## There and back -/

theorem sign_index_of_toNat {s i : ℕ} (hi : i < 2 ^ 63) (h : a.toNat = s * 2 ^ 63 + i) :
    getSign a = s ∧ index a = i := by
  rw [getSign_eq, index]
  omega

theorem wideIndex_lt (h : singleExp f ≠ 255) : wideIndex f < infinity := by
  have helt := singleExp_lt f
  have hmlt := singleMant_lt f
  have hindex := singleIndex_eq f
  unfold wideIndex infinity
  rw [if_neg h]
  split_ifs
  · decide
  · omega

theorem wideIndex_inf (h : singleExp f = 255) : wideIndex f = infinity := by
  have hindex := singleIndex_eq f
  unfold wideIndex
  rw [if_neg (by omega), if_pos h]

theorem wideIndex_le (f : BitVec 32) : wideIndex f ≤ infinity := by
  by_cases h : singleExp f = 255
  · exact (wideIndex_inf h).le
  · exact (wideIndex_lt h).le

theorem extendsfdf2_sign_index (h : ¬ SingleNaN f) :
    getSign (extendsfdf2 f) = singleSign f ∧ index (extendsfdf2 f) = wideIndex f :=
  sign_index_of_toNat ((wideIndex_le f).trans_lt (by decide)) (toNat_extendsfdf2 h)

/-- A finite number that is not zero is widened as if it were normal. -/
theorem grid_wideIndex (h0 : singleIndex f ≠ 0) (h255 : singleExp f ≠ 255) :
    grid (wideIndex f) * 2 ^ 150 = (2 ^ 23 + singleMant f : ℕ) * 2 ^ singleExp f := by
  have hmlt := singleMant_lt f
  have hindex : wideIndex f = (singleExp f + 895) * 2 ^ 52 + (2 ^ 23 + singleMant f) * 2 ^ 29 := by
    unfold wideIndex
    rw [if_neg h0, if_neg h255, singleIndex_eq]
    omega
  have hpow : (2 : ℚ) ^ 29 * 2 ^ (singleExp f + 895) * 2 ^ 150 =
      2 ^ singleExp f * 2 ^ 1074 := by
    rw [← pow_add, ← pow_add, ← pow_add]
    refine congrArg (fun n : ℕ => (2 : ℚ) ^ n) ?_
    omega
  have hne : (2 : ℚ) ^ 1074 ≠ 0 := pow_ne_zero _ two_ne_zero
  have hmant : (((2 ^ 23 + singleMant f) * 2 ^ 29 : ℕ) : ℚ) =
      (2 ^ 23 + singleMant f : ℕ) * 2 ^ 29 := by
    rw [Nat.cast_mul, Nat.cast_pow, Nat.cast_ofNat]
  rw [hindex, grid_binade (by omega) (.inr (by omega)), hmant]
  generalize (2 : ℚ) ^ 1074 = c at hpow hne ⊢
  rw [mul_assoc, mul_assoc, div_mul_eq_mul_div, ← mul_div_assoc, ← mul_assoc, hpow,
    mul_div_cancel_right₀ _ hne]

theorem singleGrid_normal (h : singleExp f ≠ 0) :
    singleGrid (singleIndex f) * 2 ^ 150 = (2 ^ 23 + singleMant f : ℕ) * 2 ^ singleExp f := by
  have hmlt := singleMant_lt f
  obtain ⟨e, he⟩ := Nat.exists_eq_succ_of_ne_zero h
  have hindex : singleIndex f = e * 2 ^ 23 + (2 ^ 23 + singleMant f) := by
    rw [singleIndex_eq, he]
    omega
  rw [hindex, singleGrid, scaled_binade (by omega) (.inr (by omega)), he,
    pow_succ (2 : ℚ) e]
  ring

theorem singleGrid_subnormal (h : singleExp f = 0) :
    singleGrid (singleIndex f) * 2 ^ 150 = (2 * singleMant f : ℕ) := by
  have hmlt := singleMant_lt f
  have hindex : singleIndex f = 0 * 2 ^ 23 + singleMant f := by
    rw [singleIndex_eq, h]
  rw [hindex, singleGrid, scaled_binade (by omega) (.inl rfl), Nat.cast_mul]
  ring

theorem grid_wideIndex_iff (h : singleExp f ≠ 255) :
    grid (wideIndex f) = singleGrid (singleIndex f) ↔ ¬ SingleSubnormal f := by
  have hindex := singleIndex_eq f
  by_cases h0 : singleIndex f = 0
  · refine iff_of_true ?_ fun hs => hs.2 (by omega)
    rw [wideIndex, if_pos h0, h0, grid_zero]
    exact (scaled_zero 23 _).symm
  have hwide := grid_wideIndex h0 h
  by_cases he : singleExp f = 0
  · refine iff_of_false (fun heq => ?_) (not_not.2 ⟨he, by omega⟩)
    rw [heq, singleGrid_subnormal he, he, pow_zero, mul_one, Nat.cast_inj] at hwide
    have := singleMant_lt f
    omega
  · refine iff_of_true ?_ fun hs => he hs.1
    exact mul_right_cancel₀ (pow_ne_zero 150 two_ne_zero) (hwide.trans (singleGrid_normal he).symm)

theorem extVal_widened_iff (h : ¬ SingleNaN f) :
    extVal (extendsfdf2 f) = singleExtVal f ↔ ¬ SingleSubnormal f := by
  obtain ⟨hs, hi⟩ := extendsfdf2_sign_index h
  by_cases h255 : singleExp f = 255
  · have hinf : IsInf (extendsfdf2 f) := isInf_iff_index.2 (hi.trans (wideIndex_inf h255))
    refine iff_of_true ?_ fun hsub => by rw [hsub.1] at h255; contradiction
    rw [extVal, if_pos hinf.1, singleExtVal, if_pos h255, hs]
  · have hexp : getExp (extendsfdf2 f) ≠ 2047 := by
      intro he
      have hlt := wideIndex_lt h255
      rw [← hi, index_eq, he, infinity] at hlt
      omega
    rw [extVal_finite hexp, singleExtVal, if_neg h255, WithBot.coe_inj, WithTop.coe_inj, val,
      singleVal, hs, hi, ← grid_wideIndex_iff h255]
    split_ifs
    · rfl
    · exact neg_inj

/-- The fields of a widened number that is finite and not zero. -/
theorem extendsfdf2_fields (h0 : singleIndex f ≠ 0) (h255 : singleExp f ≠ 255) :
    getExp (extendsfdf2 f) = singleExp f + 896 ∧
      (getMant (extendsfdf2 f)).toNat = singleMant f * 2 ^ 29 := by
  have hmlt := singleMant_lt f
  refine fields_of_index (by omega) ?_
  rw [(extendsfdf2_sign_index fun hn => h255 hn.1).2, wideIndex, if_neg h0, if_neg h255,
    singleIndex_eq]
  omega

theorem extendsfdf2_exp_zero (h : singleExp f = 0) : getExp (extendsfdf2 f) ≤ 896 := by
  by_cases h0 : singleIndex f = 0
  · have hi := (extendsfdf2_sign_index (f := f) fun hn => by rw [hn.1] at h; contradiction).2
    rw [wideIndex, if_pos h0] at hi
    exact (fields_of_index (e := 0) (m := 0) (by decide) hi).1 ▸ Nat.zero_le _
  · rw [(extendsfdf2_fields h0 (by omega)).1, h]

theorem narrowed_iff (h : ¬ SingleNaN f) :
    truncdfsf2 (extendsfdf2 f) = f ↔ ¬ SingleSubnormal f := by
  obtain ⟨hs, hi⟩ := extendsfdf2_sign_index h
  have hindex := singleIndex_eq f
  by_cases h255 : singleExp f = 255
  · have hinf : IsInf (extendsfdf2 f) := isInf_iff_index.2 (hi.trans (wideIndex_inf h255))
    have hm0 : singleMant f = 0 := not_not.1 fun hm => h ⟨h255, hm⟩
    have hexp : 1151 ≤ getExp (extendsfdf2 f) := by
      rw [hinf.1]
      decide
    rw [single_eq_iff (truncdfsf2_large hinf.not_isNaN hexp) hs.symm]
    unfold SingleSubnormal singleInfinity
    omega
  by_cases he : singleExp f = 0
  · have hval := truncdfsf2_small (extendsfdf2_exp_zero he)
    rw [← Nat.add_zero (_ * _)] at hval
    rw [single_eq_iff hval hs.symm]
    unfold SingleSubnormal
    omega
  · have helt := singleExp_lt f
    obtain ⟨hexp, hmant⟩ := extendsfdf2_fields (f := f) (by omega) h255
    have hval := truncdfsf2_normal (a := extendsfdf2 f) (by omega) (by omega)
    rw [toNat_fullMant (by omega), hmant, hexp] at hval
    rw [single_eq_iff hval hs.symm]
    unfold SingleSubnormal
    split_ifs <;> omega

/-- Widening keeps the value of every float but the subnormal ones, and so does the way back. -/
theorem widened_iff (h : ¬ SingleNaN f) :
    (extVal (extendsfdf2 f) = singleExtVal f ↔ ¬ SingleSubnormal f) ∧
      (truncdfsf2 (extendsfdf2 f) = f ↔ ¬ SingleSubnormal f) :=
  ⟨extVal_widened_iff h, narrowed_iff h⟩

/-- `-1.5` -/
theorem widened_neg :
    extVal (extendsfdf2 0xBFC00000) = singleExtVal 0xBFC00000 ∧
      truncdfsf2 (extendsfdf2 0xBFC00000) = 0xBFC00000 := by
  obtain ⟨hval, hback⟩ := widened_iff (f := 0xBFC00000) (by decide)
  exact ⟨hval.2 (by decide), hback.2 (by decide)⟩

/-- The least float comes back as zero. -/
theorem subnormal_not_widened :
    ¬ ∀ f, ¬ SingleNaN f →
      extVal (extendsfdf2 f) = singleExtVal f ∧ truncdfsf2 (extendsfdf2 f) = f := by
  intro h
  exact absurd (h 1 (by decide)).2 (by decide)

/-! ## Rounding -/

/-- The magnitude is at least `2 ^ -126`, and no tie whose last bit is odd; overflow is right. -/
def NarrowRounds (a : BitVec 64) : Prop :=
  1151 ≤ getExp a ∨ 897 ≤ getExp a ∧
    ¬ ((fullMant a).toNat % 2 ^ 29 = 2 ^ 28 ∧ Odd ((fullMant a).toNat / 2 ^ 29))
  deriving Decidable

theorem singleGrid_infinity : singleGrid singleInfinity = grid (1151 * 2 ^ 52) := by
  have hsingle : singleInfinity = 254 * 2 ^ 23 + 2 ^ 23 := by decide
  have hdouble : 1151 * 2 ^ 52 = 1150 * 2 ^ 52 + 2 ^ 52 := by decide
  have hpow : (2 : ℚ) ^ 1150 / 2 ^ 1074 = 2 ^ 76 := by
    rw [show 1150 = 76 + 1074 from rfl, pow_add, mul_div_cancel_right₀ _ (by positivity)]
  rw [hsingle, hdouble, singleGrid, scaled_binade (by decide) (.inr le_rfl),
    grid_binade (by decide) (.inr le_rfl), hpow]
  norm_num

theorem tiesToEven_narrowed (hlow : 897 ≤ getExp a) (hhigh : getExp a ≤ 1150) :
    TiesToEven singleGrid singleInfinity |val a|
      ((getExp a - 897) * 2 ^ 23 + roundShift (fullMant a).toNat 29) := by
  have hnormal : Normal a := ⟨by omega, by omega⟩
  have hbounds := hnormal.fullMant_bounds
  have hpow : (2 : ℚ) ^ (getExp a - 1) = 2 ^ (getExp a - 897) * 2 ^ 896 := by
    rw [← pow_add]
    congr 1
    omega
  have hscale : (2 : ℚ) ^ 896 / 2 ^ 1074 * 2 ^ 29 = 1 / 2 ^ 149 := by
    rw [show 1074 = 896 + (29 + 149) from rfl, pow_add, pow_add]
    field_simp
  refine tiesToEven_scaled (by decide) (by positivity) (by omega) (by omega) ?_ ?_
  · unfold singleInfinity
    omega
  · rw [hnormal.abs_val, hpow, mul_div_assoc, mul_assoc, mul_assoc, hscale, mul_one_div]

theorem sign_val (ha : Normal a) : (if val a < 0 then 1 else 0) = getSign a := by
  have hlt := getSign_lt a
  rw [if_congr ha.val_neg_iff rfl rfl]
  split_ifs <;> omega

theorem roundsToSingle_normal (hlow : 897 ≤ getExp a) (hhigh : getExp a ≤ 1150)
    (hsign : singleSign r = getSign a)
    (hindex : singleIndex r = (getExp a - 897) * 2 ^ 23 + roundShift (fullMant a).toNat 29) :
    RoundsToSingle (val a) r where
  sign := hsign.trans (sign_val ⟨by omega, by omega⟩).symm
  nearest := hindex ▸ tiesToEven_narrowed hlow hhigh

theorem RoundsToSingle.index_large (h : RoundsToSingle (val a) r) (hexp : 1151 ≤ getExp a) :
    singleIndex r = singleInfinity := by
  refine h.nearest.unique singleGrid_strictMono (tiesToEven_top singleGrid_strictMono ?_)
  rw [singleGrid_infinity, abs_val]
  refine grid_strictMono.monotone ?_
  rw [index_eq]
  exact (Nat.mul_le_mul_right _ hexp).trans (Nat.le_add_right _ _)

/-- Only a tie whose last bit is odd is rounded the wrong way. -/
theorem narrow_arith (k m : ℕ) :
    k + (m / 2 ^ 29 + if 2 ^ 28 < m % 2 ^ 29 then 1 else 0) = k + roundShift m 29 ↔
      ¬ (m % 2 ^ 29 = 2 ^ 28 ∧ Odd (m / 2 ^ 29)) := by
  unfold roundShift RoundsUp
  simp only [Nat.odd_iff]
  split_ifs <;> omega

theorem truncdfsf2_eq_iff (ha : getExp a ≠ 2047) (h : RoundsToSingle (val a) r)
    (hr : 2 ^ 23 ≤ singleIndex r) : truncdfsf2 a = r ↔ NarrowRounds a := by
  unfold NarrowRounds
  rcases Nat.lt_or_ge 1150 (getExp a) with hlarge | hle
  · have hexp := getExp_lt a
    have hsign := h.sign.trans (sign_val ⟨by omega, by omega⟩)
    refine iff_of_true ?_ (.inl hlarge)
    rw [single_eq_iff (truncdfsf2_large (fun hn => ha hn.1) hlarge) hsign, h.index_large hlarge]
  rw [or_iff_right (not_le.2 (Nat.lt_succ_of_le hle))]
  rcases Nat.lt_or_ge (getExp a) 897 with hsmall | hlow
  · refine iff_of_false ?_ fun hc => hsmall.not_ge hc.1
    rintro rfl
    rw [singleIndex, truncdfsf2_small (by omega), Nat.mul_mod_left] at hr
    omega
  · have hsign := h.sign.trans (sign_val ⟨by omega, by omega⟩)
    have hindex := h.nearest.unique singleGrid_strictMono (tiesToEven_narrowed hlow hle)
    rw [single_eq_iff (truncdfsf2_normal hlow hle) hsign, hindex, and_iff_right hlow]
    exact narrow_arith _ _

/-- `-(2 - 2 ^ -52)` is rounded up to `-2`. -/
theorem truncdfsf2_carry : truncdfsf2 0xBFFFFFFFFFFFFFFF = 0xC0000000 :=
  (truncdfsf2_eq_iff (by decide) (roundsToSingle_normal (by decide) (by decide) (by decide)
    (by decide)) (by decide)).2 (by decide)

/-- `1 + 2 ^ -23 + 2 ^ -24` is a tie with an odd last bit. -/
theorem truncdfsf2_not_rounded :
    ¬ ∀ a r, getExp a ≠ 2047 → RoundsToSingle (val a) r → 2 ^ 23 ≤ singleIndex r →
      truncdfsf2 a = r := by
  intro h
  have hr : RoundsToSingle (val 0x3FF0000030000000) 0x3F800002 :=
    roundsToSingle_normal (by decide) (by decide) (by decide) (by decide)
  exact absurd (h _ _ (by decide) hr (by decide)) (by decide)

end Herve.Softfloat
