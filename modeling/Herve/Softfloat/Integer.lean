import Herve.Softfloat.Classes

/-! Conversion from and to 32 bit integers. -/

namespace Herve.Softfloat

variable {a : BitVec 64} {u n : BitVec 32}

/-! ## From integers -/

/-- The loop shifts the leading 1 to bit 52 and stops there. -/
theorem floatLoop (i : ℕ) {m : BitVec 64} (e : ℤ) (hlow : 2 ^ 52 ≤ m.toNat * 2 ^ i)
    (hhigh : m.toNat < 2 ^ 53) :
    ∃ k ≤ i, ∃ r : BitVec 64, BreakLoop.loop floatBody (i + 1) (m, e) = (k, (r, e - k)) ∧
      r.toNat = m.toNat * 2 ^ k ∧ 2 ^ 52 ≤ r.toNat ∧ r.toNat < 2 ^ 53 := by
  induction i generalizing m e with
  | zero =>
    rw [pow_zero, Nat.mul_one] at hlow
    have hbody : floatBody (m, e) = (false, (m, e)) :=
      if_neg fun h => hlow.not_gt ((and_bit52_eq_zero hhigh).1 h)
    refine ⟨0, le_rfl, m, ?_, ?_, hlow, hhigh⟩
    · rw [BreakLoop.loop_succ_false (by rw [hbody]), hbody, Nat.cast_zero, sub_zero]
    · rw [pow_zero, Nat.mul_one]
  | succ i ih =>
    by_cases hlt : m.toNat < 2 ^ 52
    · have hbody : floatBody (m, e) = (true, (m <<< 1, e - 1)) :=
        if_pos ((and_bit52_eq_zero hhigh).2 hlt)
      have hshift : (m <<< 1).toNat = m.toNat * 2 := by
        rw [toNat_shiftLeft]
        omega
      have hnext : 2 ^ 52 ≤ (m <<< 1).toNat * 2 ^ i := by
        rw [hshift, Nat.mul_assoc, ← Nat.pow_succ']
        exact hlow
      obtain ⟨k, hk, r, hloop, hr, hbounds⟩ := ih (e - 1) hnext (by omega)
      refine ⟨k + 1, Nat.succ_le_succ hk, r, ?_, ?_, hbounds⟩
      · rw [BreakLoop.loop_succ_true (by rw [hbody]), hbody, hloop, Nat.cast_succ, sub_sub,
          add_comm 1]
      · rw [hr, hshift, Nat.mul_assoc, ← Nat.pow_succ']
    · have hbody : floatBody (m, e) = (false, (m, e)) :=
        if_neg fun h => hlt ((and_bit52_eq_zero hhigh).1 h)
      refine ⟨0, Nat.zero_le _, m, ?_, ?_, not_lt.1 hlt, hhigh⟩
      · rw [BreakLoop.loop_succ_false (by rw [hbody]), hbody, Nat.cast_zero, sub_zero]
      · rw [pow_zero, Nat.mul_one]

theorem toNat_pos (h : u ≠ 0) : 0 < u.toNat :=
  Nat.pos_of_ne_zero fun h0 => h (word_eq_zero_iff.2 h0)

/-- An integer `u` with `k` zeros before its leading 1 gets the exponent `1054 - k`. -/
theorem toNat_floatunsidf (h : u ≠ 0) :
    ∃ k, 21 ≤ k ∧ k ≤ 52 ∧ 2 ^ 52 ≤ u.toNat * 2 ^ k ∧ u.toNat * 2 ^ k < 2 ^ 53 ∧
      (floatunsidf u).toNat = (1053 - k) * 2 ^ 52 + u.toNat * 2 ^ k := by
  have hpos := toNat_pos h
  have hlt := u.isLt
  have hwide : (u.setWidth 64).toNat = u.toNat := by
    rw [BitVec.toNat_setWidth]
    omega
  obtain ⟨k, -, r, hloop, hr, hlow, hhigh⟩ := floatLoop 63 (m := u.setWidth 64) (1023 + 31)
    (by rw [hwide]; omega) (by omega)
  rw [hwide] at hr
  rw [hr] at hlow hhigh
  have hk : k ≤ 52 := by
    by_contra hgt
    have hpow : 2 ^ 53 ≤ 2 ^ k := Nat.pow_le_pow_right Nat.two_pos (not_le.1 hgt)
    exact hhigh.not_ge (hpow.trans (Nat.le_mul_of_pos_left _ hpos))
  have hk' : 21 ≤ k := by
    by_contra hlt'
    have hpow : 2 ^ k ≤ 2 ^ 20 := Nat.pow_le_pow_right Nat.two_pos (by omega)
    exact (Nat.mul_lt_mul_of_lt_of_le hlt hpow (Nat.two_pow_pos 20)).not_ge hlow
  refine ⟨k, hk', hk, hlow, hhigh, ?_⟩
  have hexp : (BitVec.ofInt 64 (1023 + 31 - k) <<< 52).toNat = (1054 - k) * 2 ^ 52 := by
    rw [show (1023 + 31 - k : ℤ) = ((1054 - k : ℕ) : ℤ) by omega, BitVec.ofInt_natCast,
      toNat_shiftLeft, BitVec.toNat_ofNat]
    omega
  have hmant := toNat_and_mantMask r
  unfold floatunsidf
  rw [if_neg h, hloop]
  dsimp only
  rw [toNat_or (k := 52), hexp, hmant, hr]
  · omega
  · rw [hexp]
    exact Nat.mul_mod_left _ _
  · rw [hmant]
    exact Nat.mod_lt _ (by decide)

/-- The fields of a converted integer of magnitude `c` and sign `s`, with `k` as above. -/
structure FloatsTo (c s k : ℕ) (x : BitVec 64) : Prop where
  low : 21 ≤ k
  high : k ≤ 52
  sign : getSign x = s
  exp : getExp x = 1054 - k
  mant : (fullMant x).toNat = c * 2 ^ k

theorem floatsTo_of_toNat {c s k : ℕ} (h21 : 21 ≤ k) (h52 : k ≤ 52) (hlow : 2 ^ 52 ≤ c * 2 ^ k)
    (hhigh : c * 2 ^ k < 2 ^ 53)
    (h : a.toNat = s * 2 ^ 63 + ((1053 - k) * 2 ^ 52 + c * 2 ^ k)) : FloatsTo c s k a := by
  have hexp : getExp a = 1054 - k := by
    rw [getExp_eq]
    omega
  refine ⟨h21, h52, ?_, hexp, ?_⟩
  · rw [getSign_eq]
    omega
  · rw [toNat_fullMant (by omega), toNat_getMant]
    omega

theorem floatunsidf_floatsTo (h : u ≠ 0) : ∃ k, FloatsTo u.toNat 0 k (floatunsidf u) := by
  obtain ⟨k, h21, h52, hlow, hhigh, hval⟩ := toNat_floatunsidf h
  refine ⟨k, floatsTo_of_toNat h21 h52 hlow hhigh ?_⟩
  rw [hval, Nat.zero_mul, Nat.zero_add]

theorem floatsidf_floatsTo (h : n ≠ 0) :
    ∃ k, FloatsTo n.toInt.natAbs (if n.toInt < 0 then 1 else 0) k (floatsidf n) := by
  have hpos := toNat_pos h
  have hlt := n.isLt
  have hint := BitVec.toInt_eq_toNat_cond n
  unfold floatsidf
  rw [if_neg h]
  by_cases hneg : n.toInt < 0
  · have habs : (-n).toNat = n.toInt.natAbs := by
      rw [BitVec.toNat_neg]
      split_ifs at hint <;> omega
    have hne : -n ≠ 0 := fun h0 => h (BitVec.neg_eq_zero_iff.1 h0)
    obtain ⟨k, h21, h52, hlow, hhigh, hval⟩ := toNat_floatunsidf hne
    rw [habs] at hlow hhigh hval
    rw [if_pos hneg, if_pos hneg]
    refine ⟨k, floatsTo_of_toNat h21 h52 hlow hhigh ?_⟩
    rw [BitVec.or_comm, toNat_or (k := 63) (by decide) (by omega), hval, Nat.one_mul]
    rfl
  · have habs : n.toNat = n.toInt.natAbs := by
      split_ifs at hint <;> omega
    rw [if_neg hneg, if_neg hneg, ← habs]
    exact floatunsidf_floatsTo h

section Converted
variable {c s k : ℕ} (h : FloatsTo c s k a)
include h

theorem FloatsTo.normal : Normal a := by
  have := h.low
  have := h.high
  rw [Normal, h.exp]
  omega

/-- The exponent is too small by 21. -/
theorem FloatsTo.abs_val : |val a| = c / 2 ^ 21 := by
  have hexp : getExp a - 1 = 1053 - k := by
    rw [h.exp]
    omega
  have hpow : (2 : ℚ) ^ k * 2 ^ (1053 - k) * 2 ^ 21 = 2 ^ 1074 := by
    have := h.high
    rw [← pow_add, ← pow_add]
    congr 1
    omega
  rw [h.normal.abs_val, h.mant, hexp, Nat.cast_mul, Nat.cast_pow, Nat.cast_ofNat, ← hpow]
  field_simp

theorem FloatsTo.val_eq : val a = (if s = 0 then (c : ℚ) else -c) / 2 ^ 21 := by
  have habs := h.abs_val
  rw [Softfloat.abs_val] at habs
  split_ifs with hs
  · rw [val_of_sign_zero (h.sign.trans hs), habs]
  · rw [val_of_sign_ne (h.sign ▸ hs), habs, neg_div]

end Converted

theorem val_floatunsidf (u : BitVec 32) : val (floatunsidf u) = u.toNat / 2 ^ 21 := by
  by_cases h : u = 0
  · rw [h, show floatunsidf 0 = 0 from if_pos rfl, val_zero,
      show (0 : BitVec 32).toNat = 0 from rfl, Nat.cast_zero, zero_div]
  · obtain ⟨k, hk⟩ := floatunsidf_floatsTo h
    rw [hk.val_eq, if_pos rfl]

theorem val_floatsidf (n : BitVec 32) : val (floatsidf n) = n.toInt / 2 ^ 21 := by
  by_cases h : n = 0
  · rw [h, show floatsidf 0 = 0 from if_pos rfl, val_zero, show (0 : BitVec 32).toInt = 0 from rfl,
      Int.cast_zero, zero_div]
  · obtain ⟨k, hk⟩ := floatsidf_floatsTo h
    rw [hk.val_eq, Nat.cast_natAbs]
    by_cases hneg : n.toInt < 0
    · rw [if_pos hneg, if_neg one_ne_zero, abs_of_neg hneg, Int.cast_neg, neg_neg]
    · rw [if_neg hneg, if_pos rfl, abs_of_nonneg (not_lt.1 hneg)]

/-! ## To integers -/

theorem fixShift_eq (a : BitVec 64) : fixShift a = 1075 - getExp a := by
  unfold fixShift
  ring

section Shifted
variable (undef : BitVec 64 → ℕ → BitVec 64) (ha : Normal a)
include ha

theorem fixdfsi_overflow (h : 1075 < getExp a) :
    fixdfsi undef a = if getSign a ≠ 0 then 0x80000000 else 0x7FFFFFFF := by
  have hexp := ha.2
  have hshift := fixShift_eq a
  unfold fixdfsi
  dsimp only
  rw [if_neg fun hz => ha.exp_ne_zero hz.1, if_neg (by omega), if_pos (by omega)]

theorem fixdfsi_shift (h : getExp a ≤ 1075) {r : BitVec 32}
    (hr : (if 1075 - getExp a < 64 then fullMant a >>> (1075 - getExp a)
      else undef (fullMant a) (1075 - getExp a)).setWidth 32 = r) :
    fixdfsi undef a = if getSign a ≠ 0 then -r else r := by
  have hexp := ha.2
  have hmant : getMant a ||| bit52 = fullMant a := (if_pos ha.exp_ne_zero).symm
  have hshift : fixShift a = (1075 - getExp a : ℕ) := by
    rw [fixShift_eq]
    omega
  have hlt : ((1075 - getExp a : ℕ) : ℤ) < 64 ↔ 1075 - getExp a < 64 := by omega
  subst hr
  unfold fixdfsi
  dsimp only
  rw [if_neg fun hz => ha.exp_ne_zero hz.1, if_neg (by omega), hshift, if_neg (by omega), hmant,
    Int.toNat_natCast]
  simp only [hlt]

/-- From `2 ^ -11` on the shift is defined, and the lower half of the integer part is returned. -/
theorem fixdfsi_of_exp (hlow : 1012 ≤ getExp a) (h : getExp a ≤ 1075) :
    fixdfsi undef a =
      if getSign a ≠ 0 then -BitVec.ofNat 32 ((fullMant a).toNat / 2 ^ (1075 - getExp a))
      else BitVec.ofNat 32 ((fullMant a).toNat / 2 ^ (1075 - getExp a)) := by
  refine fixdfsi_shift undef ha h ?_
  rw [if_pos (by omega)]
  refine BitVec.eq_of_toNat_eq ?_
  rw [BitVec.toNat_setWidth, toNat_shiftRight, BitVec.toNat_ofNat]

end Shifted

theorem fixdfsi_zero (undef : BitVec 64 → ℕ → BitVec 64) (h : IsZero a) : fixdfsi undef a = 0 :=
  if_pos h

/-! ## There and back -/

/-- The magnitude is divided by `2 ^ 21`; below `2 ^ 10` the shift is undefined. -/
theorem fixdfsi_floatsTo {c s k : ℕ} (h : FloatsTo c s k a) :
    ∃ q, q ≤ c / 2 ^ 21 ∧ fixdfsi (fun _ _ => 0) a =
      if s ≠ 0 then -BitVec.ofNat 32 q else BitVec.ofNat 32 q := by
  have hlow := h.low
  have hexp := h.exp
  have hshift : 1075 - getExp a = k + 21 := by
    have := h.high
    omega
  have hdiv : c * 2 ^ k / 2 ^ (k + 21) = c / 2 ^ 21 := by
    rw [pow_add, Nat.mul_comm, Nat.mul_div_mul_left _ _ (Nat.two_pow_pos k)]
  rw [← h.sign]
  rcases Nat.lt_or_ge (getExp a) 1012 with hsmall | hlarge
  · refine ⟨0, Nat.zero_le _, fixdfsi_shift _ h.normal (by omega) ?_⟩
    rw [if_neg (by omega)]
    rfl
  · refine ⟨_, le_rfl, ?_⟩
    rw [fixdfsi_of_exp _ h.normal hlarge (by omega), h.mant, hshift, hdiv]

theorem fixdfsi_floatsidf_iff (n : BitVec 32) :
    (∀ undef, fixdfsi undef (floatsidf n) = n) ↔ n = 0 := by
  constructor
  · intro h
    by_contra hne
    obtain ⟨k, hk⟩ := floatsidf_floatsTo hne
    obtain ⟨q, hq, hfix⟩ := fixdfsi_floatsTo hk
    have hint := BitVec.toInt_eq_toNat_cond n
    have hlt := n.isLt
    have hpos := toNat_pos hne
    have hword : (BitVec.ofNat 32 q).toNat = q := by
      rw [BitVec.toNat_ofNat]
      split_ifs at hint <;> omega
    rw [h] at hfix
    by_cases hneg : n.toInt < 0
    · rw [if_pos hneg, if_pos one_ne_zero] at hfix
      have hq' : q = (-n).toNat := by rw [hfix, BitVec.neg_neg, hword]
      rw [BitVec.toNat_neg] at hq'
      split_ifs at hint <;> omega
    · rw [if_neg hneg, if_neg (not_not.2 rfl)] at hfix
      have hq' : q = n.toNat := by rw [hfix, hword]
      split_ifs at hint <;> omega
  · rintro rfl undef
    exact fixdfsi_zero undef (by decide)

theorem scaled_eq_iff (x : ℚ) : x / 2 ^ 21 = x ↔ x = 0 := by
  constructor
  · intro h
    linarith
  · rintro rfl
    exact zero_div _

/-- Of all the integers only zero is converted right. -/
theorem conversions_iff (u n : BitVec 32) :
    (val (floatunsidf u) = u.toNat ↔ u = 0) ∧ (val (floatsidf n) = n.toInt ↔ n = 0) ∧
      ((∀ undef, fixdfsi undef (floatsidf n) = n) ↔ n = 0) := by
  refine ⟨?_, ?_, fixdfsi_floatsidf_iff n⟩
  · rw [val_floatunsidf, scaled_eq_iff, Nat.cast_eq_zero]
    exact word_eq_zero_iff.symm
  · rw [val_floatsidf, scaled_eq_iff, Int.cast_eq_zero]
    exact BitVec.toInt_inj (y := 0)

/-- `1` is converted to `2 ^ -21`. -/
theorem one_not_converted :
    ¬ ∀ u n : BitVec 32, val (floatunsidf u) = u.toNat ∧ val (floatsidf n) = n.toInt ∧
      ∀ undef, fixdfsi undef (floatsidf n) = n := by
  intro h
  have hone := (h 1 1).1
  rw [val_floatunsidf] at hone
  exact absurd hone (by decide +kernel)

/-! ## Truncation -/

/-- Truncation toward zero. -/
def trunc (x : ℚ) : ℤ := if x < 0 then ⌈x⌉ else ⌊x⌋

def saturate (x : ℚ) : BitVec 32 :=
  if -2 ^ 31 ≤ trunc x ∧ trunc x ≤ 2 ^ 31 - 1 then BitVec.ofInt 32 (trunc x)
  else if x < 0 then 0x80000000 else 0x7FFFFFFF

/-- What the conversion of a finite number promises. -/
structure Fixes (a : BitVec 64) : Prop where
  value : ∀ undef, fixdfsi undef a = saturate (val a)
  shift : IsZero a ∨ fixShift a < 64

/-- Zero, or at least `2 ^ -11` in magnitude; and in the range of the result, or at least
`2 ^ 53`, or the lower half of the integer part is the bound by chance. -/
def FixRight (a : BitVec 64) : Prop :=
  IsZero a ∨ 1012 ≤ getExp a ∧ (1075 < getExp a ∨
    let q := ⌊|val a|⌋₊
    if getSign a = 0 then q < 2 ^ 31 ∨ q % 2 ^ 32 = 2 ^ 31 - 1
    else q ≤ 2 ^ 31 ∨ q % 2 ^ 32 = 2 ^ 31)

theorem saturate_of_nonneg {x : ℚ} (h : 0 ≤ x) :
    saturate x = if ⌊|x|⌋₊ < 2 ^ 31 then BitVec.ofNat 32 ⌊|x|⌋₊ else 0x7FFFFFFF := by
  have htrunc : trunc x = (⌊|x|⌋₊ : ℤ) := by
    rw [trunc, if_neg (not_lt.2 h), abs_of_nonneg h, Int.natCast_floor_eq_floor h]
  have hrange : (-2 ^ 31 ≤ trunc x ∧ trunc x ≤ 2 ^ 31 - 1) ↔ ⌊|x|⌋₊ < 2 ^ 31 := by
    rw [htrunc]
    omega
  unfold saturate
  rw [if_congr hrange rfl rfl, htrunc, BitVec.ofInt_natCast, if_neg (not_lt.2 h)]

theorem saturate_of_neg {x : ℚ} (h : x < 0) :
    saturate x = if ⌊|x|⌋₊ ≤ 2 ^ 31 then -BitVec.ofNat 32 ⌊|x|⌋₊ else 0x80000000 := by
  have htrunc : trunc x = -(⌊|x|⌋₊ : ℤ) := by
    rw [trunc, if_pos h, abs_of_neg h, Int.natCast_floor_eq_floor (neg_nonneg.2 h.le),
      ← Int.ceil_neg, neg_neg]
  have hrange : (-2 ^ 31 ≤ trunc x ∧ trunc x ≤ 2 ^ 31 - 1) ↔ ⌊|x|⌋₊ ≤ 2 ^ 31 := by
    rw [htrunc]
    omega
  unfold saturate
  rw [if_congr hrange rfl rfl, htrunc, BitVec.ofInt_neg, BitVec.ofInt_natCast, if_pos h]

theorem ofNat_saturates (q : ℕ) :
    BitVec.ofNat 32 q = (if q < 2 ^ 31 then BitVec.ofNat 32 q else 0x7FFFFFFF) ↔
      q < 2 ^ 31 ∨ q % 2 ^ 32 = 2 ^ 31 - 1 := by
  split_ifs with h
  · exact iff_of_true rfl (.inl h)
  · rw [or_iff_right h, ← BitVec.toNat_inj, BitVec.toNat_ofNat]
    rfl

theorem neg_ofNat_saturates (q : ℕ) :
    -BitVec.ofNat 32 q = (if q ≤ 2 ^ 31 then -BitVec.ofNat 32 q else 0x80000000) ↔
      q ≤ 2 ^ 31 ∨ q % 2 ^ 32 = 2 ^ 31 := by
  split_ifs with h
  · exact iff_of_true rfl (.inl h)
  · have hmin : (0x80000000 : BitVec 32).toNat = 2 ^ 31 := rfl
    rw [or_iff_right h, ← BitVec.toNat_inj, BitVec.toNat_neg, BitVec.toNat_ofNat, hmin]
    omega

theorem floor_abs_val (h : Normal a) (hle : getExp a ≤ 1075) :
    ⌊|val a|⌋₊ = (fullMant a).toNat / 2 ^ (1075 - getExp a) := by
  have hpow : (2 : ℚ) ^ (getExp a - 1) * 2 ^ (1075 - getExp a) = 2 ^ 1074 := by
    have := h.1
    rw [← pow_add]
    congr 1
    omega
  have hval : |val a| = ((fullMant a).toNat : ℚ) / (2 ^ (1075 - getExp a) : ℕ) := by
    rw [h.abs_val, ← hpow, Nat.cast_pow, Nat.cast_ofNat]
    field_simp
  rw [hval, Nat.floor_div_eq_div]

theorem floor_abs_val_large (h : Normal a) (hlt : 1075 < getExp a) :
    2 ^ 53 ≤ ⌊|val a|⌋₊ := by
  have hmant : (2 : ℚ) ^ 52 ≤ (fullMant a).toNat := by exact_mod_cast h.fullMant_bounds.1
  have hpow : (2 : ℚ) ^ 1075 ≤ 2 ^ (getExp a - 1) := pow_le_pow_right₀ one_le_two (by omega)
  refine Nat.le_floor ?_
  rw [h.abs_val, Nat.cast_pow, Nat.cast_ofNat]
  calc (2 : ℚ) ^ 53 = 2 ^ 52 * (2 ^ 1075 / 2 ^ 1074) := by
        rw [pow_succ 2 1074, mul_div_cancel_left₀ _ (by positivity), ← pow_succ]
    _ ≤ ((fullMant a).toNat : ℚ) * (2 ^ (getExp a - 1) / 2 ^ 1074) := by gcongr

theorem fixdfsi_eq_iff (undef : BitVec 64 → ℕ → BitVec 64) (h : Normal a)
    (hlow : 1012 ≤ getExp a) :
    fixdfsi undef a = saturate (val a) ↔ 1075 < getExp a ∨
      let q := ⌊|val a|⌋₊
      if getSign a = 0 then q < 2 ^ 31 ∨ q % 2 ^ 32 = 2 ^ 31 - 1
      else q ≤ 2 ^ 31 ∨ q % 2 ^ 32 = 2 ^ 31 := by
  have hsat : saturate (val a) =
      if getSign a = 0 then if ⌊|val a|⌋₊ < 2 ^ 31 then BitVec.ofNat 32 ⌊|val a|⌋₊ else 0x7FFFFFFF
      else if ⌊|val a|⌋₊ ≤ 2 ^ 31 then -BitVec.ofNat 32 ⌊|val a|⌋₊ else 0x80000000 := by
    by_cases hs : getSign a = 0
    · rw [if_pos hs, saturate_of_nonneg (val_nonneg_of_sign hs)]
    · have hlt := getSign_lt a
      rw [if_neg hs, saturate_of_neg (h.val_neg_iff.2 (by omega))]
  dsimp only
  rw [hsat]
  rcases Nat.lt_or_ge 1075 (getExp a) with hlarge | hle
  · have hfloor := floor_abs_val_large h hlarge
    rw [fixdfsi_overflow undef h hlarge, if_neg (show ¬ ⌊|val a|⌋₊ < 2 ^ 31 by omega),
      if_neg (show ¬ ⌊|val a|⌋₊ ≤ 2 ^ 31 by omega), ite_not]
    exact iff_of_true rfl (.inl hlarge)
  · rw [fixdfsi_of_exp undef h hlow hle, ← floor_abs_val h hle, or_iff_right (not_lt.2 hle),
      ite_not]
    by_cases hs : getSign a = 0
    · rw [if_pos hs, if_pos hs, if_pos hs]
      exact ofNat_saturates _
    · rw [if_neg hs, if_neg hs, if_neg hs]
      exact neg_ofNat_saturates _

theorem fixes_iff (ha : getExp a ≠ 2047) : Fixes a ↔ FixRight a := by
  have hshift := fixShift_eq a
  by_cases hz : IsZero a
  · refine iff_of_true ⟨fun undef => ?_, .inl hz⟩ (.inl hz)
    rw [fixdfsi_zero undef hz, isZero_iff_val.1 hz, saturate_of_nonneg le_rfl, abs_zero,
      Nat.floor_zero]
    rfl
  · unfold FixRight
    rw [or_iff_right hz]
    rcases Nat.lt_or_ge (getExp a) 1012 with hsmall | hlow
    · refine iff_of_false (fun h => ?_) fun h => hsmall.not_ge h.1
      have := h.shift.resolve_left hz
      omega
    · have hexp := getExp_lt a
      have hnormal : Normal a := ⟨by omega, by omega⟩
      rw [and_iff_right hlow]
      constructor
      · exact fun h => (fixdfsi_eq_iff (fun _ _ => 0) hnormal hlow).1 (h.value _)
      · exact fun h => ⟨fun undef => (fixdfsi_eq_iff undef hnormal hlow).2 h, .inr (by omega)⟩

/-- `-1.5` -/
theorem fixes_neg : Fixes 0xBFF8000000000000 := by
  refine (fixes_iff (by decide)).2 (.inr ⟨by decide, .inr ?_⟩)
  rw [if_neg (by decide)]
  exact .inl (by decide +kernel)

/-- `2 ^ 31` is converted to the least integer. -/
theorem not_fixes : ¬ ∀ a, getExp a ≠ 2047 → Fixes a := by
  intro h
  have hval := (h 0x41E0000000000000 (by decide)).value fun _ _ => 0
  exact absurd hval (by decide +kernel)

end Herve.Softfloat
