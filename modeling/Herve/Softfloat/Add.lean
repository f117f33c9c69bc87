import Herve.Softfloat.Classes

/-! Addition of normal numbers with the same sign, and when it is rounded to nearest. -/

namespace Herve.Softfloat
open Nearest

/-! ## Alignment -/

theorem align_far {d : ℕ} (h : 63 < d) (m : BitVec 64) : align m d = 0 := if_pos h

/-- The bits that are shifted out set the last bit. -/
theorem toNat_align {m : BitVec 64} {d : ℕ} (h : d ≤ 53) :
    (align m d).toNat = m.toNat / 2 ^ d +
      if m.toNat % 2 ^ d ≠ 0 ∧ m.toNat / 2 ^ d % 2 = 0 then 1 else 0 := by
  have hsticky : flag (m &&& ((1#64 <<< d) - 1) ≠ 0) ≠ 0 ↔ m.toNat % 2 ^ d ≠ 0 := by
    rw [flag_ne_zero, ne_eq, word_eq_zero_iff, toNat_and_low (by omega)]
  unfold align
  rw [if_neg (by omega)]
  by_cases hd : d > 0
  · rw [if_pos hd, if_neg (not_lt.2 h)]
    rw [if_congr hsticky rfl rfl]
    split_ifs with h1 h2 h2
    · rw [toNat_or_one, toNat_shiftRight, if_neg (by omega)]
    · rw [toNat_or_one, toNat_shiftRight, if_pos (by omega), Nat.add_zero]
    · omega
    · rw [toNat_shiftRight, Nat.add_zero]
  · obtain rfl : d = 0 := by omega
    rw [if_neg hd, pow_zero, Nat.div_one, Nat.mod_one, if_neg fun hc => hc.1 rfl, Nat.add_zero]

/-- From a distance of 54 on nothing is left but the sticky bit. -/
theorem toNat_align_sticky {m : BitVec 64} {d : ℕ} (hm : m ≠ 0) (hlt : m.toNat < 2 ^ 53)
    (h : 53 < d) (hd : d ≤ 63) : (align m d).toNat = 1 := by
  have hzero : m.toNat / 2 ^ d = 0 :=
    Nat.div_eq_of_lt (hlt.trans (Nat.pow_lt_pow_right (by decide) h))
  unfold align
  rw [if_neg (by omega), if_pos (by omega)]
  dsimp only
  rw [if_pos h, if_pos (flag_ne_zero.2 hm), toNat_or_one, toNat_shiftRight, hzero]
  rfl

theorem toNat_align_le {m : BitVec 64} {d : ℕ} (hlt : m.toNat < 2 ^ 53) (h : d ≤ 53) :
    (align m d).toNat ≤ 2 ^ 53 - 1 := by
  have hq := Nat.div_le_self m.toNat (2 ^ d)
  rw [toNat_align h]
  split_ifs with hrem
  · have hd : 2 ^ 1 ≤ 2 ^ d := by
      refine Nat.pow_le_pow_right Nat.two_pos (Nat.one_le_iff_ne_zero.2 ?_)
      rintro rfl
      exact hrem.1 (Nat.mod_one _)
    have hhalf : m.toNat / 2 ^ d ≤ m.toNat / 2 ^ 1 := Nat.div_le_div_left hd (by decide)
    omega
  · omega

/-! ## The sum of the mantissas -/

/-- The lower bits of the sum, from the mantissas after the alignment. -/
def sumIndex (e t : ℕ) : ℕ :=
  if t < 2 ^ 53 then (e - 1) * 2 ^ 52 + t else e * 2 ^ 52 + (t / 2 + t % 2)

theorem sumIndex_of_le {e t : ℕ} (he : 1 ≤ e) (ht : t ≤ 2 ^ 53) :
    sumIndex e t = (e - 1) * 2 ^ 52 + t := by
  unfold sumIndex
  split_ifs <;> omega

theorem sumIndex_of_ge {e t : ℕ} (ht : 2 ^ 53 ≤ t) :
    sumIndex e t = e * 2 ^ 52 + (t / 2 + t % 2) := if_neg (not_lt.2 ht)

/-- The exponent and the mantissa after the carry, as the lower bits of a pattern. -/
theorem addMants_eq {ma mb : BitVec 64} {e t : ℕ} (ht : ma.toNat + mb.toNat = t)
    (hlow : 2 ^ 52 ≤ t) (hhigh : t ≤ 2 ^ 54 - 2) (he : 1 ≤ e) :
    1 ≤ (addMants ma mb e).1 ∧ 2 ^ 52 ≤ (addMants ma mb e).2.toNat ∧
      (addMants ma mb e).2.toNat < 2 ^ 53 ∧
      ((addMants ma mb e).1 - 1) * 2 ^ 52 + (addMants ma mb e).2.toNat = sumIndex e t := by
  have hsum : (ma + mb).toNat = t := by
    rw [BitVec.toNat_add]
    omega
  have hhalf : ((ma + mb) >>> 1).toNat = t / 2 := by
    rw [toNat_shiftRight, hsum]
    rfl
  have hnext : ((ma + mb) >>> 1 + 1).toNat = t / 2 + 1 := by
    rw [toNat_add_one (by omega), hhalf]
  have hbit : (ma + mb) &&& bit53 ≠ 0 ↔ 2 ^ 53 ≤ t := by
    rw [and_bit53_ne_zero (by omega), hsum]
  have hguard : (ma + mb) &&& 1 ≠ 0 ↔ t % 2 = 1 := by
    rw [and_one_ne_zero (by decide), hsum]
  unfold addMants sumIndex
  dsimp only
  rw [if_congr hbit rfl rfl, if_congr hguard rfl rfl]
  by_cases hcarry : 2 ^ 53 ≤ t
  · rw [if_pos hcarry, if_neg (not_lt.2 hcarry)]
    by_cases hodd : t % 2 = 1
    · have hround : ¬ ((ma + mb) >>> 1 + 1) &&& bit53 ≠ 0 := by
        rw [and_bit53_ne_zero (by omega), hnext]
        omega
      rw [if_pos hodd, if_neg hround]
      dsimp only
      rw [hnext, hodd]
      omega
    · rw [if_neg hodd]
      dsimp only
      rw [hhalf]
      omega
  · rw [if_neg hcarry, if_pos (not_le.1 hcarry)]
    dsimp only
    rw [hsum]
    omega

/-! ## The exact sum -/

variable {a b x y r : BitVec 64}

theorem abs_add_val (hx : Normal x) (hy : Normal y) (hle : getExp y ≤ getExp x)
    (hsign : getSign x = getSign y) {k s : ℕ} (h : getExp y - 1 + s = k) :
    |val x + val y| * 2 ^ s =
      ((fullMant x).toNat * 2 ^ (getExp x - getExp y) + (fullMant y).toNat : ℕ) *
        (2 ^ k / 2 ^ 1074) := by
  have habs : |val x + val y| = |val x| + |val y| := by
    rw [abs_add_eq_add_abs_iff]
    by_cases h0 : getSign x = 0
    · exact .inl ⟨val_nonneg_of_sign h0, val_nonneg_of_sign (hsign ▸ h0)⟩
    · exact .inr ⟨val_nonpos_of_sign h0, val_nonpos_of_sign (hsign ▸ h0)⟩
  have hexp : getExp x - 1 = getExp x - getExp y + (getExp y - 1) := by
    have := hy.1
    omega
  rw [habs, hx.abs_val, hy.abs_val, hexp, ← h, pow_add, pow_add]
  generalize (2 : ℚ) ^ 1074 = c
  push_cast
  ring

theorem sign_add_val (hx : Normal x) (hy : Normal y) (hsign : getSign x = getSign y) :
    (if val x + val y < 0 then 1 else 0) = getSign x := by
  have hlt := getSign_lt x
  by_cases h0 : getSign x = 0
  · rw [if_neg (not_lt.2 (add_nonneg (val_nonneg_of_sign h0) (val_nonneg_of_sign (hsign ▸ h0)))),
      h0]
  · have h1 : getSign x = 1 := by omega
    have hneg := add_neg (hx.val_neg_iff.2 h1) (hy.val_neg_iff.2 (hsign ▸ h1))
    rw [if_pos hneg, h1]

/-! ## Where the sticky bit rounds right -/

/-- What is shifted out of the mantissa `mb` makes rounding to nearest go up. -/
def SumRoundsUp (ma mb d : ℕ) : Prop :=
  2 ^ d < 2 * (mb % 2 ^ d) ∨ 2 * (mb % 2 ^ d) = 2 ^ d ∧ Odd (ma + mb / 2 ^ d)
  deriving Decidable

/-- The mantissa `mb` is shifted right by `d` and added to `ma`. -/
def AddRounds (ma mb d : ℕ) : Prop :=
  let q := mb / 2 ^ d
  63 < d ∨ d ≤ 53 ∧
    if ma + q < 2 ^ 53 then mb % 2 ^ d = 0 ∨ (Even q ↔ SumRoundsUp ma mb d)
    else if mb % 2 ^ d = 0 then (ma + q) % 4 ≠ 1 else Odd q ∨ Odd (ma + q)
  deriving Decidable

theorem sum_div (ma mb d : ℕ) : (ma * 2 ^ d + mb) / 2 ^ d = ma + mb / 2 ^ d := by
  rw [Nat.mul_comm, Nat.mul_add_div (Nat.two_pow_pos d)]

theorem sum_mod (ma mb d : ℕ) : (ma * 2 ^ d + mb) % 2 ^ d = mb % 2 ^ d := by
  rw [Nat.mul_comm, Nat.mul_add_mod]

theorem roundShift_sum (ma mb d : ℕ) :
    roundShift (ma * 2 ^ d + mb) d = ma + mb / 2 ^ d + if SumRoundsUp ma mb d then 1 else 0 := by
  have hup : RoundsUp (ma * 2 ^ d + mb) d ↔ SumRoundsUp ma mb d := by
    rw [RoundsUp, sum_div, sum_mod, SumRoundsUp]
  rw [roundShift, sum_div, if_congr hup rfl rfl]

theorem roundShift_carry (ma mb d : ℕ) :
    roundShift (ma * 2 ^ d + mb) (d + 1) = (ma + mb / 2 ^ d) / 2 +
      if Odd (ma + mb / 2 ^ d) ∧ (mb % 2 ^ d ≠ 0 ∨ Odd ((ma + mb / 2 ^ d) / 2)) then 1 else 0 := by
  have hdiv : (ma * 2 ^ d + mb) / 2 ^ (d + 1) = (ma + mb / 2 ^ d) / 2 := by
    rw [pow_succ, ← Nat.div_div_eq_div_mul, sum_div]
  have hup : RoundsUp (ma * 2 ^ d + mb) (d + 1) ↔
      Odd (ma + mb / 2 ^ d) ∧ (mb % 2 ^ d ≠ 0 ∨ Odd ((ma + mb / 2 ^ d) / 2)) := by
    have hrem := Nat.mod_lt mb (Nat.two_pow_pos d)
    rw [RoundsUp, hdiv, Nat.mod_pow_succ, sum_div, sum_mod, pow_succ, Nat.odd_iff, Nat.odd_iff]
    rcases Nat.mod_two_eq_zero_or_one (ma + mb / 2 ^ d) with h | h
    · rw [h, Nat.mul_zero]
      omega
    · rw [h, Nat.mul_one]
      omega
  rw [roundShift, hdiv, if_congr hup rfl rfl]

/-! ## The rounded sum -/

theorem addOrdered_eq_iff_index (hx : Normal x) (hsign : getSign x = getSign y)
    (hr : Normal r) (hs : getSign r = getSign x) {d q : ℕ} (hd : getExp x - getExp y = d)
    (hq : (align (fullMant y) d).toNat = q) (hle : (fullMant x).toNat + q ≤ 2 ^ 54 - 2) :
    addOrdered (unpack x) (unpack y) = r ↔
      sumIndex (getExp x) ((fullMant x).toNat + q) = index r := by
  have hmx := hx.fullMant_bounds
  subst hd hq
  obtain ⟨hexp, hlow, hhigh, hindex⟩ :=
    addMants_eq rfl (hmx.1.trans (Nat.le_add_right _ _)) hle hx.1
  unfold addOrdered unpack
  dsimp only
  rw [if_pos hsign, pack_normal_iff hr hexp hlow hhigh hs, hindex]

/-- The exact sum is rounded behind the last bit of the larger mantissa, or one bit before it. -/
theorem index_sum (hx : Normal x) (hy : Normal y) (hle : getExp y ≤ getExp x)
    (hsign : getSign x = getSign y) (hr : Normal r) (h : RoundsTo (val x + val y) r) {d : ℕ}
    (hd : getExp x - getExp y = d) :
    index r =
      if (fullMant x).toNat + (fullMant y).toNat / 2 ^ d < 2 ^ 53 then
        (getExp x - 1) * 2 ^ 52 + roundShift ((fullMant x).toNat * 2 ^ d + (fullMant y).toNat) d
      else
        getExp x * 2 ^ 52 +
          roundShift ((fullMant x).toNat * 2 ^ d + (fullMant y).toNat) (d + 1) := by
  have hmx := hx.fullMant_bounds
  have hmy := hy.fullMant_bounds
  have hq := Nat.div_le_self (fullMant y).toNat (2 ^ d)
  have hpos := hy.1
  have hcarry : ((fullMant x).toNat * 2 ^ d + (fullMant y).toNat) / 2 ^ (d + 1) =
      ((fullMant x).toNat + (fullMant y).toNat / 2 ^ d) / 2 := by
    rw [pow_succ, ← Nat.div_div_eq_div_mul, sum_div]
  subst hd
  split_ifs with hlt
  · refine h.index_eq hr ?_ ?_ (abs_add_val hx hy hle hsign (by omega))
    · rw [sum_div]
      exact hmx.1.trans (Nat.le_add_right _ _)
    · rw [sum_div]
      exact hlt
  · refine h.index_eq hr ?_ ?_ (abs_add_val hx hy hle hsign (by omega))
    · rw [hcarry]
      omega
    · rw [hcarry]
      omega

/-- Up to a distance of 53 the last bit of the smaller mantissa is the sticky bit. -/
theorem sumIndex_near {ma mb d e : ℕ} (he : 1 ≤ e) (hlt : ma + mb / 2 ^ d < 2 ^ 53) :
    sumIndex e (ma + (mb / 2 ^ d + if mb % 2 ^ d ≠ 0 ∧ mb / 2 ^ d % 2 = 0 then 1 else 0)) =
        (e - 1) * 2 ^ 52 + roundShift (ma * 2 ^ d + mb) d ↔
      mb % 2 ^ d = 0 ∨ (Even (mb / 2 ^ d) ↔ SumRoundsUp ma mb d) := by
  have hexact : mb % 2 ^ d = 0 → ¬ SumRoundsUp ma mb d := by
    have hpos := Nat.two_pow_pos d
    unfold SumRoundsUp
    omega
  rw [sumIndex_of_le he (by split_ifs <;> omega), roundShift_sum, Nat.even_iff]
  by_cases hup : SumRoundsUp ma mb d
  · have hrem : mb % 2 ^ d ≠ 0 := fun h0 => hexact h0 hup
    rw [if_pos hup]
    split_ifs <;> simp only [hup, hrem, false_or, iff_true] <;> omega
  · rw [if_neg hup]
    split_ifs <;> simp only [hup, iff_false] <;> omega

/-- After a carry the sticky bit and the bit that is dropped decide. -/
theorem sumIndex_carry {ma mb d e : ℕ} (hge : 2 ^ 53 ≤ ma + mb / 2 ^ d) :
    sumIndex e (ma + (mb / 2 ^ d + if mb % 2 ^ d ≠ 0 ∧ mb / 2 ^ d % 2 = 0 then 1 else 0)) =
        e * 2 ^ 52 + roundShift (ma * 2 ^ d + mb) (d + 1) ↔
      if mb % 2 ^ d = 0 then (ma + mb / 2 ^ d) % 4 ≠ 1
      else Odd (mb / 2 ^ d) ∨ Odd (ma + mb / 2 ^ d) := by
  rw [sumIndex_of_ge (hge.trans (Nat.add_le_add_left (Nat.le_add_right _ _) _)), roundShift_carry]
  simp only [Nat.odd_iff]
  generalize mb / 2 ^ d = q at hge ⊢
  by_cases hrem : mb % 2 ^ d = 0
  · simp only [hrem, ne_eq, not_true_eq_false, false_and, false_or, if_false, if_true]
    split_ifs <;> omega
  · simp only [hrem, ne_eq, not_false_eq_true, true_and, true_or, and_true, if_false]
    split_ifs <;> omega

theorem not_sumRoundsUp_far (ma : ℕ) {mb d : ℕ} (hmb : mb < 2 ^ 53) (hd : 53 < d) :
    mb / 2 ^ d = 0 ∧ ¬ SumRoundsUp ma mb d := by
  have hpow : 2 ^ 54 ≤ 2 ^ d := Nat.pow_le_pow_right (by decide) hd
  unfold SumRoundsUp
  rw [Nat.mod_eq_of_lt (by omega), Nat.div_eq_of_lt (by omega)]
  omega

section Ordered
variable (hx : Normal x) (hy : Normal y) (hle : getExp y ≤ getExp x)
  (hsign : getSign x = getSign y) (hr : Normal r) (h : RoundsTo (val x + val y) r) {d : ℕ}
  (hd : getExp x - getExp y = d)
include hx hy hle hsign hr h hd

theorem addOrdered_near_iff (hnear : d ≤ 53) :
    addOrdered (unpack x) (unpack y) = r ↔ AddRounds (fullMant x).toNat (fullMant y).toNat d := by
  have hs : getSign r = getSign x := h.sign.trans (sign_add_val hx hy hsign)
  have hmx := hx.fullMant_bounds
  have hle' := toNat_align_le hy.fullMant_bounds.2 hnear
  have hq := toNat_align (m := fullMant y) hnear
  rw [addOrdered_eq_iff_index hx hsign hr hs hd hq (by omega), index_sum hx hy hle hsign hr h hd]
  unfold AddRounds
  dsimp only
  rw [or_iff_right (not_lt.2 (hnear.trans (by decide))), and_iff_right hnear]
  by_cases hlt : (fullMant x).toNat + (fullMant y).toNat / 2 ^ d < 2 ^ 53
  · rw [if_pos hlt, if_pos hlt]
    exact sumIndex_near hx.1 hlt
  · rw [if_neg hlt, if_neg hlt]
    exact sumIndex_carry (not_lt.1 hlt)

theorem index_sum_far (hfar : 53 < d) :
    index r = (getExp x - 1) * 2 ^ 52 + (fullMant x).toNat := by
  have hmx := hx.fullMant_bounds
  have hmy := hy.fullMant_bounds
  obtain ⟨hq, hup⟩ := not_sumRoundsUp_far (fullMant x).toNat hmy.2 hfar
  rw [index_sum hx hy hle hsign hr h hd, hq, Nat.add_zero, if_pos hmx.2, roundShift_sum, hq,
    if_neg hup]
  rfl

theorem addOrdered_far_iff (hfar : 53 < d) :
    addOrdered (unpack x) (unpack y) = r ↔ AddRounds (fullMant x).toNat (fullMant y).toNat d := by
  have hs : getSign r = getSign x := h.sign.trans (sign_add_val hx hy hsign)
  have hmx := hx.fullMant_bounds
  have hmy := hy.fullMant_bounds
  have hindex := index_sum_far hx hy hle hsign hr h hd hfar
  unfold AddRounds
  rcases Nat.lt_or_ge 63 d with hvery | hsticky
  · refine iff_of_true ?_ (.inl hvery)
    have hq : (align (fullMant y) d).toNat = 0 := by
      rw [align_far hvery]
      rfl
    rw [addOrdered_eq_iff_index hx hsign hr hs hd hq (by omega), Nat.add_zero,
      sumIndex_of_le hx.1 hmx.2.le, hindex]
  · refine iff_of_false ?_ (by omega)
    have hq := toNat_align_sticky hy.fullMant_ne_zero hmy.2 hfar hsticky
    rw [addOrdered_eq_iff_index hx hsign hr hs hd hq (by omega), sumIndex_of_le hx.1 hmx.2, hindex]
    omega

end Ordered

/-! ## `__adddf3` -/

theorem adddf3_normal (ha : Normal a) (hb : Normal b) :
    adddf3 a b = if getExp a < getExp b then addOrdered (unpack b) (unpack a)
      else addOrdered (unpack a) (unpack b) :=
  adddf3_finite ha.exp_ne hb.exp_ne ha.not_isZero hb.not_isZero

def SumRounds (a b : BitVec 64) : Prop :=
  if getExp a < getExp b then
    AddRounds (fullMant b).toNat (fullMant a).toNat (getExp b - getExp a)
  else AddRounds (fullMant a).toNat (fullMant b).toNat (getExp a - getExp b)
  deriving Decidable

theorem addOrdered_eq_iff (hx : Normal x) (hy : Normal y) (hle : getExp y ≤ getExp x)
    (hsign : getSign x = getSign y) (hr : Normal r) (h : RoundsTo (val x + val y) r) :
    addOrdered (unpack x) (unpack y) = r ↔
      AddRounds (fullMant x).toNat (fullMant y).toNat (getExp x - getExp y) := by
  rcases Nat.lt_or_ge 53 (getExp x - getExp y) with hfar | hnear
  · exact addOrdered_far_iff hx hy hle hsign hr h rfl hfar
  · exact addOrdered_near_iff hx hy hle hsign hr h rfl hnear

theorem adddf3_eq_iff (ha : Normal a) (hb : Normal b) (hr : Normal r)
    (hsign : getSign a = getSign b) (h : RoundsTo (val a + val b) r) :
    adddf3 a b = r ↔ SumRounds a b := by
  unfold SumRounds
  rw [adddf3_normal ha hb]
  split_ifs with hlt
  · exact addOrdered_eq_iff hb ha hlt.le hsign.symm hr (add_comm (val a) (val b) ▸ h)
  · exact addOrdered_eq_iff ha hb (not_lt.1 hlt) hsign hr h

theorem roundsTo_add (hx : Normal x) (hy : Normal y) (hle : getExp y ≤ getExp x)
    (hsign : getSign x = getSign y) {k s n : ℕ} (h : getExp y - 1 + s = k)
    (hn : (fullMant x).toNat * 2 ^ (getExp x - getExp y) + (fullMant y).toNat = n)
    (hlow : 2 ^ 52 ≤ n / 2 ^ s) (hhigh : n / 2 ^ s < 2 ^ 53)
    (htop : k * 2 ^ 52 + n / 2 ^ s < infinity) (hs : getSign r = getSign x)
    (hindex : index r = k * 2 ^ 52 + roundShift n s) : RoundsTo (val x + val y) r where
  sign := hs.trans (sign_add_val hx hy hsign).symm
  nearest := hindex ▸ tiesToEven_binade hlow hhigh htop (hn ▸ abs_add_val hx hy hle hsign h)

/-- `1 + 1 = 2` -/
theorem adddf3_one_one : adddf3 0x3FF0000000000000 0x3FF0000000000000 = 0x4000000000000000 :=
  (adddf3_eq_iff (by decide) (by decide) (by decide) (by decide) (roundsTo_add (k := 1023) (s := 1)
    (by decide) (by decide) (by decide) (by decide) (by decide) rfl (by decide) (by decide)
    (by decide) (by decide) (by decide))).2 (by decide)

/-- `1 + 2 ^ -54` is rounded to the number behind 1. -/
theorem adddf3_not_rounded :
    ¬ ∀ a b r, Normal a → Normal b → Normal r → getSign a = getSign b →
      RoundsTo (val a + val b) r → adddf3 a b = r := by
  intro h
  have hr : RoundsTo (val 0x3FF0000000000000 + val 0x3C90000000000000) 0x3FF0000000000000 :=
    roundsTo_add (k := 1022) (s := 54) (by decide) (by decide) (by decide) (by decide) (by decide)
      rfl (by decide) (by decide) (by decide) (by decide) (by decide)
  exact absurd (h _ _ _ (by decide) (by decide) (by decide) (by decide) hr) (by decide)

end Herve.Softfloat
