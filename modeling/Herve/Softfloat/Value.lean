import Herve.Lib.Nearest
import Herve.Softfloat.Bits

/-! What a pattern stands for, and correct rounding. -/

namespace Herve.Softfloat
open Nearest

/-- The magnitudes in the order of the patterns. -/
def grid (i : ℕ) : ℚ := units 52 i / 2 ^ 1074

/-- The pattern of an infinity without its sign. As a magnitude it is `2 ^ 1024`, the next power
of two. -/
def infinity : ℕ := 2047 * 2 ^ 52

def index (x : BitVec 64) : ℕ := x.toNat % 2 ^ 63

def val (x : BitVec 64) : ℚ := if getSign x = 0 then grid (index x) else -grid (index x)

def Normal (x : BitVec 64) : Prop := 1 ≤ getExp x ∧ getExp x ≤ 2046
  deriving Decidable

/-- `r` is `x` rounded to nearest, ties to even. -/
structure RoundsTo (x : ℚ) (r : BitVec 64) : Prop where
  sign : getSign r = if x < 0 then 1 else 0
  nearest : TiesToEven grid infinity |x| (index r)

/-! ## The grid -/

theorem grid_strictMono : StrictMono grid := scaled_strictMono 52 (by positivity)

theorem grid_binade {k q : ℕ} (hq : q ≤ 2 ^ 53) (h : k = 0 ∨ 2 ^ 52 ≤ q) :
    grid (k * 2 ^ 52 + q) = q * (2 ^ k / 2 ^ 1074) := scaled_binade hq h

theorem grid_zero : grid 0 = 0 := scaled_zero 52 _

theorem grid_nonneg (i : ℕ) : 0 ≤ grid i := grid_zero ▸ grid_strictMono.monotone i.zero_le

variable {a b r : BitVec 64}

theorem index_eq (x : BitVec 64) : index x = getExp x * 2 ^ 52 + (getMant x).toNat :=
  (fields_eq x).symm

theorem fields_of_index {e m : ℕ} (hm : m < 2 ^ 52) (h : index a = e * 2 ^ 52 + m) :
    getExp a = e ∧ (getMant a).toNat = m := by
  have := toNat_getMant_lt a
  rw [index_eq] at h
  omega

theorem index_flip (x : BitVec 64) : index (x ^^^ signMask) = index x := by
  rw [index_eq, index_eq, getExp_flip, getMant_flip]

theorem index_setSign (x : BitVec 64) (s : ℕ) : index (setSign x s) = index x := by
  unfold index
  rw [toNat_setSign]
  omega

theorem abs_val (x : BitVec 64) : |val x| = grid (index x) := by
  unfold val
  split_ifs
  · exact abs_of_nonneg (grid_nonneg _)
  · rw [abs_neg, abs_of_nonneg (grid_nonneg _)]

theorem val_of_sign_zero (h : getSign a = 0) : val a = grid (index a) := if_pos h

theorem val_of_sign_ne (h : getSign a ≠ 0) : val a = -grid (index a) := if_neg h

theorem val_zero : val 0 = 0 := (val_of_sign_zero (by decide)).trans grid_zero

theorem val_nonneg_of_sign (h : getSign a = 0) : 0 ≤ val a := by
  rw [val_of_sign_zero h]
  exact grid_nonneg _

theorem val_nonpos_of_sign (h : getSign a ≠ 0) : val a ≤ 0 := by
  rw [val_of_sign_ne h]
  exact neg_nonpos.2 (grid_nonneg _)

theorem Normal.exp_ne_zero (h : Normal a) : getExp a ≠ 0 := Nat.one_le_iff_ne_zero.1 h.1

theorem Normal.fullMant_bounds (h : Normal a) :
    2 ^ 52 ≤ (fullMant a).toNat ∧ (fullMant a).toNat < 2 ^ 53 :=
  Softfloat.fullMant_bounds h.exp_ne_zero

theorem Normal.fullMant_ne_zero (h : Normal a) : fullMant a ≠ 0 := by
  have hbounds := h.fullMant_bounds
  intro h0
  rw [h0] at hbounds
  exact absurd hbounds.1 (by decide)

theorem Normal.index_eq (h : Normal a) :
    index a = (getExp a - 1) * 2 ^ 52 + (fullMant a).toNat := by
  have := h.1
  rw [Softfloat.index_eq, toNat_fullMant h.exp_ne_zero]
  omega

theorem Normal.index_lt (h : Normal a) : index a < infinity := by
  have hexp := h.2
  have hmant := toNat_getMant_lt a
  rw [Softfloat.index_eq]
  unfold infinity
  omega

theorem Normal.abs_val (h : Normal a) :
    |val a| = (fullMant a).toNat * (2 ^ (getExp a - 1) / 2 ^ 1074) := by
  have hbounds := h.fullMant_bounds
  rw [Softfloat.abs_val, h.index_eq, grid_binade hbounds.2.le (.inr hbounds.1)]

theorem Normal.grid_pos (h : Normal a) : 0 < grid (index a) := by
  have hbounds := h.fullMant_bounds
  rw [← grid_zero]
  refine grid_strictMono ?_
  rw [h.index_eq]
  omega

theorem Normal.val_neg_iff (h : Normal a) : val a < 0 ↔ getSign a = 1 := by
  have hpos := h.grid_pos
  have hsign := getSign_lt a
  unfold val
  split_ifs with h0
  · exact iff_of_false (not_lt.2 hpos.le) (by omega)
  · exact iff_of_true (neg_lt_zero.2 hpos) (by omega)

theorem Normal.val_ne_zero (h : Normal a) : val a ≠ 0 :=
  abs_pos.1 (Softfloat.abs_val a ▸ h.grid_pos)

/-! ## Rounding -/

theorem RoundsTo.lt_infinity {x : ℚ} (h : RoundsTo x r) (hr : Normal r) :
    |x| < grid infinity := by
  by_contra hge
  rw [not_lt] at hge
  have hlt : grid (index r) < grid infinity := grid_strictMono hr.index_lt
  have hnear := h.nearest.nearest infinity le_rfl
  rw [abs_of_nonneg (sub_nonneg.2 hge), abs_of_nonneg (sub_nonneg.2 (hlt.le.trans hge))] at hnear
  linarith

/-- What a number in the `k`-th binade is rounded to. -/
theorem tiesToEven_binade {x : ℚ} {k n s : ℕ} (hlow : 2 ^ 52 ≤ n / 2 ^ s)
    (hhigh : n / 2 ^ s < 2 ^ 53) (htop : k * 2 ^ 52 + n / 2 ^ s < infinity)
    (hx : x * 2 ^ s = n * (2 ^ k / 2 ^ 1074)) :
    TiesToEven grid infinity x (k * 2 ^ 52 + roundShift n s) :=
  tiesToEven_scaled (by decide) (by positivity) hlow hhigh htop hx

theorem RoundsTo.index_eq {x : ℚ} (h : RoundsTo x r) (hr : Normal r) {k n s : ℕ}
    (hlow : 2 ^ 52 ≤ n / 2 ^ s) (hhigh : n / 2 ^ s < 2 ^ 53)
    (hx : |x| * 2 ^ s = n * (2 ^ k / 2 ^ 1074)) :
    index r = k * 2 ^ 52 + roundShift n s := by
  have hfloor : ((n / 2 ^ s : ℕ) : ℚ) * 2 ^ s ≤ n := by
    exact_mod_cast Nat.div_mul_le_self n (2 ^ s)
  have hle : grid (k * 2 ^ 52 + n / 2 ^ s) ≤ |x| := by
    rw [grid_binade hhigh.le (.inr hlow),
      ← mul_le_mul_iff_of_pos_right (by positivity : (0 : ℚ) < 2 ^ s), hx, mul_right_comm]
    exact mul_le_mul_of_nonneg_right hfloor (by positivity)
  have htop := grid_strictMono.lt_iff_lt.1 (hle.trans_lt (h.lt_infinity hr))
  exact h.nearest.unique grid_strictMono (tiesToEven_binade hlow hhigh htop hx)

theorem eq_iff_index {c : BitVec 64} {s i : ℕ} (hc : c.toNat = s * 2 ^ 63 + i)
    (hs : getSign r = s) : c = r ↔ i = index r := by
  rw [getSign_eq] at hs
  rw [← BitVec.toNat_inj, hc]
  unfold index
  omega

theorem pack_eq_iff {e s : ℕ} (hpos : 0 < e) (hlt : e < 2047) (m : BitVec 64)
    (hs : getSign r = s) : pack e m s = r ↔ e * 2 ^ 52 + m.toNat % 2 ^ 52 = index r := by
  refine eq_iff_index ?_ hs
  rw [pack_of_normal hpos hlt, Nat.mod_eq_of_lt (hs ▸ getSign_lt r)]

/-- `pack` makes a normal number of an exponent in range, and of no other. -/
theorem normal_pack_iff {e : ℤ} {m : BitVec 64} {s : ℕ} :
    Normal (pack e m s) ↔ 0 < e ∧ e < 2047 := by
  unfold Normal
  rw [getExp_eq]
  rcases le_or_gt e 0 with hlow | hpos
  · rw [pack_of_nonpos hlow]
    omega
  rcases le_or_gt 2047 e with hhigh | hlt
  · rw [pack_of_infinite hhigh]
    omega
  · obtain ⟨k, rfl⟩ := Int.eq_ofNat_of_zero_le hpos.le
    rw [pack_of_normal (by omega) (by omega)]
    omega

/-- With the implicit 1 in the mantissa; an exponent that is too large gives no normal number. -/
theorem pack_normal_iff {e s : ℕ} {m : BitVec 64} (hr : Normal r) (he : 1 ≤ e)
    (hlow : 2 ^ 52 ≤ m.toNat) (hhigh : m.toNat < 2 ^ 53) (hs : getSign r = s) :
    pack e m s = r ↔ (e - 1) * 2 ^ 52 + m.toNat = index r := by
  have hlt := hr.index_lt
  unfold infinity at hlt
  by_cases hexp : e < 2047
  · rw [pack_eq_iff he hexp m hs]
    omega
  · refine iff_of_false ?_ (by omega)
    rintro rfl
    exact hexp (Int.ofNat_lt.1 (normal_pack_iff.1 hr).2)

theorem pack_ne_of_nonpos {e : ℤ} (he : e ≤ 0) (hr : Normal r) (m : BitVec 64) (s : ℕ) :
    pack e m s ≠ r := by
  rintro rfl
  exact not_lt.2 he (normal_pack_iff.1 hr).1

/-- Two patterns of one value that is not zero are the same. -/
theorem eq_of_val_eq (ha : val a ≠ 0) (h : val a = val b) : a = b := by
  have hindex : index a = index b := by
    refine grid_strictMono.injective ?_
    rw [← abs_val, ← abs_val, h]
  have hpos : 0 < grid (index a) := abs_val a ▸ abs_pos.2 ha
  have hsign : getSign a = getSign b := by
    have hsa := getSign_lt a
    have hsb := getSign_lt b
    unfold val at h
    rw [← hindex] at h
    split_ifs at h with h1 h2 h2
    · omega
    · linarith
    · linarith
    · omega
  refine (eq_iff_index (s := getSign b) (i := index b) ?_ rfl).2 rfl
  have hfields : a.toNat = getSign a * 2 ^ 63 + index a := by
    rw [getSign_eq]
    unfold index
    omega
  rw [hfields, hsign, hindex]

end Herve.Softfloat
