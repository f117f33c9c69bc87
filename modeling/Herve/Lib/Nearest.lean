import Mathlib

/-! Rounding to the nearest point of a grid, ties to the even index, and the grid of the
magnitudes of a binary floating-point format. -/

namespace Nearest
universe u

/-! ## Grids -/

section Grid
variable {K : Type u} [Field K] [LinearOrder K] [IsStrictOrderedRing K]

/-- `i` is the index of a point nearest to `x`, the even one if two points are equally near. -/
structure TiesToEven (v : ℕ → K) (top : ℕ) (x : K) (i : ℕ) : Prop where
  le_top : i ≤ top
  nearest : ∀ j ≤ top, |x - v i| ≤ |x - v j|
  even : ∀ j ≤ top, j ≠ i → |x - v j| = |x - v i| → Even i

variable {v : ℕ → K} {top i j : ℕ} {x : K}

/-- Between two points that are equally near there is one that is nearer. -/
theorem TiesToEven.index_not_lt (hv : StrictMono v) (hi : TiesToEven v top x i)
    (hj : TiesToEven v top x j) : ¬ i < j := by
  intro hij
  have hdist : |x - v i| = |x - v j| :=
    le_antisymm (hi.nearest j hj.le_top) (hj.nearest i hi.le_top)
  have hieven := hi.even j hj.le_top hij.ne' hdist.symm
  have hjeven := hj.even i hi.le_top hij.ne hdist
  have hgap : i + 1 < j := by
    refine lt_of_le_of_ne hij fun heq => ?_
    rw [← heq, Nat.even_add_one] at hjeven
    exact hjeven hieven
  have hleft := hv (Nat.lt_add_one i)
  have hright := hv hgap
  have hmid : x - v i = v j - x := by
    rcases abs_eq_abs.1 hdist with h | h
    · exact absurd (sub_right_injective h) (hv hij).ne
    · rw [h, neg_sub]
  have hlt : |x - v (i + 1)| < |x - v i| := by
    rw [abs_of_pos (by linarith : (0 : K) < x - v i), abs_lt]
    constructor
    · linarith
    · linarith
  exact absurd (hi.nearest (i + 1) (hgap.le.trans hj.le_top)) hlt.not_ge

theorem TiesToEven.unique (hv : StrictMono v) (hi : TiesToEven v top x i)
    (hj : TiesToEven v top x j) : i = j :=
  le_antisymm (not_lt.1 (hj.index_not_lt hv hi)) (not_lt.1 (hi.index_not_lt hv hj))

omit [IsStrictOrderedRing K] in
theorem tiesToEven_of_others (hi : i ≤ top)
    (h : ∀ j, j ≠ i → |x - v i| ≤ |x - v j| ∧ (|x - v j| = |x - v i| → Even i)) :
    TiesToEven v top x i := by
  refine ⟨hi, fun j _ => ?_, fun j _ hji => (h j hji).2⟩
  rcases eq_or_ne j i with rfl | hji
  · exact le_rfl
  · exact (h j hji).1

theorem tiesToEven_down (hv : StrictMono v) (hi : i < top) (hx : v i ≤ x)
    (h : x - v i < v (i + 1) - x ∨ x - v i = v (i + 1) - x ∧ Even i) :
    TiesToEven v top x i := by
  refine tiesToEven_of_others hi.le fun j hji => ?_
  rw [abs_of_nonneg (sub_nonneg.2 hx)]
  rcases Nat.lt_or_gt_of_ne hji with hlt | hgt
  · have hj := hv hlt
    have hfar : x - v i < |x - v j| := (sub_lt_sub_left hj x).trans_le (le_abs_self _)
    exact ⟨hfar.le, fun heq => absurd heq hfar.ne'⟩
  · have hj := hv.monotone (Nat.succ_le_of_lt hgt)
    have hfar : v (i + 1) - x ≤ |x - v j| :=
      (sub_le_sub_right hj x).trans (neg_sub x (v j) ▸ neg_le_abs _)
    rcases h with hdown | ⟨htie, heven⟩
    · exact ⟨(hdown.trans_le hfar).le, fun heq => absurd heq (hdown.trans_le hfar).ne'⟩
    · exact ⟨htie ▸ hfar, fun _ => heven⟩

theorem tiesToEven_up (hv : StrictMono v) (hi : i + 1 ≤ top) (hx : x ≤ v (i + 1))
    (h : v (i + 1) - x < x - v i ∨ v (i + 1) - x = x - v i ∧ Even (i + 1)) :
    TiesToEven v top x (i + 1) := by
  refine tiesToEven_of_others hi fun j hji => ?_
  rw [abs_of_nonpos (sub_nonpos.2 hx), neg_sub]
  rcases Nat.lt_or_gt_of_ne hji with hlt | hgt
  · have hj := hv.monotone (Nat.le_of_lt_succ hlt)
    have hfar : x - v i ≤ |x - v j| := (sub_le_sub_left hj x).trans (le_abs_self _)
    rcases h with hup | ⟨htie, heven⟩
    · exact ⟨(hup.trans_le hfar).le, fun heq => absurd heq (hup.trans_le hfar).ne'⟩
    · exact ⟨htie ▸ hfar, fun _ => heven⟩
  · have hj := hv hgt
    have hfar : v (i + 1) - x < |x - v j| :=
      (sub_lt_sub_right hj x).trans_le (neg_sub x (v j) ▸ neg_le_abs _)
    exact ⟨hfar.le, fun heq => absurd heq hfar.ne'⟩

/-- What lies behind the last point is rounded to it. -/
theorem tiesToEven_top (hv : StrictMono v) (hx : v top ≤ x) : TiesToEven v top x top := by
  refine ⟨le_rfl, fun j hj => ?_, fun j hj hne heq => ?_⟩
  · have hle := hv.monotone hj
    rw [abs_of_nonneg (sub_nonneg.2 hx), abs_of_nonneg (sub_nonneg.2 (hle.trans hx))]
    exact sub_le_sub_left hle x
  · have hlt := hv (lt_of_le_of_ne hj hne)
    rw [abs_of_nonneg (sub_nonneg.2 hx), abs_of_nonneg (sub_nonneg.2 (hlt.le.trans hx))] at heq
    exact absurd heq (sub_lt_sub_left hlt x).ne'

/-! ## Right shifts -/

/-- The bits that a right shift drops round the result up. -/
def RoundsUp (n s : ℕ) : Prop :=
  2 ^ s < 2 * (n % 2 ^ s) ∨ 2 * (n % 2 ^ s) = 2 ^ s ∧ Odd (n / 2 ^ s)
  deriving Decidable

/-- `n / 2 ^ s` rounded to the nearest integer, ties to even. -/
def roundShift (n s : ℕ) : ℕ := n / 2 ^ s + if RoundsUp n s then 1 else 0

theorem shift_distances {n s : ℕ} {u lo hi : K} (hlo : lo = (n / 2 ^ s : ℕ) * u)
    (hhi : hi = ((n / 2 ^ s : ℕ) + 1) * u) (hx : x * 2 ^ s = n * u) :
    (x - lo) * 2 ^ s = (n % 2 ^ s : ℕ) * u ∧ (hi - x) * 2 ^ s = (2 ^ s - (n % 2 ^ s : ℕ)) * u := by
  have hn : (n : K) = (n / 2 ^ s : ℕ) * 2 ^ s + (n % 2 ^ s : ℕ) := by
    exact_mod_cast (Nat.div_add_mod' n (2 ^ s)).symm
  constructor
  · rw [hlo, sub_mul, hx, hn]
    ring
  · rw [hhi, sub_mul, hx, hn]
    ring

/-- Where the grid is the multiples of `u`, shifted by an even index. -/
theorem tiesToEven_roundShift (hv : StrictMono v) {k n s : ℕ} {u : K} (hu : 0 < u)
    (hk : Even k) (htop : k + n / 2 ^ s < top) (hlo : v (k + n / 2 ^ s) = (n / 2 ^ s : ℕ) * u)
    (hhi : v (k + n / 2 ^ s + 1) = ((n / 2 ^ s : ℕ) + 1) * u) (hx : x * 2 ^ s = n * u) :
    TiesToEven v top x (k + roundShift n s) := by
  have hpow : (0 : K) < 2 ^ s := by positivity
  obtain ⟨hbelow, habove⟩ := shift_distances hlo hhi hx
  have hrem : ((n % 2 ^ s : ℕ) : K) < 2 ^ s := by
    exact_mod_cast Nat.mod_lt n (Nat.two_pow_pos s)
  have hpos : v (k + n / 2 ^ s) ≤ x := by
    rw [← sub_nonneg, ← mul_nonneg_iff_of_pos_right hpow, hbelow]
    positivity
  have hneg : x ≤ v (k + n / 2 ^ s + 1) := by
    rw [← sub_nonneg, ← mul_nonneg_iff_of_pos_right hpow, habove]
    exact mul_nonneg (sub_nonneg.2 hrem.le) hu.le
  have hup : v (k + n / 2 ^ s + 1) - x < x - v (k + n / 2 ^ s) ↔ 2 ^ s < 2 * (n % 2 ^ s) := by
    rw [← mul_lt_mul_iff_of_pos_right hpow, habove, hbelow, mul_lt_mul_iff_of_pos_right hu,
      sub_lt_iff_lt_add, ← two_mul]
    exact_mod_cast Iff.rfl
  have hdown : x - v (k + n / 2 ^ s) < v (k + n / 2 ^ s + 1) - x ↔ 2 * (n % 2 ^ s) < 2 ^ s := by
    rw [← mul_lt_mul_iff_of_pos_right hpow, habove, hbelow, mul_lt_mul_iff_of_pos_right hu,
      lt_sub_iff_add_lt, ← two_mul]
    exact_mod_cast Iff.rfl
  have htie : x - v (k + n / 2 ^ s) = v (k + n / 2 ^ s + 1) - x ↔ 2 * (n % 2 ^ s) = 2 ^ s := by
    rw [← mul_left_inj' hpow.ne', habove, hbelow, mul_left_inj' hu.ne', eq_sub_iff_add_eq,
      ← two_mul]
    exact_mod_cast Iff.rfl
  unfold roundShift
  split_ifs with h
  · refine tiesToEven_up hv htop hneg ?_
    rcases h with hgt | ⟨heq, hodd⟩
    · exact .inl (hup.2 hgt)
    · exact .inr ⟨(htie.2 heq).symm, hk.add (hodd.add_one)⟩
  · refine tiesToEven_down hv htop hpos ?_
    obtain ⟨hle, hodd⟩ := not_or.1 h
    rcases (not_lt.1 hle).lt_or_eq with hlt | heq
    · exact .inl (hdown.2 hlt)
    · exact .inr ⟨htie.2 heq, hk.add (Nat.not_odd_iff_even.1 fun ho => hodd ⟨heq, ho⟩)⟩

end Grid

/-! ## Binary formats -/

/-- The magnitude with index `u` of a binary format with `p` bits of fraction, as a multiple of
the least one: exponent zero is subnormal, and every exponent from 2 on doubles the steps. -/
def units (p u : ℕ) : ℕ := if u < 2 ^ p then u else (2 ^ p + u % 2 ^ p) * 2 ^ (u / 2 ^ p - 1)

variable {p k q : ℕ}

/-- On every binade the grid is linear, up to and including the next power of two. -/
theorem units_binade (hq : q ≤ 2 ^ (p + 1)) (h : k = 0 ∨ 2 ^ p ≤ q) :
    units p (k * 2 ^ p + q) = q * 2 ^ k := by
  have hpow : 0 < 2 ^ p := Nat.two_pow_pos p
  unfold units
  rcases Nat.lt_or_ge q (2 ^ p) with hlt | hge
  · rcases h with rfl | hle
    · rw [Nat.zero_mul, Nat.zero_add, if_pos hlt, pow_zero, Nat.mul_one]
    · exact absurd hle (not_le.2 hlt)
  · obtain ⟨m, rfl⟩ := Nat.exists_eq_add_of_le hge
    rw [if_neg (by nlinarith [Nat.zero_le (k * 2 ^ p)]),
      show k * 2 ^ p + (2 ^ p + m) = m + (k + 1) * 2 ^ p by ring, Nat.add_mul_mod_self_right,
      Nat.add_mul_div_right _ _ hpow]
    rcases Nat.lt_or_ge m (2 ^ p) with hm | hm
    · rw [Nat.mod_eq_of_lt hm, Nat.div_eq_of_lt hm, Nat.zero_add, Nat.add_sub_cancel]
    · have hmeq : m = 2 ^ p := by rw [pow_succ] at hq; omega
      rw [hmeq, Nat.mod_self, Nat.div_self hpow, Nat.add_comm 1, Nat.add_sub_cancel, pow_succ]
      ring

theorem units_strictMono (p : ℕ) : StrictMono (units p) := by
  refine strictMono_nat_of_lt_succ fun u => ?_
  have hpow : 0 < 2 ^ p := Nat.two_pow_pos p
  obtain ⟨k, q, hu, hq, h⟩ :
      ∃ k q, u = k * 2 ^ p + q ∧ q < 2 ^ (p + 1) ∧ (k = 0 ∨ 2 ^ p ≤ q) := by
    have hmod := Nat.mod_lt u hpow
    rcases Nat.lt_or_ge u (2 ^ p) with hlt | hge
    · exact ⟨0, u, by rw [Nat.zero_mul, Nat.zero_add], by rw [pow_succ]; omega, .inl rfl⟩
    · have hdiv : 1 ≤ u / 2 ^ p := (Nat.one_le_div_iff hpow).2 hge
      obtain ⟨k, hk⟩ := Nat.exists_eq_add_of_le' hdiv
      refine ⟨k, 2 ^ p + u % 2 ^ p, ?_, by rw [pow_succ]; omega, .inr (Nat.le_add_right _ _)⟩
      calc u = 2 ^ p * (u / 2 ^ p) + u % 2 ^ p := (Nat.div_add_mod _ _).symm
        _ = k * 2 ^ p + (2 ^ p + u % 2 ^ p) := by rw [hk]; ring
  rw [hu, Nat.add_assoc, units_binade hq.le h, units_binade (Nat.succ_le_of_lt hq)
    (h.imp_right Nat.le_succ_of_le)]
  exact Nat.mul_lt_mul_of_pos_right (Nat.lt_succ_self q) (Nat.two_pow_pos k)

theorem units_zero (p : ℕ) : units p 0 = 0 := if_pos (Nat.two_pow_pos p)

/-! ## Formats with a scale -/

section Scaled
variable {K : Type u} [Field K] [LinearOrder K] [IsStrictOrderedRing K] {c : K}

/-- The magnitudes of a binary format whose least one is `1 / c`. -/
def scaled (p : ℕ) (c : K) (i : ℕ) : K := units p i / c

theorem scaled_strictMono (p : ℕ) (hc : 0 < c) : StrictMono (scaled p c) := fun _ _ h =>
  div_lt_div_of_pos_right (Nat.cast_lt.2 (units_strictMono p h)) hc

omit [LinearOrder K] [IsStrictOrderedRing K] in
theorem scaled_binade (hq : q ≤ 2 ^ (p + 1)) (h : k = 0 ∨ 2 ^ p ≤ q) :
    scaled p c (k * 2 ^ p + q) = q * (2 ^ k / c) := by
  rw [scaled, units_binade hq h, Nat.cast_mul, Nat.cast_pow, Nat.cast_ofNat, mul_div_assoc]

omit [LinearOrder K] [IsStrictOrderedRing K] in
theorem scaled_zero (p : ℕ) (c : K) : scaled p c 0 = 0 := by
  rw [scaled, units_zero, Nat.cast_zero, zero_div]

/-- What a number in the `k`-th binade is rounded to. -/
theorem tiesToEven_scaled (hp : p ≠ 0) (hc : 0 < c) {x : K} {n s top : ℕ}
    (hlow : 2 ^ p ≤ n / 2 ^ s) (hhigh : n / 2 ^ s < 2 ^ (p + 1))
    (htop : k * 2 ^ p + n / 2 ^ s < top) (hx : x * 2 ^ s = n * (2 ^ k / c)) :
    TiesToEven (scaled p c) top x (k * 2 ^ p + roundShift n s) := by
  have hu : (0 : K) < 2 ^ k / c := div_pos (by positivity) hc
  have heven : Even (k * 2 ^ p) := (even_two.pow_of_ne_zero hp).mul_left k
  refine tiesToEven_roundShift (scaled_strictMono p hc) hu heven htop
    (scaled_binade hhigh.le (.inr hlow)) ?_ hx
  rw [Nat.add_assoc, scaled_binade (Nat.succ_le_of_lt hhigh) (.inr (hlow.trans (Nat.le_succ _))),
    Nat.cast_succ]

end Scaled

end Nearest
