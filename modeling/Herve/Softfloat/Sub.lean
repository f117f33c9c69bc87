import Herve.Softfloat.Add

/-! Addition of normal numbers with different signs, and when it is exact. -/

namespace Herve.Softfloat
open Nearest

variable {a b x y r : BitVec 64}

def sgn (s : ℕ) : ℚ := if s = 0 then 1 else -1

theorem sgn_mul_self (s : ℕ) : sgn s * sgn s = 1 := by
  unfold sgn
  split_ifs <;> norm_num

theorem val_eq (x : BitVec 64) : val x = sgn (getSign x) * grid (index x) := by
  unfold val sgn
  split_ifs
  · rw [one_mul]
  · rw [neg_one_mul]

theorem sgn_other {s t : ℕ} (hs : s < 2) (ht : t < 2) (h : s ≠ t) : sgn t = -sgn s := by
  unfold sgn
  split_ifs <;> first | omega | norm_num

theorem Normal.val_eq (h : Normal x) :
    val x = sgn (getSign x) * ((fullMant x).toNat * (2 ^ (getExp x - 1) / 2 ^ 1074)) := by
  rw [Softfloat.val_eq, ← Softfloat.abs_val, h.abs_val]

/-! ## Normalization -/

/-- The loop ends with bit 52 set or with exponent zero, and keeps the value. -/
theorem subLoop (e : ℕ) {m : BitVec 64} (hm : m.toNat < 2 ^ 53) :
    (BreakLoop.loop subBody e (e, m)).2.1 ≤ e ∧
      (BreakLoop.loop subBody e (e, m)).2.2.toNat < 2 ^ 53 ∧
      (BreakLoop.loop subBody e (e, m)).2.2.toNat * 2 ^ (BreakLoop.loop subBody e (e, m)).2.1 =
        m.toNat * 2 ^ e ∧
      (2 ^ 52 ≤ (BreakLoop.loop subBody e (e, m)).2.2.toNat ∨
        (BreakLoop.loop subBody e (e, m)).2.1 = 0) := by
  induction e generalizing m with
  | zero => exact ⟨le_rfl, hm, rfl, .inr rfl⟩
  | succ e ih =>
    by_cases hlt : m.toNat < 2 ^ 52
    · have hbody : subBody (e + 1, m) = (true, (e, m <<< 1)) :=
        if_pos ⟨(and_bit52_eq_zero hm).2 hlt, e.succ_pos⟩
      have hshift : (m <<< 1).toNat = m.toNat * 2 := by
        rw [toNat_shiftLeft]
        omega
      obtain ⟨hexp, hmant, hval, hend⟩ := ih (m := m <<< 1) (by omega)
      rw [BreakLoop.loop_succ_true (by rw [hbody]), hbody]
      refine ⟨hexp.trans e.le_succ, hmant, ?_, hend⟩
      rw [hval, hshift, pow_succ]
      ring
    · have hbody : subBody (e + 1, m) = (false, (e + 1, m)) :=
        if_neg fun h => hlt ((and_bit52_eq_zero hm).1 h.1)
      rw [BreakLoop.loop_succ_false (by rw [hbody]), hbody]
      exact ⟨le_rfl, hm, rfl, .inl (not_lt.1 hlt)⟩

theorem pack_normal {e s : ℕ} {m : BitVec 64} (hpos : 1 ≤ e) (hlt : e < 2047)
    (hlow : 2 ^ 52 ≤ m.toNat) (hhigh : m.toNat < 2 ^ 53) (hs : s < 2) :
    Normal (pack e m s) ∧ val (pack e m s) = sgn s * (m.toNat * (2 ^ (e - 1) / 2 ^ 1074)) := by
  have hpack := pack_of_normal hpos hlt m s
  have hindex : index (pack e m s) = (e - 1) * 2 ^ 52 + m.toNat := by
    rw [index, hpack]
    omega
  have hsign : getSign (pack e m s) = s := by
    rw [getSign_eq, hpack]
    omega
  constructor
  · exact normal_pack_iff.2 ⟨Int.ofNat_lt.2 hpos, Int.ofNat_lt.2 hlt⟩
  · rw [Softfloat.val_eq, hsign, hindex, grid_binade hhigh.le (.inr hlow)]

/-! ## The difference of the mantissas -/

/-- A difference that is a normal number is packed without loss, and no other one is. -/
theorem pack_subLoop {e s : ℕ} {m : BitVec 64} (hpos : 1 ≤ e) (hlt : e < 2047)
    (hm : m.toNat < 2 ^ 53) (hs : s < 2) :
    let c := BreakLoop.loop subBody e (e, m)
    (2 ^ 52 ≤ m.toNat * 2 ^ (e - 1) → Normal (pack c.2.1 c.2.2 s)) ∧
      (Normal (pack c.2.1 c.2.2 s) →
        val (pack c.2.1 c.2.2 s) = sgn s * (m.toNat * (2 ^ (e - 1) / 2 ^ 1074))) := by
  obtain ⟨hexp, hmant, hval, hend⟩ := subLoop e hm
  dsimp only
  generalize (BreakLoop.loop subBody e (e, m)).2 = c at hexp hmant hval hend ⊢
  obtain ⟨k, rfl⟩ := Nat.exists_eq_add_of_le' hpos
  rw [Nat.add_sub_cancel] at *
  rcases Nat.eq_zero_or_pos c.1 with h0 | h1
  · refine ⟨fun hge => ?_, fun hn => absurd (normal_pack_iff.1 hn).1 (by omega)⟩
    rw [h0, pow_zero, pow_succ, ← Nat.mul_assoc] at hval
    omega
  · have hbit := hend.resolve_right h1.ne'
    obtain ⟨hnormal, hpack⟩ := pack_normal h1 (by omega) hbit hmant hs
    refine ⟨fun _ => hnormal, fun _ => ?_⟩
    obtain ⟨j, hj⟩ := Nat.exists_eq_add_of_le' h1
    rw [hj, pow_succ, pow_succ, ← Nat.mul_assoc, ← Nat.mul_assoc] at hval
    have heq : (c.2.toNat : ℚ) * 2 ^ j = m.toNat * 2 ^ k := by
      exact_mod_cast Nat.eq_of_mul_eq_mul_right Nat.two_pos hval
    rw [hpack, hj, Nat.add_sub_cancel, ← mul_div_assoc (c.2.toNat : ℚ), heq, mul_div_assoc]

/-- The difference of two mantissas in the order of their size, with the sign of the larger one. -/
theorem mant_sub {ma mb : BitVec 64} (hma : ma.toNat < 2 ^ 53) (hmb : mb.toNat < 2 ^ 53) {s t : ℕ}
    (hs : s < 2) (ht : t < 2) (hst : s ≠ t) :
    ∃ n c, (if ma ≥ mb then ma - mb else mb - ma) = n ∧ (if ma ≥ mb then s else t) = c ∧
      n.toNat < 2 ^ 53 ∧ c < 2 ∧ (n.toNat : ℚ) = |(ma.toNat : ℚ) - mb.toNat| ∧
      sgn c * n.toNat = sgn s * ((ma.toNat : ℚ) - mb.toNat) := by
  by_cases h : ma ≥ mb
  · have hle : mb.toNat ≤ ma.toNat := h
    have hleq : (mb.toNat : ℚ) ≤ ma.toNat := Nat.cast_le.2 hle
    have hn : (ma - mb).toNat = ma.toNat - mb.toNat := BitVec.toNat_sub_of_le h
    refine ⟨ma - mb, s, if_pos h, if_pos h, by omega, hs, ?_⟩
    rw [hn, Nat.cast_sub hle, abs_of_nonneg (sub_nonneg.2 hleq)]
    exact ⟨rfl, rfl⟩
  · have hlt : ma.toNat < mb.toNat := BitVec.not_le.1 h
    have hltq : (ma.toNat : ℚ) ≤ mb.toNat := Nat.cast_le.2 hlt.le
    have hn : (mb - ma).toNat = mb.toNat - ma.toNat :=
      BitVec.toNat_sub_of_le (BitVec.le_of_lt (BitVec.not_le.1 h))
    refine ⟨mb - ma, t, if_neg h, if_neg h, by omega, ht, ?_⟩
    rw [hn, Nat.cast_sub hlt.le, abs_of_nonpos (sub_nonpos.2 hltq), sgn_other hs ht hst]
    constructor <;> ring

/-- The difference of the larger mantissa and the aligned one, in units of the larger exponent. -/
def alignedDiff (x y : BitVec 64) : ℚ :=
  (fullMant x).toNat - (align (fullMant y) (getExp x - getExp y)).toNat

theorem align_lt {m : BitVec 64} (hm : m ≠ 0) (hlt : m.toNat < 2 ^ 53) (d : ℕ) :
    (align m d).toNat < 2 ^ 53 := by
  rcases Nat.lt_or_ge 53 d with hfar | hnear
  · rcases Nat.lt_or_ge 63 d with hvery | hsticky
    · rw [align_far hvery]
      decide
    · rw [toNat_align_sticky hm hlt hfar hsticky]
      decide
  · have := toNat_align_le hlt hnear
    omega

theorem addOrdered_of_ne (hsign : getSign x ≠ getSign y) {m : BitVec 64}
    (hm : align (fullMant y) (getExp x - getExp y) = m) {n : BitVec 64} {s : ℕ}
    (hn : (if fullMant x ≥ m then fullMant x - m else m - fullMant x) = n)
    (hs : (if fullMant x ≥ m then getSign x else getSign y) = s) :
    addOrdered (unpack x) (unpack y) =
      if n = 0 then 0
      else pack (BreakLoop.loop subBody (getExp x) (getExp x, n)).2.1
        (BreakLoop.loop subBody (getExp x) (getExp x, n)).2.2 s := by
  subst hm hn hs
  exact if_neg hsign

/-- What the source computes for different signs, from the signed difference. -/
theorem addOrdered_sub (hx : Normal x) (hy : Normal y) (hsign : getSign x ≠ getSign y) :
    (alignedDiff x y = 0 → addOrdered (unpack x) (unpack y) = 0) ∧
      (2 ^ 52 ≤ |alignedDiff x y| * 2 ^ (getExp x - 1) →
        Normal (addOrdered (unpack x) (unpack y))) ∧
      (Normal (addOrdered (unpack x) (unpack y)) → val (addOrdered (unpack x) (unpack y)) =
        sgn (getSign x) * (alignedDiff x y * (2 ^ (getExp x - 1) / 2 ^ 1074))) := by
  have hexp := hx.2
  have hlt := align_lt hy.fullMant_ne_zero hy.fullMant_bounds.2 (getExp x - getExp y)
  obtain ⟨n, s, hmant, hsgn, hn, hs, habs, hval⟩ :=
    mant_sub hx.fullMant_bounds.2 hlt (getSign_lt x) (getSign_lt y) hsign
  have hcode := addOrdered_of_ne hsign rfl hmant hsgn
  unfold alignedDiff
  obtain ⟨hnormal, hpack⟩ := pack_subLoop hx.1 (by omega) hn hs
  rw [hcode, ← habs]
  by_cases h0 : n = 0
  · rw [if_pos h0]
    refine ⟨fun _ => rfl, fun hge => ?_, fun hnormal => absurd hnormal (by decide)⟩
    rw [h0, show (0 : BitVec 64).toNat = 0 from rfl, Nat.cast_zero, zero_mul] at hge
    exact absurd hge (by norm_num)
  · rw [if_neg h0]
    refine ⟨fun hD => ?_, fun hge => hnormal (by exact_mod_cast hge), fun hnormal => ?_⟩
    · rw [hD, abs_zero, Nat.cast_eq_zero] at habs
      exact absurd (BitVec.eq_of_toNat_eq habs) h0
    · rw [hpack hnormal, ← mul_assoc, hval, mul_assoc]

/-! ## The exact sum -/

theorem align_exact_iff (hy : Normal y) (d : ℕ) :
    (align (fullMant y) d).toNat * 2 ^ d = (fullMant y).toNat ↔ 2 ^ d ∣ (fullMant y).toNat := by
  have hmy := hy.fullMant_bounds
  refine ⟨Dvd.intro_left _, fun hdvd => ?_⟩
  have hpow : 2 ^ d < 2 ^ 53 := (Nat.le_of_dvd (by omega) hdvd).trans_lt hmy.2
  have hd : d ≤ 53 := ((Nat.pow_lt_pow_iff_right (by decide)).1 hpow).le
  rw [toNat_align hd, if_neg fun h => h.1 (Nat.mod_eq_zero_of_dvd hdvd), Nat.add_zero,
    Nat.div_mul_cancel hdvd]

/-- The exact sum is the computed difference if alignment keeps the smaller operand. -/
theorem val_add (hx : Normal x) (hy : Normal y) (hsign : getSign x ≠ getSign y)
    (hle : getExp y ≤ getExp x) :
    val x + val y = sgn (getSign x) * (alignedDiff x y * (2 ^ (getExp x - 1) / 2 ^ 1074)) ↔
      2 ^ (getExp x - getExp y) ∣ (fullMant y).toNat := by
  have hexp : getExp x - 1 = getExp x - getExp y + (getExp y - 1) := by
    have := hy.1
    omega
  have hsgn : sgn (getSign x) ≠ 0 := left_ne_zero_of_mul_eq_one (sgn_mul_self _)
  have hu : sgn (getSign x) * ((2 : ℚ) ^ (getExp y - 1) / 2 ^ 1074) ≠ 0 :=
    mul_ne_zero hsgn (by positivity)
  rw [← align_exact_iff hy, ← Nat.cast_inj (R := ℚ), hx.val_eq, hy.val_eq,
    sgn_other (getSign_lt x) (getSign_lt y) hsign, alignedDiff, hexp, pow_add, ← sub_eq_zero]
  generalize (2 : ℚ) ^ 1074 = c at hu ⊢
  rw [← sub_eq_zero (b := ((fullMant y).toNat : ℚ))]
  refine Iff.trans (Eq.congr ?_ rfl) (mul_eq_zero.trans (or_iff_right hu))
  push_cast
  ring

theorem getExp_eq_of_index_eq (h : index x = index y) : getExp x = getExp y := by
  have hmx := toNat_getMant_lt x
  have hmy := toNat_getMant_lt y
  rw [index_eq, index_eq] at h
  omega

theorem addOrdered_exact_iff (hx : Normal x) (hy : Normal y) (hsign : getSign x ≠ getSign y)
    (hle : getExp y ≤ getExp x) (hr : r = 0 ∨ Normal r) (hval : val r = val x + val y) :
    addOrdered (unpack x) (unpack y) = r ↔
      2 ^ (getExp x - getExp y) ∣ (fullMant y).toNat := by
  obtain ⟨hzero, hnormal, hcode⟩ := addOrdered_sub hx hy hsign
  have hsgn : sgn (getSign x) ≠ 0 := left_ne_zero_of_mul_eq_one (sgn_mul_self _)
  have hsum := val_add hx hy hsign hle
  rw [← hval] at hsum
  constructor
  · intro heq
    rcases hr with rfl | hr
    · rw [val_zero] at hval
      have hindex : index x = index y := by
        refine grid_strictMono.injective ?_
        rw [← abs_val, ← abs_val, eq_neg_of_add_eq_zero_left hval.symm, abs_neg]
      rw [getExp_eq_of_index_eq hindex, Nat.sub_self, pow_zero]
      exact one_dvd _
    · exact hsum.1 (heq ▸ hcode (heq ▸ hr))
  · intro hdvd
    have hv := hsum.2 hdvd
    rcases hr with rfl | hr
    · rw [val_zero, eq_comm, mul_eq_zero, or_iff_right hsgn, mul_eq_zero,
        or_iff_left (by positivity)] at hv
      exact hzero hv
    · have hbounds := hr.fullMant_bounds
      have habs : |sgn (getSign x)| = 1 := by
        unfold sgn
        split_ifs <;> norm_num
      have hge : (2 : ℚ) ^ 52 ≤ |alignedDiff x y| * 2 ^ (getExp x - 1) := by
        have heq := hr.abs_val
        rw [hv, abs_mul, habs, one_mul, abs_mul, abs_of_nonneg (by positivity : (0 : ℚ) ≤ _ / _),
          ← mul_div_assoc, ← mul_div_assoc, div_left_inj' (by positivity)] at heq
        rw [heq]
        exact_mod_cast hbounds.1.trans (Nat.le_mul_of_pos_right _ (Nat.two_pow_pos _))
      have hc := hnormal hge
      exact eq_of_val_eq hc.val_ne_zero ((hcode hc).trans hv.symm)

/-! ## `__adddf3` and `__subdf3` -/

/-- The mantissa of the operand with the smaller exponent ends in as many zeros as are shifted
out. -/
def AlignExact (a b : BitVec 64) : Prop :=
  if getExp a < getExp b then 2 ^ (getExp b - getExp a) ∣ (fullMant a).toNat
  else 2 ^ (getExp a - getExp b) ∣ (fullMant b).toNat
  deriving Decidable

theorem adddf3_sub_iff (ha : Normal a) (hb : Normal b) (hsign : getSign a ≠ getSign b)
    (hr : r = 0 ∨ Normal r) (hval : val r = val a + val b) : adddf3 a b = r ↔ AlignExact a b := by
  unfold AlignExact
  rw [adddf3_normal ha hb]
  split_ifs with hlt
  · exact addOrdered_exact_iff hb ha hsign.symm hlt.le hr (hval.trans (add_comm _ _))
  · exact addOrdered_exact_iff ha hb hsign (not_lt.1 hlt) hr hval

theorem val_flip (x : BitVec 64) : val (x ^^^ signMask) = -val x := by
  have hlt := getSign_lt x
  rw [val_eq, val_eq, index_flip, getSign_flip, sgn_other hlt (by omega) (by omega), neg_mul]

theorem normal_flip : Normal (x ^^^ signMask) ↔ Normal x := by
  rw [Normal, Normal, getExp_flip]

theorem alignExact_flip : AlignExact a (b ^^^ signMask) ↔ AlignExact a b := by
  rw [AlignExact, AlignExact, getExp_flip, fullMant_flip]

/-- A difference of normal numbers that is zero or a normal number is exact if and only if
alignment shifts out zeros only. -/
theorem difference_exact_iff (ha : Normal a) (hb : Normal b) (hr : r = 0 ∨ Normal r) :
    (getSign a ≠ getSign b → val r = val a + val b → (adddf3 a b = r ↔ AlignExact a b)) ∧
      (getSign a = getSign b → val r = val a - val b → (subdf3 a b = r ↔ AlignExact a b)) := by
  refine ⟨fun hsign hval => adddf3_sub_iff ha hb hsign hr hval, fun hsign hval => ?_⟩
  have hlt := getSign_lt b
  rw [subdf3, adddf3_sub_iff ha (normal_flip.2 hb) ?_ hr ?_, alignExact_flip]
  · rw [getSign_flip]
    omega
  · rw [val_flip, hval, sub_eq_add_neg]

/-- `3 - 2 = 1` -/
theorem difference_exact_one :
    adddf3 0x4008000000000000 0xC000000000000000 = 0x3FF0000000000000 :=
  ((difference_exact_iff (by decide) (by decide) (.inr (by decide))).1 (by decide)
    (by decide +kernel)).2 (by decide)

/-- `1 - (1 - 2 ^ -53)` comes out twice as large. -/
theorem difference_not_exact :
    ¬ ∀ a b r, Normal a → Normal b → getSign a ≠ getSign b → (r = 0 ∨ Normal r) →
      val r = val a + val b → adddf3 a b = r := by
  intro h
  have hval : val 0x3CA0000000000000 = val 0x3FF0000000000000 + val 0xBFEFFFFFFFFFFFFF := by
    decide +kernel
  exact absurd (h _ _ _ (by decide) (by decide) (by decide) (.inr (by decide)) hval) (by decide)

end Herve.Softfloat
