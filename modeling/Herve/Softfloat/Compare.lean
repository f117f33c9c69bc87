import Herve.Softfloat.Classes

/-! The order of the patterns, and what the comparison functions make of it. -/

namespace Herve.Softfloat

variable {a b x : BitVec 64}

/-- The value of a pattern that is no NaN. -/
def extVal (x : BitVec 64) : WithBot (WithTop ℚ) :=
  if getExp x = 2047 then if getSign x = 0 then ⊤ else ⊥ else ((val x : WithTop ℚ) : WithBot _)

/-! ## Values -/

theorem index_le (h : ¬ IsNaN x) : index x ≤ infinity := by
  have hlt := toNat_getMant_lt x
  have hexp := getExp_lt x
  rw [IsNaN, not_and, not_not, word_eq_zero_iff] at h
  rw [index_eq, infinity]
  omega

theorem index_lt (h : getExp x ≠ 2047) : index x < infinity := by
  refine lt_of_le_of_ne (index_le fun hn => h hn.1) fun hi => ?_
  exact h (isInf_iff_index.2 hi).1

theorem abs_val_lt (h : getExp x ≠ 2047) : |val x| < grid infinity := by
  rw [abs_val]
  exact grid_strictMono (index_lt h)

theorem abs_val_le (h : ¬ IsNaN x) : |val x| ≤ grid infinity := by
  rw [abs_val]
  exact grid_strictMono.monotone (index_le h)

theorem extVal_finite (h : getExp x ≠ 2047) : extVal x = ((val x : WithTop ℚ) : WithBot _) :=
  if_neg h

/-- An infinity is `⊤` or `⊥`, and its pattern is that of the next power of two. -/
theorem IsInf.cases (h : IsInf x) :
    extVal x = ⊤ ∧ val x = grid infinity ∨ extVal x = ⊥ ∧ val x = -grid infinity := by
  unfold extVal
  rw [if_pos h.1]
  by_cases hs : getSign x = 0
  · refine .inl ⟨if_pos hs, ?_⟩
    rw [val_of_sign_zero hs, isInf_iff_index.1 h]
  · refine .inr ⟨if_neg hs, ?_⟩
    rw [val_of_sign_ne hs, isInf_iff_index.1 h]

theorem finite_or_isInf (h : ¬ IsNaN x) : getExp x ≠ 2047 ∨ IsInf x :=
  or_iff_not_imp_left.2 fun hexp => (isInf_or_isNaN.1 (not_not.1 hexp)).resolve_right h

theorem extVal_lt (ha : ¬ IsNaN a) (hb : ¬ IsNaN b) (h : val a < val b) :
    extVal a < extVal b := by
  have hle := abs_le.1 (abs_val_le ha)
  have hle' := abs_le.1 (abs_val_le hb)
  rcases finite_or_isInf ha with hfa | hia
  · have hlt := abs_lt.1 (abs_val_lt hfa)
    rw [extVal_finite hfa]
    rcases finite_or_isInf hb with hfb | hib
    · rw [extVal_finite hfb]
      exact_mod_cast h
    · rcases hib.cases with ⟨htop, -⟩ | ⟨-, hval⟩
      · rw [htop]
        exact WithBot.coe_lt_coe.2 (WithTop.coe_lt_top _)
      · rw [hval] at h
        exact absurd h hle.1.not_gt
  · rcases hia.cases with ⟨-, hval⟩ | ⟨hbot, hval⟩
    · rw [hval] at h
      exact absurd h hle'.2.not_gt
    · rw [hbot, bot_lt_iff_ne_bot]
      rcases finite_or_isInf hb with hfb | hib
      · rw [extVal_finite hfb]
        exact WithBot.coe_ne_bot
      · rcases hib.cases with ⟨htop, -⟩ | ⟨-, hval'⟩
        · rw [htop]
          exact top_ne_bot
        · exact absurd h (hval.trans hval'.symm).not_lt

theorem extVal_eq (h : val a = val b) : extVal a = extVal b := by
  by_cases h0 : val a = 0
  · have hza := isZero_iff_val.2 h0
    have hzb := isZero_iff_val.2 (h ▸ h0)
    rw [extVal_finite hza.exp_ne, extVal_finite hzb.exp_ne, h]
  · rw [eq_of_val_eq h0 h]

section Order
variable (ha : ¬ IsNaN a) (hb : ¬ IsNaN b)
include ha hb

theorem extVal_lt_iff : extVal a < extVal b ↔ val a < val b := by
  refine ⟨fun h => ?_, extVal_lt ha hb⟩
  by_contra hle
  rcases (not_lt.1 hle).lt_or_eq with hgt | heq
  · exact h.asymm (extVal_lt hb ha hgt)
  · exact h.ne (extVal_eq heq.symm)

theorem extVal_eq_iff : extVal a = extVal b ↔ val a = val b := by
  refine ⟨fun h => ?_, extVal_eq⟩
  rcases lt_trichotomy (val a) (val b) with hlt | heq | hgt
  · exact absurd h (extVal_lt ha hb hlt).ne
  · exact heq
  · exact absurd h (extVal_lt hb ha hgt).ne'

end Order

/-! ## `cmpdf3` -/

theorem magnitude_gt_iff : a &&& ~~~signMask > b &&& ~~~signMask ↔ index b < index a := by
  rw [gt_iff_lt, BitVec.lt_def, toNat_magnitude, toNat_magnitude]
  rfl

theorem val_lt_of_sign_zero (ha : getSign a = 0) (hb : getSign b = 0) :
    val a < val b ↔ index a < index b := by
  rw [val_of_sign_zero ha, val_of_sign_zero hb, grid_strictMono.lt_iff_lt]

theorem val_lt_of_sign_ne (ha : getSign a ≠ 0) (hb : getSign b ≠ 0) :
    val a < val b ↔ index b < index a := by
  rw [val_of_sign_ne ha, val_of_sign_ne hb, neg_lt_neg_iff, grid_strictMono.lt_iff_lt]

theorem cmpdf3_self (a : BitVec 64) : cmpdf3 a a = 0 := if_pos rfl

theorem cmpdf3_of_sign_ne (h : getSign a ≠ getSign b) :
    cmpdf3 a b = if getSign a ≠ 0 then -1 else 1 :=
  (if_neg fun heq => h (congrArg getSign heq)).trans (if_pos h)

theorem cmpdf3_of_sign_eq (hne : a ≠ b) (h : getSign a = getSign b) :
    cmpdf3 a b =
      if getSign a ≠ 0 then if index b < index a then -1 else 1
      else if index b < index a then 1 else -1 := by
  have hmag : a &&& ~~~signMask ≠ b &&& ~~~signMask := by
    rw [ne_eq, ← BitVec.toNat_inj, toNat_magnitude, toNat_magnitude]
    exact fun hi => hne (eq_of_sign_index h hi)
  unfold cmpdf3
  dsimp only
  rw [if_neg hne, if_neg (not_not.2 h), if_neg hmag]
  simp only [magnitude_gt_iff]

theorem cmpdf3_of_lt (h : val a < val b) : cmpdf3 a b = -1 := by
  have hne : a ≠ b := fun heq => h.ne (congrArg val heq)
  by_cases hs : getSign a = getSign b
  · rw [cmpdf3_of_sign_eq hne hs]
    by_cases h0 : getSign a = 0
    · have hlt := (val_lt_of_sign_zero h0 (hs ▸ h0)).1 h
      rw [if_neg (not_not.2 h0), if_neg hlt.asymm]
    · rw [if_pos h0, if_pos ((val_lt_of_sign_ne h0 (hs ▸ h0)).1 h)]
  · rw [cmpdf3_of_sign_ne hs, if_pos]
    intro h0
    exact h.not_ge ((val_nonpos_of_sign fun hb => hs (h0.trans hb.symm)).trans
      (val_nonneg_of_sign h0))

theorem cmpdf3_of_gt (h : val b < val a) : cmpdf3 a b = 1 := by
  have hne : a ≠ b := fun heq => h.ne' (congrArg val heq)
  by_cases hs : getSign a = getSign b
  · rw [cmpdf3_of_sign_eq hne hs]
    by_cases h0 : getSign a = 0
    · have hlt := (val_lt_of_sign_zero (hs ▸ h0) h0).1 h
      rw [if_neg (not_not.2 h0), if_pos hlt]
    · have hlt := (val_lt_of_sign_ne (hs ▸ h0) h0).1 h
      rw [if_pos h0, if_neg hlt.asymm]
  · rw [cmpdf3_of_sign_ne hs, if_neg]
    intro h0
    have hb := getSign_lt b
    have ha := getSign_lt a
    exact h.not_ge ((val_nonpos_of_sign h0).trans (val_nonneg_of_sign (by omega)))

/-- Only zeros have two patterns. -/
theorem eq_or_isZero (h : val a = val b) : a = b ∨ IsZero a ∧ IsZero b := by
  by_cases h0 : val a = 0
  · exact .inr ⟨isZero_iff_val.2 h0, isZero_iff_val.2 (h ▸ h0)⟩
  · exact .inl (eq_of_val_eq h0 h)

theorem cmpdf3_cases (h : ¬ (IsZero a ∧ IsZero b ∧ getSign a ≠ getSign b)) :
    val a < val b ∧ cmpdf3 a b = -1 ∨ val a = val b ∧ cmpdf3 a b = 0 ∨
      val b < val a ∧ cmpdf3 a b = 1 := by
  rcases lt_trichotomy (val a) (val b) with hlt | heq | hgt
  · exact .inl ⟨hlt, cmpdf3_of_lt hlt⟩
  · refine .inr (.inl ⟨heq, ?_⟩)
    rcases eq_or_isZero heq with rfl | ⟨hza, hzb⟩
    · exact cmpdf3_self a
    · have hs : getSign a = getSign b := not_not.1 fun hs => h ⟨hza, hzb, hs⟩
      rw [eq_of_sign_index hs ((isZero_iff_index.1 hza).trans (isZero_iff_index.1 hzb).symm),
        cmpdf3_self]
  · exact .inr (.inr ⟨hgt, cmpdf3_of_gt hgt⟩)

theorem cmpdf3_zeros (hza : IsZero a) (hzb : IsZero b) (h : getSign a ≠ getSign b) :
    val a = val b ∧ cmpdf3 a b ≠ 0 := by
  refine ⟨(isZero_iff_val.1 hza).trans (isZero_iff_val.1 hzb).symm, ?_⟩
  rw [cmpdf3_of_sign_ne h]
  split_ifs <;> decide

theorem cmpdf3_iff (ha : ¬ IsNaN a) (hb : ¬ IsNaN b) :
    ((cmpdf3 a b = -1 ↔ extVal a < extVal b) ∧ (cmpdf3 a b = 0 ↔ extVal a = extVal b) ∧
        (cmpdf3 a b = 1 ↔ extVal b < extVal a)) ↔
      ¬ (IsZero a ∧ IsZero b ∧ getSign a ≠ getSign b) := by
  rw [extVal_lt_iff ha hb, extVal_eq_iff ha hb, extVal_lt_iff hb ha]
  constructor
  · rintro ⟨-, heq, -⟩ ⟨hza, hzb, hs⟩
    obtain ⟨hval, hne⟩ := cmpdf3_zeros hza hzb hs
    exact hne (heq.2 hval)
  · intro h
    rcases cmpdf3_cases h with ⟨hlt, hc⟩ | ⟨heq, hc⟩ | ⟨hgt, hc⟩
    · rw [hc]
      exact ⟨iff_of_true rfl hlt, iff_of_false (by decide) hlt.ne,
        iff_of_false (by decide) hlt.asymm⟩
    · rw [hc, heq]
      exact ⟨iff_of_false (by decide) (lt_irrefl _), iff_of_true rfl rfl,
        iff_of_false (by decide) (lt_irrefl _)⟩
    · rw [hc]
      exact ⟨iff_of_false (by decide) hgt.asymm, iff_of_false (by decide) hgt.ne',
        iff_of_true rfl hgt⟩

/-- `-Inf` against `1` -/
theorem cmpdf3_inf : cmpdf3 0xFFF0000000000000 0x3FF0000000000000 = -1 ↔
    extVal 0xFFF0000000000000 < extVal 0x3FF0000000000000 :=
  ((cmpdf3_iff (by decide) (by decide)).2 (by decide)).1

/-- `+0` against `-0` -/
theorem cmpdf3_unordered :
    ¬ ∀ a b, ¬ IsNaN a → ¬ IsNaN b →
      (cmpdf3 a b = -1 ↔ extVal a < extVal b) ∧ (cmpdf3 a b = 0 ↔ extVal a = extVal b) ∧
        (cmpdf3 a b = 1 ↔ extVal b < extVal a) := by
  intro h
  have heq : extVal 0 = extVal 0x8000000000000000 := extVal_eq (by decide +kernel)
  exact absurd ((h 0 0x8000000000000000 (by decide) (by decide)).2.1.2 heq) (by decide)

/-! ## What the compiler tests -/

/-- The conditions that compiled comparisons test, for operands that are no NaN. -/
structure ComparesAsTested (a b : BitVec 64) : Prop where
  eq : eqdf2 a b = 0 ↔ extVal a = extVal b
  ne : nedf2 a b ≠ 0 ↔ extVal a ≠ extVal b
  lt : ltdf2 a b < 0 ↔ extVal a < extVal b
  le : ledf2 a b ≤ 0 ↔ extVal a ≤ extVal b
  gt : gtdf2 a b > 0 ↔ extVal a > extVal b
  ge : gedf2 a b ≥ 0 ↔ extVal a ≥ extVal b

section Truth
variable {p : Prop} [Decidable p]

theorem truth_nonneg : 0 ≤ truth p := by
  unfold truth
  split_ifs <;> decide

theorem truth_pos : 0 < truth p ↔ p := by
  unfold truth
  split_ifs with h
  · exact iff_of_true (by decide) h
  · exact iff_of_false (by decide) h

theorem truth_nonpos : truth p ≤ 0 ↔ ¬ p := by
  rw [← not_lt, truth_pos]

theorem truth_eq_zero : truth p = 0 ↔ ¬ p := by
  rw [← truth_nonneg.ge_iff_eq', truth_nonpos]

end Truth

/-- A result that is tested with `== 0` or `<= 0` answers the opposite question, and a test of the
sign of one that is never negative always comes out the same. -/
theorem compares_iff (ha : ¬ IsNaN a) (hb : ¬ IsNaN b) (hza : ¬ IsZero a) :
    ¬ (eqdf2 a b = 0 ↔ extVal a = extVal b) ∧ (nedf2 a b ≠ 0 ↔ extVal a ≠ extVal b) ∧
      ((ltdf2 a b < 0 ↔ extVal a < extVal b) ↔ extVal b ≤ extVal a) ∧
      ¬ (ledf2 a b ≤ 0 ↔ extVal a ≤ extVal b) ∧ (gtdf2 a b > 0 ↔ extVal a > extVal b) ∧
      ((gedf2 a b ≥ 0 ↔ extVal a ≥ extVal b) ↔ extVal b ≤ extVal a) := by
  obtain ⟨heq, hgt⟩ : (cmpdf3 a b = 0 ↔ extVal a = extVal b) ∧
      (0 < cmpdf3 a b ↔ extVal b < extVal a) := by
    rw [extVal_eq_iff ha hb, extVal_lt_iff hb ha]
    rcases cmpdf3_cases fun hz => hza hz.1 with ⟨hlt, hc⟩ | ⟨heq, hc⟩ | ⟨hgt, hc⟩
    · rw [hc]
      exact ⟨iff_of_false (by decide) hlt.ne, iff_of_false (by decide) hlt.asymm⟩
    · rw [hc, heq]
      exact ⟨iff_of_true rfl rfl, iff_of_false (by decide) (lt_irrefl _)⟩
    · rw [hc]
      exact ⟨iff_of_false (by decide) hgt.ne', iff_of_true (by decide) hgt⟩
  have hle : cmpdf3 a b ≤ 0 ↔ extVal a ≤ extVal b := by
    rw [← not_lt, hgt, not_lt]
  refine ⟨?_, ?_, ?_, ?_, ?_, ?_⟩
  · rw [eqdf2, truth_eq_zero, heq]
    exact not_iff_self
  · rw [nedf2, ne_eq, truth_eq_zero, not_not, ne_eq, heq]
  · rw [ltdf2, iff_false_left truth_nonneg.not_gt, not_lt]
  · rw [ledf2, truth_nonpos, hle]
    exact not_iff_self
  · rw [gtdf2, gt_iff_lt, truth_pos, gt_iff_lt, hgt]
  · rw [gedf2]
    exact iff_true_left truth_nonneg

theorem not_comparesAsTested (ha : ¬ IsNaN a) (hb : ¬ IsNaN b) (hza : ¬ IsZero a) :
    ¬ ComparesAsTested a b := fun h => (compares_iff ha hb hza).1 h.eq

/-- `1` against `2` -/
theorem not_comparesAsTested_one_two :
    ¬ ComparesAsTested 0x3FF0000000000000 0x4000000000000000 :=
  not_comparesAsTested (by decide) (by decide) (by decide)

/-- `1 == 1` is tested as `1 == 0`. -/
theorem one_not_tested_equal :
    ¬ ∀ a b, ¬ IsNaN a → ¬ IsNaN b → ¬ IsZero a → ¬ IsZero b → ComparesAsTested a b := by
  intro h
  have heq := (h 0x3FF0000000000000 0x3FF0000000000000 (by decide) (by decide) (by decide)
    (by decide)).eq
  exact absurd (heq.2 rfl) (by decide)

end Herve.Softfloat
