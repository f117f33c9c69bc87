import Herve.Softfloat.Classes
import Herve.Softfloat.Product

/-! Swapped operands and flipped signs. -/

namespace Herve.Softfloat

variable {a b ma mb : BitVec 64} {s : ℕ}

/-! ## Multiplication -/

theorem product_comm (ha : ma.toNat < 2 ^ 53) (hb : mb.toNat < 2 ^ 53) :
    product ma mb = product mb ma := by
  obtain ⟨hhi, hlo⟩ := product_eq ha hb
  obtain ⟨hhi', hlo'⟩ := product_eq hb ha
  rw [Nat.mul_comm] at hhi' hlo'
  exact Prod.ext (BitVec.eq_of_toNat_eq (hhi.trans hhi'.symm))
    (BitVec.eq_of_toNat_eq (hlo.trans hlo'.symm))

theorem muldf3_comm (a b : BitVec 64) : muldf3 a b = muldf3 b a := by
  by_cases hn : IsNaN a ∨ IsNaN b
  · rw [muldf3_nan hn, muldf3_nan hn.symm]
  by_cases hi : IsInf a ∨ IsInf b
  · rw [muldf3_inf hn hi, muldf3_inf (hn ∘ .symm) hi.symm, Nat.xor_comm]
  by_cases hz : IsZero a ∨ IsZero b
  · rw [muldf3_zero hn hi hz, muldf3_zero (hn ∘ .symm) (hi ∘ .symm) hz.symm, Nat.xor_comm]
  · rw [muldf3_finite hn hi hz, muldf3_finite (hn ∘ .symm) (hi ∘ .symm) (hz ∘ .symm),
      product_comm (fullMant_lt a) (fullMant_lt b), Nat.xor_comm, Int.add_comm]

/-! ## The sign of a product -/

theorem setSign_flip (x : BitVec 64) (h : s < 2) :
    setSign x (1 - s) = setSign x s ^^^ signMask := by
  refine eq_of_sign_index ?_ ?_
  · rw [getSign_flip, getSign_setSign, getSign_setSign]
    omega
  · rw [index_flip, index_setSign, index_setSign]

theorem pack_flip (e : ℤ) (m : BitVec 64) (h : s < 2) :
    pack e m (1 - s) = pack e m s ^^^ signMask := by
  unfold pack
  split_ifs
  · exact setSign_flip _ h
  · exact setSign_flip _ h
  · exact setSign_flip _ h

theorem roundAndPack_flip (m g r t : BitVec 64) (e : ℤ) (h : s < 2) :
    roundAndPack m g r t e (1 - s) = roundAndPack m g r t e s ^^^ signMask := by
  unfold roundAndPack
  split_ifs
  · exact pack_flip _ _ h
  · exact pack_flip _ _ h
  · exact pack_flip _ _ h

theorem normalize_flip (mHi mLo : BitVec 64) (e : ℤ) (h : s < 2) :
    normalize mHi mLo e (1 - s) = normalize mHi mLo e s ^^^ signMask := by
  unfold normalize
  dsimp only
  split_ifs
  · exact setSign_flip _ h
  · exact roundAndPack_flip _ _ _ _ _ h
  · exact roundAndPack_flip _ _ _ _ _ h
  · exact roundAndPack_flip _ _ _ _ _ h

theorem sign_xor (a b : BitVec 64) : getSign a ^^^ getSign b < 2 ∧
    getSign (a ^^^ signMask) ^^^ getSign b = 1 - (getSign a ^^^ getSign b) := by
  have hsa := getSign_lt a
  have hsb := getSign_lt b
  rw [getSign_flip]
  interval_cases getSign a <;> interval_cases getSign b <;> decide

theorem muldf3_flip (ha : ¬ IsNaN a) (hb : ¬ IsNaN b) :
    muldf3 (a ^^^ signMask) b = muldf3 a b ^^^ signMask := by
  obtain ⟨hlt, hsign⟩ := sign_xor a b
  have hn : ¬ (IsNaN a ∨ IsNaN b) := not_or.2 ⟨ha, hb⟩
  have hn' : ¬ (IsNaN (a ^^^ signMask) ∨ IsNaN b) := by rwa [isNaN_flip]
  by_cases hi : IsInf a ∨ IsInf b
  · have hi' : IsInf (a ^^^ signMask) ∨ IsInf b := by rwa [isInf_flip]
    rw [muldf3_inf hn hi, muldf3_inf hn' hi', hsign, setSign_flip _ hlt]
  have hi' : ¬ (IsInf (a ^^^ signMask) ∨ IsInf b) := by rwa [isInf_flip]
  by_cases hz : IsZero a ∨ IsZero b
  · have hz' : IsZero (a ^^^ signMask) ∨ IsZero b := by rwa [isZero_flip]
    rw [muldf3_zero hn hi hz, muldf3_zero hn' hi' hz', hsign, setSign_flip _ hlt]
  · have hz' : ¬ (IsZero (a ^^^ signMask) ∨ IsZero b) := by rwa [isZero_flip]
    rw [muldf3_finite hn hi hz, muldf3_finite hn' hi' hz', hsign, fullMant_flip, getExp_flip,
      normalize_flip _ _ _ hlt]

theorem muldf3_symmetric (a b : BitVec 64) :
    muldf3 a b = muldf3 b a ∧
      (¬ IsNaN a → ¬ IsNaN b → muldf3 (a ^^^ signMask) b = muldf3 a b ^^^ signMask ∧
        muldf3 a (b ^^^ signMask) = muldf3 a b ^^^ signMask) := by
  refine ⟨muldf3_comm a b, fun ha hb => ⟨muldf3_flip ha hb, ?_⟩⟩
  rw [muldf3_comm, muldf3_flip hb ha, muldf3_comm]

/-- `-1.5 * 1.5` and `1.5 * -1.5` -/
theorem muldf3_symmetric_square :
    muldf3 0xBFF8000000000000 0x3FF8000000000000 = 0xC002000000000000 ∧
      muldf3 0x3FF8000000000000 0xBFF8000000000000 = 0xC002000000000000 :=
  (muldf3_symmetric 0x3FF8000000000000 0x3FF8000000000000).2 (by decide) (by decide)

/-! ## Addition -/

theorem align_zero (m : BitVec 64) : align m 0 = m := rfl

theorem addMants_comm (ma mb : BitVec 64) (e : ℕ) : addMants ma mb e = addMants mb ma e := by
  unfold addMants
  rw [BitVec.add_comm]

/-- With different signs the order of the mantissas decides, and equal ones give zero. -/
theorem addOrdered_comm {x y : Operand} (h : x.exp = y.exp) : addOrdered x y = addOrdered y x := by
  unfold addOrdered
  dsimp only
  rw [h, Nat.sub_self, align_zero, align_zero]
  by_cases hs : x.sign = y.sign
  · rw [if_pos hs, if_pos hs.symm, addMants_comm, hs]
  · rw [if_neg hs, if_neg (Ne.symm hs)]
    by_cases hm : x.mant = y.mant
    · rw [hm, ite_self, BitVec.sub_self]
      exact (if_pos rfl).trans (if_pos rfl).symm
    · have hge : y.mant ≥ x.mant ↔ ¬ x.mant ≥ y.mant := by
        rw [← BitVec.toNat_inj] at hm
        rw [ge_iff_le, ge_iff_le, BitVec.le_def, BitVec.le_def]
        omega
      simp only [hge, ite_not]

theorem adddf3_comm_of_finite (ha : getExp a ≠ 2047) (hb : getExp b ≠ 2047) (hza : ¬ IsZero a)
    (hzb : ¬ IsZero b) : adddf3 a b = adddf3 b a := by
  rw [adddf3_finite ha hb hza hzb, adddf3_finite hb ha hzb hza]
  rcases lt_trichotomy (getExp a) (getExp b) with hlt | heq | hgt
  · rw [if_pos hlt, if_neg hlt.asymm]
  · rw [if_neg heq.not_lt, if_neg heq.not_gt]
    exact addOrdered_comm heq
  · rw [if_neg hgt.asymm, if_pos hgt]

theorem IsInf.eq_of_sign (ha : IsInf a) (hb : IsInf b) (h : getSign a = getSign b) : a = b :=
  eq_of_sign_index h ((isInf_iff_index.1 ha).trans (isInf_iff_index.1 hb).symm)

/-- Without NaNs and different infinities only `+0` and `-0` are returned in their order. -/
theorem adddf3_comm_iff (ha : ¬ IsNaN a) (hb : ¬ IsNaN b)
    (h : IsInf a → IsInf b → getSign a = getSign b) :
    adddf3 a b = adddf3 b a ↔ ¬ (IsZero a ∧ IsZero b ∧ getSign a ≠ getSign b) := by
  by_cases hea : getExp a = 2047
  · have hia := (isInf_or_isNaN.1 hea).resolve_right ha
    refine iff_of_true ?_ fun hz => hz.1.exp_ne hea
    rw [adddf3_left hea]
    by_cases heb : getExp b = 2047
    · have hib := (isInf_or_isNaN.1 heb).resolve_right hb
      rw [adddf3_left heb, hia.eq_of_sign hib (h hia hib)]
    · rw [adddf3_right heb hea]
  by_cases heb : getExp b = 2047
  · refine iff_of_true ?_ fun hz => hz.2.1.exp_ne heb
    rw [adddf3_right hea heb, adddf3_left heb]
  by_cases hza : IsZero a
  · rw [adddf3_zero_left hza heb]
    by_cases hzb : IsZero b
    · rw [adddf3_zero_left hzb hea, not_and, not_and, not_not, forall_prop_of_true hza,
        forall_prop_of_true hzb]
      refine ⟨fun heq => heq ▸ rfl, fun hs => eq_of_sign_index hs.symm ?_⟩
      rw [isZero_iff_index.1 hza, isZero_iff_index.1 hzb]
    · rw [adddf3_zero_right heb hzb hza]
      exact iff_of_true rfl fun hz => hzb hz.2.1
  · refine iff_of_true ?_ fun hz => hza hz.1
    by_cases hzb : IsZero b
    · rw [adddf3_zero_right hea hza hzb, adddf3_zero_left hzb hea]
    · exact adddf3_comm_of_finite hea heb hza hzb

/-- `1 + Inf` and `Inf + 1` -/
theorem adddf3_comm_inf :
    adddf3 0x3FF0000000000000 0x7FF0000000000000 = adddf3 0x7FF0000000000000 0x3FF0000000000000 :=
  (adddf3_comm_iff (by decide) (by decide) (by decide)).2 (by decide)

/-- `+0 + -0` and `-0 + +0` -/
theorem adddf3_not_comm :
    ¬ ∀ a b, ¬ IsNaN a → ¬ IsNaN b → (IsInf a → IsInf b → getSign a = getSign b) →
      adddf3 a b = adddf3 b a := by
  intro h
  exact absurd (h 0 0x8000000000000000 (by decide) (by decide) (by decide)) (by decide)

end Herve.Softfloat
