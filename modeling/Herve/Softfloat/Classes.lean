import Herve.Softfloat.Value

/-! Zeros, infinities and NaNs, and the branches of the operations that they take. -/

namespace Herve.Softfloat

variable {a b x : BitVec 64}

def IsNaN (x : BitVec 64) : Prop := getExp x = 2047 ∧ getMant x ≠ 0
  deriving Decidable

def IsInf (x : BitVec 64) : Prop := getExp x = 2047 ∧ getMant x = 0
  deriving Decidable

def IsZero (x : BitVec 64) : Prop := getExp x = 0 ∧ getMant x = 0
  deriving Decidable

def Special (x : BitVec 64) : Prop := IsZero x ∨ IsInf x ∨ IsNaN x
  deriving Decidable

/-! ## Classes -/

theorem isInf_or_isNaN : getExp x = 2047 ↔ IsInf x ∨ IsNaN x := by
  unfold IsInf IsNaN
  rw [← and_or_left, and_iff_left (em _)]

theorem IsInf.not_isNaN (h : IsInf x) : ¬ IsNaN x := fun hn => hn.2 h.2

theorem IsZero.exp_ne (h : IsZero x) : getExp x ≠ 2047 := by
  rw [h.1]
  decide

theorem IsZero.not_isNaN (h : IsZero x) : ¬ IsNaN x := fun hn => h.exp_ne hn.1

theorem IsZero.not_isInf (h : IsZero x) : ¬ IsInf x := fun hi => h.exp_ne hi.1

theorem Special.isZero (h : Special x) (hexp : getExp x ≠ 2047) : IsZero x :=
  h.resolve_right fun hs => hexp (isInf_or_isNaN.2 hs)

theorem isNaN_flip : IsNaN (x ^^^ signMask) ↔ IsNaN x := by
  rw [IsNaN, IsNaN, getExp_flip, getMant_flip]

theorem isInf_flip : IsInf (x ^^^ signMask) ↔ IsInf x := by
  rw [IsInf, IsInf, getExp_flip, getMant_flip]

theorem isZero_flip : IsZero (x ^^^ signMask) ↔ IsZero x := by
  rw [IsZero, IsZero, getExp_flip, getMant_flip]

theorem special_flip : Special (x ^^^ signMask) ↔ Special x := by
  rw [Special, Special, isNaN_flip, isInf_flip, isZero_flip]

theorem isZero_iff_index : IsZero x ↔ index x = 0 := by
  rw [IsZero, index_eq, word_eq_zero_iff]
  omega

/-- A pattern is its sign and its lower 63 bits. -/
theorem eq_of_sign_index (hs : getSign a = getSign b) (hi : index a = index b) : a = b := by
  refine (eq_iff_index (s := getSign b) ?_ rfl).2 hi
  rw [← hs, getSign_eq]
  unfold index
  omega

theorem isZero_iff_val : IsZero x ↔ val x = 0 := by
  rw [isZero_iff_index, ← abs_eq_zero, abs_val, ← grid_zero, grid_strictMono.injective.eq_iff]

theorem isInf_iff_index : IsInf x ↔ index x = infinity := by
  have := toNat_getMant_lt x
  rw [IsInf, index_eq, infinity, word_eq_zero_iff]
  omega

theorem isZero_setSign (s : ℕ) : IsZero (setSign 0 s) := by
  rw [isZero_iff_index, index_setSign]
  rfl

theorem isInf_setSign (s : ℕ) : IsInf (setSign (expMask <<< 52) s) := by
  rw [isInf_iff_index, index_setSign]
  decide

theorem inf_ne_zero (s t : ℕ) : setSign (expMask <<< 52) s ≠ setSign 0 t := fun h =>
  (isZero_setSign t).not_isInf (h ▸ isInf_setSign s)

/-! ## Normal numbers -/

theorem Normal.exp_ne (h : Normal a) : getExp a ≠ 2047 := (Nat.lt_succ_of_le h.2).ne

theorem Normal.not_isNaN (h : Normal a) : ¬ IsNaN a := fun hn => h.exp_ne hn.1

theorem Normal.not_isInf (h : Normal a) : ¬ IsInf a := fun hi => h.exp_ne hi.1

theorem Normal.not_isZero (h : Normal a) : ¬ IsZero a := fun hz => h.exp_ne_zero hz.1

/-! ## The operations on each class -/

theorem adddf3_left (h : getExp a = 2047) : adddf3 a b = a := if_pos h

theorem adddf3_right (ha : getExp a ≠ 2047) (h : getExp b = 2047) : adddf3 a b = b := by
  unfold adddf3
  rw [if_neg ha, if_pos h]

theorem adddf3_zero_left (ha : IsZero a) (hb : getExp b ≠ 2047) : adddf3 a b = b := by
  unfold adddf3
  rw [if_neg ha.exp_ne, if_neg hb]
  exact if_pos ha

theorem adddf3_zero_right (ha : getExp a ≠ 2047) (hza : ¬ IsZero a) (hb : IsZero b) :
    adddf3 a b = a := by
  unfold adddf3
  rw [if_neg ha, if_neg hb.exp_ne]
  exact (if_neg hza).trans (if_pos hb)

theorem adddf3_finite (ha : getExp a ≠ 2047) (hb : getExp b ≠ 2047) (hza : ¬ IsZero a)
    (hzb : ¬ IsZero b) :
    adddf3 a b = if getExp a < getExp b then addOrdered (unpack b) (unpack a)
      else addOrdered (unpack a) (unpack b) := by
  unfold adddf3
  rw [if_neg ha, if_neg hb]
  exact (if_neg hza).trans (if_neg hzb)

theorem exp_of_isNaN (h : IsNaN a ∨ IsNaN b) : getExp a = 2047 ∨ getExp b = 2047 :=
  h.imp And.left And.left

theorem exp_of_isInf (h : IsInf a ∨ IsInf b) : getExp a = 2047 ∨ getExp b = 2047 :=
  h.imp And.left And.left

theorem not_exp_iff : ¬ (getExp a = 2047 ∨ getExp b = 2047) ↔
    ¬ (IsNaN a ∨ IsNaN b) ∧ ¬ (IsInf a ∨ IsInf b) := by
  rw [isInf_or_isNaN, isInf_or_isNaN]
  tauto

section Product
variable (hn : ¬ (IsNaN a ∨ IsNaN b))

theorem muldf3_nan (h : IsNaN a ∨ IsNaN b) : muldf3 a b = 0x7FF8000000000000 :=
  (if_pos (exp_of_isNaN h)).trans (if_pos h)

include hn

theorem muldf3_inf (h : IsInf a ∨ IsInf b) :
    muldf3 a b = setSign (expMask <<< 52) (getSign a ^^^ getSign b) :=
  (if_pos (exp_of_isInf h)).trans (if_neg hn)

theorem muldf3_zero (hi : ¬ (IsInf a ∨ IsInf b)) (h : IsZero a ∨ IsZero b) :
    muldf3 a b = setSign 0 (getSign a ^^^ getSign b) :=
  (if_neg (not_exp_iff.2 ⟨hn, hi⟩)).trans (if_pos h)

theorem muldf3_finite (hi : ¬ (IsInf a ∨ IsInf b)) (hz : ¬ (IsZero a ∨ IsZero b)) :
    muldf3 a b = normalize (product (fullMant a) (fullMant b)).1
      (product (fullMant a) (fullMant b)).2 (getExp a + getExp b - 1023)
      (getSign a ^^^ getSign b) :=
  (if_neg (not_exp_iff.2 ⟨hn, hi⟩)).trans (if_neg hz)

end Product

section Quotient
variable (undef : BitVec 64 → ℕ → BitVec 64) (hn : ¬ (IsNaN a ∨ IsNaN b))

theorem divdf3_nan (h : IsNaN a ∨ IsNaN b) : divdf3 undef a b = 0x7FF8000000000000 :=
  (if_pos (exp_of_isNaN h)).trans (if_pos h)

include hn

/-- Every other special operand makes the quotient infinite. -/
theorem divdf3_special (h : Special a ∨ Special b) :
    divdf3 undef a b = setSign (expMask <<< 52) (getSign a ^^^ getSign b) := by
  by_cases hi : IsInf a ∨ IsInf b
  · exact (if_pos (exp_of_isInf hi)).trans (if_neg hn)
  · have hexp := not_exp_iff.2 ⟨hn, hi⟩
    have hz : IsZero a ∨ IsZero b := h.imp (fun hs => hs.isZero fun he => hexp (.inl he)) fun hs =>
      hs.isZero fun he => hexp (.inr he)
    exact (if_neg hexp).trans (if_pos hz)

end Quotient

end Herve.Softfloat
