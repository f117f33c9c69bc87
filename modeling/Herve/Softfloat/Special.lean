import Herve.Softfloat.Classes

/-! Zeros, infinities and NaNs as operands of the four operations. -/

namespace Herve.Softfloat

variable {a b x : BitVec 64}

/-! ## What the standard prescribes -/

/-- Any NaN, or one pattern. -/
inductive Expected
  | nan
  | pattern (r : BitVec 64)

def Expected.Meets : Expected → BitVec 64 → Prop
  | nan, r => IsNaN r
  | pattern s, r => r = s

/-- The sum of operands of which one is special. -/
def ieeeAdd (a b : BitVec 64) : Expected :=
  if IsNaN a ∨ IsNaN b then .nan
  else if IsInf a then if IsInf b ∧ getSign a ≠ getSign b then .nan else .pattern a
  else if IsInf b then .pattern b
  else if IsZero a then if IsZero b ∧ getSign a ≠ getSign b then .pattern 0 else .pattern b
  else .pattern a

def ieeeSub (a b : BitVec 64) : Expected := ieeeAdd a (b ^^^ signMask)

def ieeeMul (a b : BitVec 64) : Expected :=
  let sign := getSign a ^^^ getSign b
  if IsNaN a ∨ IsNaN b then .nan
  else if (IsInf a ∧ IsZero b) ∨ (IsZero a ∧ IsInf b) then .nan
  else if IsInf a ∨ IsInf b then .pattern (setSign (expMask <<< 52) sign)
  else .pattern (setSign 0 sign)

def ieeeDiv (a b : BitVec 64) : Expected :=
  let sign := getSign a ^^^ getSign b
  if IsNaN a ∨ IsNaN b then .nan
  else if (IsInf a ∧ IsInf b) ∨ (IsZero a ∧ IsZero b) then .nan
  else if IsInf a ∨ IsZero b then .pattern (setSign (expMask <<< 52) sign)
  else .pattern (setSign 0 sign)

/-! ## Where the operations meet the standard -/

/-- An infinity on the left meets neither a NaN nor the other infinity, and `+0` is not added to
`-0` in this order. -/
def AddMeets (a b : BitVec 64) : Prop :=
  (IsInf a → ¬ IsNaN b ∧ (IsInf b → getSign a = getSign b)) ∧
    (IsZero a → IsZero b → getSign b ≤ getSign a)
  deriving Decidable

def SubMeets (a b : BitVec 64) : Prop :=
  (IsInf a → ¬ IsNaN b ∧ (IsInf b → getSign a ≠ getSign b)) ∧
    (IsZero a → IsZero b → 1 ≤ getSign a + getSign b)
  deriving Decidable

def MulMeets (a b : BitVec 64) : Prop := ¬ (IsInf a ∧ IsZero b) ∧ ¬ (IsZero a ∧ IsInf b)
  deriving Decidable

def DivMeets (a b : BitVec 64) : Prop := IsNaN a ∨ IsNaN b ∨ ¬ IsZero a ∧ ¬ IsInf b
  deriving Decidable

theorem add_meets_left (ha : getExp a = 2047) :
    (ieeeAdd a b).Meets (adddf3 a b) ↔ AddMeets a b := by
  have hza : ¬ IsZero a := fun hz => hz.exp_ne ha
  unfold ieeeAdd AddMeets
  rw [adddf3_left ha]
  rcases isInf_or_isNaN.1 ha with hi | hn
  · have hna := hi.not_isNaN
    by_cases hnb : IsNaN b
    · rw [if_pos (.inr hnb)]
      exact iff_of_false hna fun hm => (hm.1 hi).1 hnb
    · rw [if_neg (not_or.2 ⟨hna, hnb⟩), if_pos hi]
      split_ifs with hc
      · exact iff_of_false hna fun hm => hc.2 ((hm.1 hi).2 hc.1)
      · exact iff_of_true rfl ⟨fun _ => ⟨hnb, fun hib => not_not.1 fun hs => hc ⟨hib, hs⟩⟩,
          fun hz => absurd hz hza⟩
  · rw [if_pos (.inl hn)]
    exact iff_of_true hn ⟨fun hi => absurd hn hi.not_isNaN, fun hz => absurd hz hza⟩

theorem add_meets_right (ha : getExp a ≠ 2047) (hb : getExp b = 2047) :
    (ieeeAdd a b).Meets (adddf3 a b) ↔ AddMeets a b := by
  have hna : ¬ IsNaN a := fun hn => ha hn.1
  have hia : ¬ IsInf a := fun hi => ha hi.1
  unfold ieeeAdd
  rw [adddf3_right ha hb]
  refine iff_of_true ?_ ⟨fun hi => absurd hi hia, fun _ hz => absurd hb hz.exp_ne⟩
  rcases isInf_or_isNaN.1 hb with hi | hn
  · rw [if_neg (not_or.2 ⟨hna, hi.not_isNaN⟩), if_neg hia, if_pos hi]
    exact rfl
  · rw [if_pos (.inr hn)]
    exact hn

theorem add_meets_finite (h : Special a ∨ Special b) (ha : getExp a ≠ 2047)
    (hb : getExp b ≠ 2047) : (ieeeAdd a b).Meets (adddf3 a b) ↔ AddMeets a b := by
  have hia : ¬ IsInf a := fun hi => ha hi.1
  have hn : ¬ (IsNaN a ∨ IsNaN b) := fun hn => (exp_of_isNaN hn).elim ha hb
  unfold ieeeAdd AddMeets
  rw [if_neg hn, if_neg hia, if_neg fun hi : IsInf b => hb hi.1,
    and_iff_right fun hi => absurd hi hia]
  by_cases hza : IsZero a
  · rw [if_pos hza, adddf3_zero_left hza hb]
    split_ifs with hc
    · rw [forall_prop_of_true hza, forall_prop_of_true hc.1]
      refine ⟨fun hm => ?_, fun hle => ?_⟩
      · rw [show b = 0 from hm]
        exact Nat.zero_le _
      · have hsign : getSign b = 0 := by
          have := getSign_lt a
          omega
        exact eq_of_sign_index hsign (isZero_iff_index.1 hc.1)
    · exact iff_of_true rfl fun _ hzb => (not_not.1 fun hs => hc ⟨hzb, hs⟩ : getSign a = _).ge
  · have hzb := (h.resolve_left fun hs => hza (hs.isZero ha)).isZero hb
    rw [if_neg hza, adddf3_zero_right ha hza hzb]
    exact iff_of_true rfl fun hz => absurd hz hza

theorem add_meets_iff (h : Special a ∨ Special b) :
    (ieeeAdd a b).Meets (adddf3 a b) ↔ AddMeets a b := by
  by_cases ha : getExp a = 2047
  · exact add_meets_left ha
  · by_cases hb : getExp b = 2047
    · exact add_meets_right ha hb
    · exact add_meets_finite h ha hb

theorem sub_meets_iff (h : Special a ∨ Special b) :
    (ieeeSub a b).Meets (subdf3 a b) ↔ SubMeets a b := by
  have hsa := getSign_lt a
  have hsb := getSign_lt b
  have hne : getSign a = 1 - getSign b ↔ getSign a ≠ getSign b := by omega
  have hle : 1 - getSign b ≤ getSign a ↔ 1 ≤ getSign a + getSign b := by omega
  refine (add_meets_iff (h.imp_right special_flip.2)).trans ?_
  rw [AddMeets, isNaN_flip, isInf_flip, isZero_flip, getSign_flip, hne, hle, SubMeets]

theorem isNaN_quiet : IsNaN 0x7FF8000000000000 := by decide

theorem mul_meets_iff (h : Special a ∨ Special b) :
    (ieeeMul a b).Meets (muldf3 a b) ↔ MulMeets a b := by
  unfold ieeeMul MulMeets
  dsimp only
  rw [← not_or]
  by_cases hn : IsNaN a ∨ IsNaN b
  · rw [if_pos hn, muldf3_nan hn]
    refine iff_of_true isNaN_quiet ?_
    rintro (⟨hi, hz⟩ | ⟨hz, hi⟩)
    · exact hn.elim hi.not_isNaN hz.not_isNaN
    · exact hn.elim hz.not_isNaN hi.not_isNaN
  · rw [if_neg hn]
    by_cases hi : IsInf a ∨ IsInf b
    · rw [if_pos hi, muldf3_inf hn hi]
      split_ifs with hc
      · exact iff_of_false (isInf_setSign _).not_isNaN fun hm => hm hc
      · exact iff_of_true rfl hc
    · have hc : ¬ ((IsInf a ∧ IsZero b) ∨ (IsZero a ∧ IsInf b)) := fun hc =>
        hi (hc.imp And.left And.right)
      have hexp := not_exp_iff.2 ⟨hn, hi⟩
      have hz := h.imp (fun hs => hs.isZero (hexp ∘ .inl)) fun hs => hs.isZero (hexp ∘ .inr)
      rw [if_neg hc, if_neg hi, muldf3_zero hn hi hz]
      exact iff_of_true rfl hc

theorem div_meets_iff (undef : BitVec 64 → ℕ → BitVec 64) (h : Special a ∨ Special b) :
    (ieeeDiv a b).Meets (divdf3 undef a b) ↔ DivMeets a b := by
  unfold ieeeDiv DivMeets
  dsimp only
  rw [← or_assoc]
  by_cases hn : IsNaN a ∨ IsNaN b
  · rw [if_pos hn, divdf3_nan undef hn]
    exact iff_of_true isNaN_quiet (.inl hn)
  · rw [if_neg hn, divdf3_special undef hn h, or_iff_right hn]
    split_ifs with hc hi
    · refine iff_of_false (isInf_setSign _).not_isNaN ?_
      rintro ⟨hza, hib⟩
      exact hc.elim (fun hc => hib hc.2) fun hc => hza hc.1
    · refine iff_of_true rfl ?_
      rcases hi with hia | hzb
      · exact ⟨fun hza => hza.not_isInf hia, fun hib => hc (.inl ⟨hia, hib⟩)⟩
      · exact ⟨fun hza => hc (.inr ⟨hza, hzb⟩), hzb.not_isInf⟩
    · refine iff_of_false (inf_ne_zero _ _) ?_
      rintro ⟨hza, hib⟩
      rcases h with (hz | hia | hna) | (hzb | hib' | hnb)
      · exact hza hz
      · exact hi (.inl hia)
      · exact hn (.inl hna)
      · exact hi (.inr hzb)
      · exact hib hib'
      · exact hn (.inr hnb)

/-- Which special operands the four operations get right. -/
theorem special_operands_iff (undef : BitVec 64 → ℕ → BitVec 64) (h : Special a ∨ Special b) :
    ((ieeeAdd a b).Meets (adddf3 a b) ↔ AddMeets a b) ∧
      ((ieeeSub a b).Meets (subdf3 a b) ↔ SubMeets a b) ∧
      ((ieeeMul a b).Meets (muldf3 a b) ↔ MulMeets a b) ∧
      ((ieeeDiv a b).Meets (divdf3 undef a b) ↔ DivMeets a b) :=
  ⟨add_meets_iff h, sub_meets_iff h, mul_meets_iff h, div_meets_iff undef h⟩

/-- `Inf + 1`, `Inf - 1`, `Inf * 1` and `Inf / 1` -/
theorem special_operands_inf_one :
    (ieeeAdd 0x7FF0000000000000 0x3FF0000000000000).Meets
        (adddf3 0x7FF0000000000000 0x3FF0000000000000) ∧
      (ieeeSub 0x7FF0000000000000 0x3FF0000000000000).Meets
        (subdf3 0x7FF0000000000000 0x3FF0000000000000) ∧
      (ieeeMul 0x7FF0000000000000 0x3FF0000000000000).Meets
        (muldf3 0x7FF0000000000000 0x3FF0000000000000) ∧
      (ieeeDiv 0x7FF0000000000000 0x3FF0000000000000).Meets
        (divdf3 (fun _ _ => 0) 0x7FF0000000000000 0x3FF0000000000000) := by
  obtain ⟨hadd, hsub, hmul, hdiv⟩ := special_operands_iff (a := 0x7FF0000000000000)
    (b := 0x3FF0000000000000) (fun _ _ => 0) (by decide)
  exact ⟨hadd.2 (by decide), hsub.2 (by decide), hmul.2 (by decide), hdiv.2 (by decide)⟩

/-- `Inf + -Inf` is `Inf`. -/
theorem special_operands_not_met :
    ¬ ∀ undef a b, Special a ∨ Special b →
      (ieeeAdd a b).Meets (adddf3 a b) ∧ (ieeeSub a b).Meets (subdf3 a b) ∧
        (ieeeMul a b).Meets (muldf3 a b) ∧ (ieeeDiv a b).Meets (divdf3 undef a b) := by
  intro h
  have hsum := (h (fun _ _ => 0) 0x7FF0000000000000 0xFFF0000000000000 (by decide)).1
  have hinf : ¬ IsNaN (adddf3 0x7FF0000000000000 0xFFF0000000000000) := by decide
  exact hinf hsum

end Herve.Softfloat
