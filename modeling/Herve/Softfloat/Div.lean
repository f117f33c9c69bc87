import Herve.Softfloat.Classes

/-! Division of normal numbers: the first bit of the quotient never survives the loop and the
shift behind it. -/

namespace Herve.Softfloat

variable {a b mb : BitVec 64} (undef : BitVec 64 → ℕ → BitVec 64)

/-- One unit in the last place of a normal number. -/
def ulp (r : BitVec 64) : ℚ := 2 ^ (getExp r - 1) / 2 ^ 1074

def divStart (a : BitVec 64) : DivState := ⟨fullMant a, 0, 0⟩

def divEnd (a b : BitVec 64) : DivState :=
  (BreakLoop.loop (divBody (fullMant b)) 106 (divStart a)).2

/-- No shift of the quotient drops a bit that is set, and none is by 64 or more. -/
structure QuotientKept (a b : BitVec 64) : Prop where
  loop : ∀ s, BreakLoop.Visits (divBody (fullMant b)) 106 (divStart a) s →
    (divBody (fullMant b) s).1 = true → s.quotient.toNat * 2 < 2 ^ 64
  amount : 106 - (divEnd a b).bits < 64
  last : (divEnd a b).quotient.toNat * 2 ^ (106 - (divEnd a b).bits) < 2 ^ 64

def QuotientNormal (a b : BitVec 64) : Prop :=
  grid (2 ^ 52) ≤ |val a / val b| ∧ |val a / val b| < grid infinity
  deriving Decidable

/-- What division should do. -/
structure Divides (a b : BitVec 64) : Prop where
  close : |val (divdf3 undef a b) - val a / val b| < ulp (divdf3 undef a b)
  exact : ∀ r, Normal r → val r = val a / val b → divdf3 undef a b = r
  kept : QuotientKept a b

/-! ## The first bit of the quotient -/

/-- There is a first bit, and it is where it should be after so many bits. -/
def HasFirstBit (s : DivState) : Prop :=
  1 ≤ s.bits ∧ s.bits ≤ 106 ∧ 2 ^ (s.bits - 1) ≤ s.quotient.toNat

theorem divBody_hasFirstBit {s : DivState} (h : HasFirstBit s) (hgo : (divBody mb s).1 = true)
    (hkept : s.quotient.toNat * 2 < 2 ^ 64) : HasFirstBit (divBody mb s).2 := by
  obtain ⟨hpos, -, hbit⟩ := h
  have hshift : (s.quotient <<< 1).toNat = s.quotient.toNat * 2 := by
    rw [toNat_shiftLeft, pow_one, Nat.mod_eq_of_lt hkept]
  have hor : s.quotient.toNat * 2 ≤ ((s.quotient <<< 1) ||| 1).toNat := by
    rw [toNat_or_one, hshift]
    split_ifs <;> omega
  have hpow : 2 ^ (s.bits + 1 - 1) ≤ s.quotient.toNat * 2 := by
    obtain ⟨k, hk⟩ := Nat.exists_eq_add_of_le' hpos
    rw [hk, Nat.add_sub_cancel] at hbit
    rw [hk, Nat.add_sub_cancel, pow_succ]
    exact Nat.mul_le_mul_right 2 hbit
  unfold divBody at hgo ⊢
  split_ifs at hgo ⊢ with hcond hge
  · exact ⟨Nat.le_add_left _ _, hcond.1, hpow.trans hor⟩
  · exact ⟨Nat.le_add_left _ _, hcond.1, hpow.trans hshift.ge⟩

theorem loop_hasFirstBit {s : DivState} (h : HasFirstBit s) (n : ℕ)
    (hkept : ∀ t, BreakLoop.Visits (divBody mb) n s t → (divBody mb t).1 = true →
      t.quotient.toNat * 2 < 2 ^ 64) :
    HasFirstBit (BreakLoop.loop (divBody mb) n s).2 := by
  induction n generalizing s with
  | zero => exact h
  | succ n ih =>
    cases hgo : (divBody mb s).1 with
    | true =>
      rw [BreakLoop.loop_succ_true hgo]
      exact ih (divBody_hasFirstBit h hgo (hkept s .here hgo)) fun t ht =>
        hkept t (.next hgo ht)
    | false =>
      have hstop : (divBody mb s).2 = s := by
        unfold divBody at hgo ⊢
        split_ifs at hgo ⊢
        rfl
      rw [BreakLoop.loop_succ_false hgo, hstop]
      exact h

/-- `2 * ma` is at least `mb`, so the first bit is 1. -/
theorem divBody_start (ha : Normal a) (hb : Normal b) :
    (divBody (fullMant b) (divStart a)).1 = true ∧
      HasFirstBit (divBody (fullMant b) (divStart a)).2 := by
  have hma := ha.fullMant_bounds
  have hmb := hb.fullMant_bounds
  have hcond : (divStart a).bits < 106 ∧ (divStart a).remainder ≠ 0 :=
    ⟨Nat.zero_lt_succ 105, ha.fullMant_ne_zero⟩
  have hge : (divStart a).remainder <<< 1 ≥ fullMant b := by
    show (fullMant b).toNat ≤ (fullMant a <<< 1).toNat
    rw [toNat_shiftLeft]
    omega
  unfold divBody
  rw [if_pos hcond, if_pos hge]
  have hone : 2 ^ 0 ≤ ((0#64 <<< 1) ||| 1).toNat := by decide
  exact ⟨rfl, le_rfl, Nat.succ_le_succ (Nat.zero_le 105), hone⟩

theorem not_quotientKept (ha : Normal a) (hb : Normal b) : ¬ QuotientKept a b := by
  intro h
  obtain ⟨hgo, hfirst⟩ := divBody_start ha hb
  have hend : HasFirstBit (divEnd a b) := by
    rw [divEnd, BreakLoop.loop_succ_true hgo]
    exact loop_hasFirstBit hfirst 105 fun t ht => h.loop t (.next hgo ht)
  obtain ⟨hpos, hle, hbit⟩ := hend
  have hpow : 2 ^ ((divEnd a b).bits - 1) * 2 ^ (106 - (divEnd a b).bits) = 2 ^ 105 := by
    rw [← pow_add]
    congr 1
    omega
  have hlost := Nat.mul_le_mul_right (2 ^ (106 - (divEnd a b).bits)) hbit
  rw [hpow] at hlost
  exact absurd (hlost.trans_lt h.last) (by decide)

/-- No division of normal numbers meets all three promises. -/
theorem not_divides (ha : Normal a) (hb : Normal b) : ¬ Divides undef a b := fun h =>
  not_quotientKept ha hb h.kept

/-- `3 / 2` -/
theorem not_divides_three_two :
    ¬ Divides (fun _ _ => 0) 0x4008000000000000 0x4000000000000000 :=
  not_divides _ (by decide) (by decide)

/-! ## A number divided by itself -/

/-- The quotient of a number by itself gets a 1 in every iteration. -/
theorem loop_self {m : BitVec 64} (hm : m ≠ 0) (hlt : m.toNat < 2 ^ 53) (n : ℕ) (q : BitVec 64)
    {k : ℕ} (hk : k + n ≤ 106) :
    (BreakLoop.loop (divBody m) n ⟨m, q, k⟩).2 =
      ⟨m, (fun q : BitVec 64 => (q <<< 1) ||| 1)^[n] q, k + n⟩ := by
  induction n generalizing q k with
  | zero => rfl
  | succ n ih =>
    have hdouble : (m <<< 1).toNat = m.toNat * 2 := by
      rw [toNat_shiftLeft]
      omega
    have hge : m <<< 1 ≥ m := by
      show m.toNat ≤ (m <<< 1).toNat
      omega
    have hsub : m <<< 1 - m = m := by
      rw [← BitVec.toNat_inj, BitVec.toNat_sub_of_le hge, hdouble]
      omega
    have hbody : divBody m ⟨m, q, k⟩ = (true, ⟨m, (q <<< 1) ||| 1, k + 1⟩) := by
      unfold divBody
      rw [if_pos ⟨(by omega : k < 106), hm⟩, if_pos hge]
      exact congrArg (fun r => (true, DivState.mk r ((q <<< 1) ||| 1) (k + 1))) hsub
    rw [BreakLoop.loop_succ_true (by rw [hbody]), hbody, ih _ (by omega),
      Function.iterate_succ_apply, Nat.add_right_comm]
    rfl

/-- `x / x` is `1 + 2 ^ -40` for every normal number. -/
theorem divdf3_self (ha : Normal a) : divdf3 undef a a = 0x3FF0000000001000 := by
  have hones : (fun q : BitVec 64 => (q <<< 1) ||| 1)^[106] 0 = BitVec.allOnes 64 := by
    decide +kernel
  have hloop := loop_self ha.fullMant_ne_zero ha.fullMant_bounds.2 106 0 (k := 0)
    le_rfl
  unfold divdf3
  dsimp only
  refine (if_neg (not_or.2 ⟨ha.exp_ne, ha.exp_ne⟩)).trans
    ((if_neg (not_or.2 ⟨ha.not_isZero, ha.not_isZero⟩)).trans ?_)
  rw [hloop, hones, Nat.xor_self, sub_self]
  dsimp only
  rw [if_pos (by decide)]
  decide

/-- `1 / 1` -/
theorem not_divides_one :
    ¬ ∀ undef a b, Normal a → Normal b → QuotientNormal a b → Divides undef a b := by
  intro h
  have hone := (h (fun _ _ => 0) 0x3FF0000000000000 0x3FF0000000000000 (by decide) (by decide)
    (by decide +kernel)).exact 0x3FF0000000000000 (by decide) (by decide +kernel)
  rw [divdf3_self _ (by decide)] at hone
  exact absurd hone (by decide)

end Herve.Softfloat
