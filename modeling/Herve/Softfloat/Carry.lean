import Herve.Softfloat.Product
import Herve.Softfloat.Value

/-! Where the carry of a mantissa that `normalize` rounds up reaches the exponent. -/

namespace Herve.Softfloat

variable {mHi mLo m r : BitVec 64} {e exp : ℤ} {p s sign : ℕ}

/-- `m_hi * 2^53 + m_lo` -/
def words (mHi mLo : BitVec 64) : ℕ := mHi.toNat * 2 ^ 53 + mLo.toNat

/-! ## Truncation -/

/-- The exponent field of a number whose leading 1 is bit 104 or bit 105. -/
def leadExp (p : ℕ) (exp : ℤ) : ℤ := if p < 2 ^ 105 then exp else exp + 1

/-- The 52 bits after the leading 1. -/
def leadMant (p : ℕ) : ℕ := if p < 2 ^ 105 then p / 2 ^ 52 - 2 ^ 52 else p / 2 ^ 53 - 2 ^ 52

def truncated (p : ℕ) (exp : ℤ) : ℤ := leadExp p exp * 2 ^ 52 + leadMant p

/-- `guard && (round_bit || sticky)` as `normalize` has set them. -/
def Increments (p : ℕ) : Prop := p < 2 ^ 105 ∧ 2 ^ 51 < p % 2 ^ 52
  deriving Decidable

/-- `r` without its sign is `p` cut off or one more, and after ones only the next power of two. -/
structure CarriesRoundUp (p : ℕ) (exp : ℤ) (r : BitVec 64) : Prop where
  encoding : (index r : ℤ) = truncated p exp ∨ (index r : ℤ) = truncated p exp + 1
  power : leadMant p = 2 ^ 52 - 1 → Increments p → (index r : ℤ) = (leadExp p exp + 1) * 2 ^ 52

/-! ## What is packed -/

/-- The increment is made in the mantissa alone. -/
theorem normalize_eq (hLo : mLo.toNat < 2 ^ 53) (hp : words mHi mLo = p) (hge : 2 ^ 104 ≤ p)
    (hlt : p < 2 ^ 106) (exp : ℤ) (sign : ℕ) :
    ∃ m, normalize mHi mLo exp sign = pack (leadExp p exp) m sign ∧
      m.toNat = leadMant p + if Increments p then 1 else 0 := by
  rcases Nat.lt_or_ge p (2 ^ 105) with hlow | hhigh
  · have hexp : leadExp p exp = exp := if_pos hlow
    have hlead : leadMant p = p / 2 ^ 52 - 2 ^ 52 := if_pos hlow
    have hinc : 2 ^ 51 < p % 2 ^ 52 ↔ Increments p := (and_iff_right hlow).symm
    obtain ⟨m, heq, hm⟩ := normalize_low hLo hp hge hlow exp sign
    rw [if_congr hinc rfl rfl, ← hlead] at hm
    rw [hexp]
    exact ⟨m, heq, hm⟩
  · have hexp : leadExp p exp = exp + 1 := if_neg (not_lt.2 hhigh)
    have hlead : leadMant p = p / 2 ^ 53 - 2 ^ 52 := if_neg (not_lt.2 hhigh)
    have hinc : ¬ Increments p := fun h => not_lt.2 hhigh h.1
    rw [hexp, hlead, if_neg hinc, Nat.add_zero]
    exact normalize_high hLo hp hhigh hlt exp sign

theorem words_lt (hHi : mHi.toNat < 2 ^ 53) (hLo : mLo.toNat < 2 ^ 53) :
    words mHi mLo < 2 ^ 106 := by
  unfold words
  omega

/-- The exponents for which the result is a normal number -/
theorem normal_normalize_iff (hHi : mHi.toNat < 2 ^ 53) (hLo : mLo.toNat < 2 ^ 53)
    (hge : 2 ^ 104 ≤ words mHi mLo) :
    Normal (normalize mHi mLo exp sign) ↔
      0 < leadExp (words mHi mLo) exp ∧ leadExp (words mHi mLo) exp < 2047 := by
  obtain ⟨m, heq, -⟩ := normalize_eq hLo rfl hge (words_lt hHi hLo) exp sign
  rw [heq, normal_pack_iff]

theorem index_pack (h : Normal (pack e m s)) :
    (index (pack e m s) : ℤ) = e * 2 ^ 52 + (m.toNat % 2 ^ 52 : ℕ) := by
  obtain ⟨hpos, hlt⟩ := normal_pack_iff.1 h
  obtain ⟨k, rfl⟩ := Int.eq_ofNat_of_zero_le hpos.le
  rw [index, pack_of_normal (by omega) (by omega)]
  omega

/-! ## Ones only -/

theorem leadMant_lt (hlt : p < 2 ^ 106) : leadMant p < 2 ^ 52 := by
  unfold leadMant
  split_ifs <;> omega

/-- Only an increment of ones only is lost. -/
theorem carries_iff (hlead : leadMant p < 2 ^ 52)
    (hm : m.toNat = leadMant p + if Increments p then 1 else 0)
    (hr : (index r : ℤ) = leadExp p exp * 2 ^ 52 + (m.toNat % 2 ^ 52 : ℕ)) :
    CarriesRoundUp p exp r ↔ ¬ (leadMant p = 2 ^ 52 - 1 ∧ Increments p) := by
  constructor
  · rintro h ⟨hones, hinc⟩
    have hpower := h.power hones hinc
    rw [if_pos hinc, hones] at hm
    -- the sum is `2 ^ 52`, of which no bit is left in the mantissa
    rw [hr, hm] at hpower
    omega
  · intro h
    refine ⟨?_, fun hones hinc => absurd ⟨hones, hinc⟩ h⟩
    rw [truncated, hr]
    by_cases hinc : Increments p
    · have hones : leadMant p ≠ 2 ^ 52 - 1 := fun hones => h ⟨hones, hinc⟩
      rw [if_pos hinc] at hm
      omega
    · rw [if_neg hinc] at hm
      omega

theorem ones_increments_iff (hge : 2 ^ 104 ≤ p) :
    leadMant p = 2 ^ 52 - 1 ∧ Increments p ↔ 2 ^ 105 - 2 ^ 51 < p ∧ p < 2 ^ 105 := by
  unfold leadMant Increments
  split_ifs with hlow
  · omega
  · exact iff_of_false (fun h => hlow h.2.1) fun h => hlow h.2

theorem carriesRoundUp_iff (hHi : mHi.toNat < 2 ^ 53) (hLo : mLo.toNat < 2 ^ 53)
    (hge : 2 ^ 104 ≤ words mHi mLo) (hnormal : Normal (normalize mHi mLo exp sign)) :
    CarriesRoundUp (words mHi mLo) exp (normalize mHi mLo exp sign) ↔
      words mHi mLo ≤ 2 ^ 105 - 2 ^ 51 ∨ 2 ^ 105 ≤ words mHi mLo := by
  have hlt := words_lt hHi hLo
  obtain ⟨m, heq, hm⟩ := normalize_eq hLo rfl hge hlt exp sign
  rw [heq] at hnormal ⊢
  rw [carries_iff (leadMant_lt hlt) hm (index_pack hnormal), ones_increments_iff hge]
  omega

/-- A little more than half a bit above `1 + 2 ^ -52` -/
theorem carriesRoundUp_half :
    CarriesRoundUp (words 0x8000000000000 0x18000000000001) 1023
      (normalize 0x8000000000000 0x18000000000001 1023 0) :=
  (carriesRoundUp_iff (by decide) (by decide) (by decide) (by decide)).2 (.inl (by decide))

/-- `2 - 2 ^ -103`, which is `(1 + 2 ^ -52) * (2 - 2 ^ -51)`, becomes `1`. -/
theorem not_carriesRoundUp :
    ¬ ∀ (mHi mLo : BitVec 64) (exp : ℤ) (sign : ℕ), mHi.toNat < 2 ^ 53 → mLo.toNat < 2 ^ 53 →
      2 ^ 104 ≤ words mHi mLo → Normal (normalize mHi mLo exp sign) →
      CarriesRoundUp (words mHi mLo) exp (normalize mHi mLo exp sign) := by
  intro h
  have hcode := (h 0xFFFFFFFFFFFFF 0x1FFFFFFFFFFFFE 1023 0 (by decide) (by decide) (by decide)
    (by decide)).encoding
  exact absurd hcode (by decide)

end Herve.Softfloat
