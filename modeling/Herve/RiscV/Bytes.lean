import Mathlib

/-! Little-endian words over byte maps. Nothing here depends on where the bytes
live: a byte map is any function of the offset. -/

namespace RiscV

abbrev Byte := BitVec 8
abbrev Word := BitVec 32

/-- The word whose low `n` bytes are `f 0, …, f (n - 1)`, least significant first. -/
def fromBytes : ℕ → (ℕ → Byte) → Word
  | 0, _ => 0
  | n + 1, f => (fromBytes n fun k => f (k + 1)) <<< 8 ||| (f 0).setWidth 32

def byteOf (v : Word) (k : ℕ) : Byte := (v >>> (8 * k)).setWidth 8

theorem fromBytes_congr {n : ℕ} {f g : ℕ → Byte} (h : ∀ k < n, f k = g k) :
    fromBytes n f = fromBytes n g := by
  induction n generalizing f g with
  | zero => rfl
  | succ n ih =>
    rw [fromBytes, fromBytes, h 0 n.succ_pos, ih fun k hk => h (k + 1) (by omega)]

theorem getLsbD_fromBytes (n : ℕ) (f : ℕ → Byte) (i : ℕ) :
    (fromBytes n f).getLsbD i =
      (decide (i < 32) && decide (i < 8 * n) && (f (i / 8)).getLsbD (i % 8)) := by
  induction n generalizing f i with
  | zero => simp [fromBytes]
  | succ n ih =>
    rw [fromBytes, BitVec.getLsbD_or, BitVec.getLsbD_shiftLeft, BitVec.getLsbD_setWidth, ih]
    by_cases hi : i < 8
    · have hdiv : i / 8 = 0 := by omega
      have hmod : i % 8 = i := by omega
      have h32 : i < 32 := by omega
      have hn : i < 8 * (n + 1) := by omega
      simp [hi, hdiv, hmod, h32, hn]
    · have hge : (f 0).getLsbD i = false := BitVec.getLsbD_of_ge _ _ (by omega)
      have hdiv : (i - 8) / 8 + 1 = i / 8 := by omega
      have hmod : (i - 8) % 8 = i % 8 := by omega
      have hsub : i - 8 < 8 * n ↔ i < 8 * (n + 1) := by omega
      by_cases h32 : i < 32
      · have h32' : i - 8 < 32 := by omega
        simp [hi, hge, hdiv, hmod, hsub, h32, h32']
      · simp [h32, hge]

theorem setWidth_fromBytes_one (f : ℕ → Byte) : (fromBytes 1 f).setWidth 8 = f 0 := by
  have hword : fromBytes 1 f = (f 0).setWidth 32 := BitVec.zero_or
  rw [hword, BitVec.setWidth_setWidth_of_le _ (by decide), BitVec.setWidth_eq]

theorem getLsbD_byteOf (v : Word) (k i : ℕ) :
    (byteOf v k).getLsbD i = (decide (i < 8) && v.getLsbD (8 * k + i)) := by
  rw [byteOf, BitVec.getLsbD_setWidth, BitVec.getLsbD_ushiftRight]

/-- The low bytes of a word are the word, cut to their width. -/
theorem fromBytes_byteOf_eq (n : ℕ) (v : Word) :
    fromBytes n (byteOf v) = (v.setWidth (8 * n)).setWidth 32 := by
  apply BitVec.eq_of_getLsbD_eq
  intro i hi
  have hmod : i % 8 < 8 := Nat.mod_lt _ (by decide)
  have hsplit : 8 * (i / 8) + i % 8 = i := Nat.div_add_mod i 8
  rw [getLsbD_fromBytes, getLsbD_byteOf, hsplit]
  simp [hi, hmod]

theorem fromBytes_byteOf (v : Word) : fromBytes 4 (byteOf v) = v := by
  rw [fromBytes_byteOf_eq, BitVec.setWidth_eq, BitVec.setWidth_eq]

theorem byteOf_truncate {n k : ℕ} (hk : k < n) (v : Word) :
    byteOf ((v.setWidth (8 * n)).setWidth 32) k = byteOf v k := by
  apply BitVec.eq_of_getLsbD_eq
  intro i hi
  have hn : 8 * k + i < 8 * n := by omega
  rw [getLsbD_byteOf, getLsbD_byteOf, BitVec.getLsbD_setWidth, BitVec.getLsbD_setWidth]
  by_cases h32 : 8 * k + i < 32
  · simp [hn, h32]
  · simp [h32, BitVec.getLsbD_of_ge v _ (not_lt.1 h32)]

/-- A bit tested with a mask. -/
theorem and_twoPow_ne_zero (x : Word) {i : ℕ} (hi : i < 32) :
    x &&& BitVec.twoPow 32 i ≠ 0 ↔ x.getLsbD i = true := by
  rw [BitVec.and_twoPow]
  cases x.getLsbD i with
  | false => exact iff_of_false (not_not_intro rfl) Bool.false_ne_true
  | true =>
    refine iff_of_true (fun h => ?_) rfl
    have hbit := congrArg (BitVec.getLsbD · i) h
    simp [hi] at hbit

end RiscV
