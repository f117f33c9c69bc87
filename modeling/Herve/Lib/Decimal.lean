import Mathlib

/-! Decimal numerals in ASCII: printing a number, and the value of a string of digits. -/

namespace Decimal

def isDigit (c : BitVec 8) : Bool := 48#8 ≤ c && c ≤ 57#8

/-- No leading zeros, and `0` for zero. -/
def print (n : ℕ) : List (BitVec 8) :=
  if n = 0 then [48#8] else (Nat.digits 10 n).reverse.map fun d => BitVec.ofNat 8 (48 + d)

def value (ds : List (BitVec 8)) : ℕ := Nat.ofDigits 10 (ds.map fun c => c.toNat - 48).reverse

theorem print_ne_nil (n : ℕ) : print n ≠ [] := by
  unfold print
  split_ifs with h
  · exact List.cons_ne_nil _ _
  · rw [Ne, List.map_eq_nil_iff, List.reverse_eq_nil_iff, Nat.digits_eq_nil_iff_eq_zero]
    exact h

theorem toNat_digit {d : ℕ} (h : d < 10) : (BitVec.ofNat 8 (48 + d)).toNat = 48 + d := by
  rw [BitVec.toNat_ofNat]
  exact Nat.mod_eq_of_lt (by omega)

theorem isDigit_of_mem_print {n : ℕ} {c : BitVec 8} (h : c ∈ print n) : isDigit c = true := by
  unfold print at h
  split_ifs at h
  · rw [List.mem_singleton.1 h]
    decide
  · obtain ⟨d, hd, rfl⟩ := List.mem_map.1 h
    have hlt : d < 10 := Nat.digits_lt_base (by decide) (List.mem_reverse.1 hd)
    have hval := toNat_digit hlt
    rw [isDigit, Bool.and_eq_true, decide_eq_true_iff, decide_eq_true_iff, BitVec.le_def,
      BitVec.le_def, hval]
    exact ⟨Nat.le_add_right _ _, by show 48 + d ≤ 57; omega⟩

theorem value_print (n : ℕ) : value (print n) = n := by
  unfold value print
  split_ifs with h
  · rw [h]
    rfl
  · have hdigits : ∀ d ∈ (Nat.digits 10 n).reverse,
        ((fun c : BitVec 8 => c.toNat - 48) ∘ fun d => BitVec.ofNat 8 (48 + d)) d = id d := by
      intro d hd
      rw [Function.comp_apply, toNat_digit (Nat.digits_lt_base (by decide) (List.mem_reverse.1 hd)),
        Nat.add_sub_cancel_left]
      rfl
    rw [List.map_map, List.map_congr_left hdigits, List.map_id, List.reverse_reverse,
      Nat.ofDigits_digits]

end Decimal
