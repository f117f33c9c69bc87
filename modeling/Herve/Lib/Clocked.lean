import Mathlib

/-! Clocked machines: the states between the edges of a clock under a stream of inputs, the log
of what is observed at the edges, and the rules by which an edge's effect becomes a run's. -/

namespace Clocked
universe u v w
variable {ι : Type u} {σ : Type v} {ε : Type w}

/-- The state before edge `n`. -/
def run (edge : ι → σ → σ) (s : σ) (i : ℕ → ι) : ℕ → σ
  | 0 => s
  | n + 1 => edge (i n) (run edge s i n)

/-- What is observed at the edges before edge `n`, in order. -/
def log (edge : ι → σ → σ) (observe : ι → σ → Option ε) (s : σ) (i : ℕ → ι) : ℕ → List ε
  | 0 => []
  | n + 1 => log edge observe s i n ++ (observe (i n) (run edge s i n)).toList

variable {edge : ι → σ → σ} {observe : ι → σ → Option ε} {s : σ} {i : ℕ → ι}

theorem run_invariant {I : σ → Prop} (h : I s) (hedge : ∀ j t, I t → I (edge j t)) (n : ℕ) :
    I (run edge s i n) := by
  induction n with
  | zero => exact h
  | succ n ih => exact hedge _ _ ih

/-- What every edge keeps, of the log and the state together, holds all along. -/
theorem log_invariant {I : List ε → σ → Prop} (h : I [] s)
    (hedge : ∀ j l t, I l t → I (l ++ (observe j t).toList) (edge j t)) (n : ℕ) :
    I (log edge observe s i n) (run edge s i n) := by
  induction n with
  | zero => exact h
  | succ n ih => exact hedge _ _ _ ih

theorem log_succ_some {n : ℕ} {e : ε} (h : observe (i n) (run edge s i n) = some e) :
    log edge observe s i (n + 1) = log edge observe s i n ++ [e] := by
  rw [log, h]
  rfl

theorem log_succ_none {n : ℕ} (h : observe (i n) (run edge s i n) = none) :
    log edge observe s i (n + 1) = log edge observe s i n := by
  rw [log, h]
  exact List.append_nil _

theorem log_of_none {m n : ℕ} (hmn : m ≤ n)
    (h : ∀ j, m ≤ j → j < n → observe (i j) (run edge s i j) = none) :
    log edge observe s i n = log edge observe s i m := by
  induction n, hmn using Nat.le_induction with
  | base => rfl
  | succ n hmn ih =>
    rw [log_succ_none (h n hmn (Nat.lt_succ_self n))]
    exact ih fun j hj hjn => h j hj (Nat.lt_succ_of_lt hjn)

/-! ## Counting edges -/

/-- The number of edges before edge `n` of the kind `p`. -/
def count (edge : ι → σ → σ) (p : ι → σ → Prop) [∀ j t, Decidable (p j t)] (s : σ) (i : ℕ → ι)
    (n : ℕ) : ℕ :=
  Nat.count (fun k => p (i k) (run edge s i k)) n

section
variable {p q r : ι → σ → Prop} [∀ j t, Decidable (p j t)] [∀ j t, Decidable (q j t)]
  [∀ j t, Decidable (r j t)]

theorem count_eq_zero_iff {n : ℕ} :
    count edge p s i n = 0 ↔ ∀ k < n, ¬ p (i k) (run edge s i k) :=
  Nat.count_iff_forall_not

/-- Edges of one kind are those of two kinds that exclude each other. -/
theorem count_eq_add (hpqr : ∀ k, p (i k) (run edge s i k) ↔
      q (i k) (run edge s i k) ∨ r (i k) (run edge s i k))
    (hqr : ∀ k, q (i k) (run edge s i k) → ¬ r (i k) (run edge s i k)) (n : ℕ) :
    count edge p s i n = count edge q s i n + count edge r s i n := by
  induction n with
  | zero => rfl
  | succ n ih =>
    simp only [count, Nat.count_succ, hpqr n] at ih ⊢
    by_cases hq : q (i n) (run edge s i n)
    · rw [if_pos (.inl hq), if_pos hq, if_neg (hqr n hq), ih]
      omega
    · simp only [hq, false_or, if_false, ih]
      omega

end

end Clocked
