import Herve.Lib.BreakLoop

/-! A bounded runner that is called over and over with the same bound, until a counter has reached
a limit, the run has halted or a call has done nothing. Where the counts of the runner add up, this
comes to as much as one call for all the batches. -/

namespace Batches
open BreakLoop
universe u
variable {σ : Type u}

/-- The counts of calls add up, and a call that falls short of its bound is the last to count. -/
structure Resumable (run : ℕ → σ → ℕ × σ) (I : σ → Prop) : Prop where
  keeps : ∀ n s, I s → I (run n s).2
  le : ∀ n s, I s → (run n s).1 ≤ n
  add : ∀ m n s, I s → (run (m + n) s).1 = (run m s).1 + (run n (run m s).2).1
  stop : ∀ m n s, I s → (run m s).1 < m → (run n (run m s).2).1 = 0

/-- `while (counter < limit && !halted) { if (run(batch) == 0 && !halted) break; }` -/
def body (run : ℕ → σ → ℕ × σ) (counter : σ → ℕ) (halted : σ → Bool) (batch limit : ℕ) (s : σ) :
    Bool × σ :=
  if counter s < limit ∧ halted s = false then
    if (run batch s).1 = 0 ∧ halted (run batch s).2 = false then (false, (run batch s).2)
    else (true, (run batch s).2)
  else (false, s)

section
variable {run : ℕ → σ → ℕ × σ} {counter : σ → ℕ} {halted : σ → Bool} {batch limit : ℕ}
  {I : σ → Prop} {s : σ}

theorem body_done (h : ¬ (counter s < limit ∧ halted s = false)) :
    body run counter halted batch limit s = (false, s) := if_neg h

theorem body_idle (h : counter s < limit ∧ halted s = false)
    (hidle : (run batch s).1 = 0 ∧ halted (run batch s).2 = false) :
    body run counter halted batch limit s = (false, (run batch s).2) := by
  rw [body, if_pos h, if_pos hidle]

theorem body_goes (h : counter s < limit ∧ halted s = false)
    (hgoes : ¬ ((run batch s).1 = 0 ∧ halted (run batch s).2 = false)) :
    body run counter halted batch limit s = (true, (run batch s).2) := by
  rw [body, if_pos h, if_neg hgoes]

/-- The loop ends, with the counter `k` higher. -/
def EndsAfter (run : ℕ → σ → ℕ × σ) (counter : σ → ℕ) (halted : σ → Bool) (batch limit : ℕ) (s : σ)
    (k : ℕ) : Prop :=
  ∃ t, Ends (body run counter halted batch limit) s t ∧ counter t = counter s + k

theorem endsAfter_done (h : ¬ (counter s < limit ∧ halted s = false)) :
    EndsAfter run counter halted batch limit s 0 := by
  have hbody : body run counter halted batch limit s = (false, s) := body_done h
  refine ⟨(body run counter halted batch limit s).2, .stop (congrArg Prod.fst hbody), ?_⟩
  rw [hbody]
  rfl

theorem endsAfter_next (h : counter s < limit ∧ halted s = false)
    (hgoes : ¬ ((run batch s).1 = 0 ∧ halted (run batch s).2 = false)) {k : ℕ}
    (hcounter : counter (run batch s).2 = counter s + (run batch s).1)
    (hends : EndsAfter run counter halted batch limit (run batch s).2 k) :
    EndsAfter run counter halted batch limit s ((run batch s).1 + k) := by
  have hbody : body run counter halted batch limit s = (true, (run batch s).2) := body_goes h hgoes
  obtain ⟨t, ht, hcount⟩ := hends
  refine ⟨t, .next (congrArg Prod.fst hbody) ?_, ?_⟩
  · rw [hbody]
    exact ht
  · rw [hcount, hcounter, Nat.add_assoc]

/-- What the loop needs of the runner, in the states `I`. -/
structure Counted (run : ℕ → σ → ℕ × σ) (counter : σ → ℕ) (halted : σ → Bool) (batch limit : ℕ)
    (I : σ → Prop) : Prop extends Resumable run I where
  counts : ∀ s, I s → counter s < limit → counter (run batch s).2 = counter s + (run batch s).1
  idle : ∀ n s, I s → halted s = true → (run n s).1 = 0
  pos : 0 < batch

namespace Counted
variable (h : Counted run counter halted batch limit I)
include h

theorem endsAfter_stopped (hs : I s) (hstop : (run batch s).1 = 0) :
    EndsAfter run counter halted batch limit s 0 := by
  by_cases hgo : counter s < limit ∧ halted s = false
  · have hcounter := h.counts s hs hgo.1
    by_cases hidle : halted (run batch s).2 = false
    · have hbody : body run counter halted batch limit s = (false, (run batch s).2) :=
        body_idle hgo ⟨hstop, hidle⟩
      refine ⟨(body run counter halted batch limit s).2, .stop (congrArg Prod.fst hbody), ?_⟩
      rw [hbody, hcounter, hstop]
    · have hends : EndsAfter run counter halted batch limit (run batch s).2 0 :=
        endsAfter_done fun hgo' => hidle hgo'.2
      have hnext := endsAfter_next hgo (fun hboth => hidle hboth.2) hcounter hends
      rw [hstop] at hnext
      exact hnext
  · exact endsAfter_done hgo

/-- The loop ends and counts what one call for all of its batches does: as many as it takes to
get from the counter to the limit. -/
theorem endsAfter_batches (j : ℕ) (hs : I s) (hlt : batch * j < limit - counter s + batch)
    (hle : limit - counter s ≤ batch * j) :
    EndsAfter run counter halted batch limit s (run (batch * j) s).1 := by
  induction j generalizing s with
  | zero =>
    have hzero : (run (batch * 0) s).1 = 0 := Nat.le_zero.1 (h.le 0 s hs)
    rw [hzero]
    refine endsAfter_done fun hgo => ?_
    have hlimit := hgo.1
    omega
  | succ j ih =>
    have hpos := h.pos
    rw [Nat.mul_succ] at hlt hle
    have hadd : (run (batch * (j + 1)) s).1 =
        (run batch s).1 + (run (batch * j) (run batch s).2).1 := by
      rw [Nat.mul_succ, Nat.add_comm, h.add _ _ s hs]
    have hlimit : counter s < limit := by omega
    by_cases hhalted : halted s = true
    · rw [h.idle _ s hs hhalted]
      exact endsAfter_done fun hgo => by simp [hhalted] at hgo
    have hgo : counter s < limit ∧ halted s = false := ⟨hlimit, by simpa using hhalted⟩
    have hcounter := h.counts s hs hlimit
    by_cases hshort : (run batch s).1 < batch
    · -- a batch that falls short is the last one
      have hrest : ∀ n, (run n (run batch s).2).1 = 0 := fun n => h.stop _ n s hs hshort
      rw [hadd, hrest]
      by_cases hidle : (run batch s).1 = 0 ∧ halted (run batch s).2 = false
      · rw [hidle.1]
        exact h.endsAfter_stopped hs hidle.1
      · exact endsAfter_next hgo hidle hcounter
          (h.endsAfter_stopped (h.keeps _ s hs) (hrest batch))
    · have hfull : (run batch s).1 = batch := le_antisymm (h.le _ s hs) (not_lt.1 hshort)
      rw [hadd]
      refine endsAfter_next hgo (fun hidle => ?_) hcounter (ih (h.keeps _ s hs) ?_ ?_)
      · exact absurd (hfull.symm.trans hidle.1) hpos.ne'
      · rw [hcounter, hfull]
        omega
      · rw [hcounter, hfull]
        omega

/-- Started at 0, the counter ends within the limit exactly when that is a multiple of the batch,
or when no run gets beyond it. -/
theorem within_limit_iff (hs : I s) (hzero : counter s = 0) :
    ∃ t, Ends (body run counter halted batch limit) s t ∧
      (counter t ≤ limit ↔ batch ∣ limit ∨ (run (limit + 1) s).1 ≤ limit) := by
  have hpos := h.pos
  obtain ⟨j, hlt, hle⟩ : ∃ j, batch * j < limit + batch ∧ limit ≤ batch * j := by
    refine ⟨(limit + batch - 1) / batch, ?_, ?_⟩
    · have hdiv := Nat.mul_div_le (limit + batch - 1) batch
      omega
    · have hmod := Nat.div_add_mod (limit + batch - 1) batch
      have hrest := Nat.mod_lt (limit + batch - 1) hpos
      omega
  obtain ⟨t, ht, hcount⟩ := h.endsAfter_batches j hs (by omega) (by omega)
  refine ⟨t, ht, ?_⟩
  rw [hcount, hzero, Nat.zero_add]
  have hbound := h.le (batch * j) s hs
  by_cases hdvd : batch ∣ limit
  · obtain ⟨k, rfl⟩ := hdvd
    have hjk : j = k := by
      have hk : k ≤ j := Nat.le_of_mul_le_mul_left hle hpos
      have hj : j < k + 1 := by
        refine Nat.lt_of_mul_lt_mul_left (a := batch) ?_
        rw [Nat.mul_succ]
        exact hlt
      omega
    rw [hjk] at hbound ⊢
    exact iff_of_true hbound (.inl ⟨k, rfl⟩)
  · rw [or_iff_right hdvd]
    have hlong : limit + 1 ≤ batch * j := by
      have hne : limit ≠ batch * j := fun heq => hdvd ⟨j, heq⟩
      omega
    obtain ⟨k, hk⟩ := Nat.exists_eq_add_of_le hlong
    have hadd := h.add (limit + 1) k s hs
    rw [hk, hadd]
    constructor
    · omega
    · intro hshort
      rw [h.stop _ k s hs (by omega)]
      omega

end Counted
end
end Batches
