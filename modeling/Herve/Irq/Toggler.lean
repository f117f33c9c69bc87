import Mathlib

/-! What the firmware of the interrupt test is for: a main program that turns interrupts on, and a
handler that toggles an output once for each interrupt that is taken. -/

namespace Herve

/-- An instruction of the main program, or one of the handler and the one that it interrupted. -/
inductive IrqPoint
  | main (i : ℕ)
  | handler (j i : ℕ)
  deriving DecidableEq, Repr

structure Toggler where
  point : IrqPoint
  taken : ℕ
  out : Bool
  enable : Bool
  /-- The handler has run since the register for `GPIO_IE` was loaded. -/
  clobbered : Bool
  deriving DecidableEq, Repr

namespace Toggler

def start : Toggler := ⟨.main 0, 0, false, false, false⟩

/-- One instruction. The main program stays at its instruction 8. -/
def step (t : Toggler) : Toggler :=
  match t.point with
  | .main i =>
    { t with
      point := .main (min (i + 1) 8)
      enable := if i = 7 then !t.clobbered else t.enable
      clobbered := if i = 6 then false else t.clobbered }
  | .handler j i =>
    if j < 4 then
      { t with point := .handler (j + 1) i, out := if j = 3 then !t.out else t.out }
    else { t with point := .main i }

def take (t : Toggler) : Toggler :=
  match t.point with
  | .main i => { t with point := .handler 0 i, taken := t.taken + 1, clobbered := true }
  | .handler _ _ => t

/-- Whether interrupts are on. -/
def enabled (t : Toggler) : Bool :=
  match t.point with
  | .main i => 6 ≤ i
  | .handler _ _ => false

/-- The output has the parity of the interrupts taken, except for one whose handler is still to
store it. -/
def Ok (t : Toggler) : Prop :=
  match t.point with
  | .main i => i ≤ 8 ∧ (i < 6 → t.taken = 0) ∧ t.out = t.taken.bodd
  | .handler j i => j ≤ 4 ∧ 6 ≤ i ∧ i ≤ 8 ∧ t.clobbered = true ∧ 0 < t.taken ∧
      t.out = if j < 4 then (t.taken + 1).bodd else t.taken.bodd

variable {t : Toggler}

theorem start_ok : start.Ok := ⟨by decide, fun _ => rfl, rfl⟩

theorem Ok.step (h : t.Ok) : t.step.Ok := by
  obtain ⟨point, taken, out, enable, clobbered⟩ := t
  cases point with
  | main i =>
    obtain ⟨-, htaken, hout⟩ := h
    refine ⟨Nat.min_le_right _ _, fun hlt => htaken ?_, hout⟩
    have hmin : min (i + 1) 8 < 6 := hlt
    omega
  | handler j i =>
    obtain ⟨hj, hlo, hhi, hclobbered, hpos, hout⟩ := h
    dsimp only at hclobbered hpos hout
    by_cases hlast : j < 4
    · rw [if_pos hlast] at hout
      have hstep : Toggler.step ⟨.handler j i, taken, out, enable, clobbered⟩ =
          ⟨.handler (j + 1) i, taken, if j = 3 then !out else out, enable, clobbered⟩ :=
        if_pos hlast
      rw [hstep]
      refine ⟨hlast, hlo, hhi, hclobbered, hpos, ?_⟩
      dsimp only
      by_cases hstore : j = 3
      · rw [if_pos hstore, if_neg (by omega), hout, Nat.bodd_succ, Bool.not_not]
      · rw [if_neg hstore, if_pos (by omega), hout]
    · rw [if_neg hlast] at hout
      have hstep : Toggler.step ⟨.handler j i, taken, out, enable, clobbered⟩ =
          ⟨.main i, taken, out, enable, clobbered⟩ := if_neg hlast
      rw [hstep]
      exact ⟨hhi, fun hlt => absurd hlt (by omega), hout⟩

theorem Ok.take (h : t.Ok) (henabled : t.enabled = true) : t.take.Ok := by
  obtain ⟨point, taken, out, enable, clobbered⟩ := t
  cases point with
  | main i =>
    have hlo : 6 ≤ i := of_decide_eq_true henabled
    refine ⟨by decide, hlo, h.1, rfl, taken.succ_pos, ?_⟩
    have hparity : (taken + 1 + 1).bodd = taken.bodd := by
      rw [Nat.bodd_succ, Nat.bodd_succ, Bool.not_not]
    exact h.2.2.trans hparity.symm
  | handler j i => exact absurd henabled Bool.false_ne_true

theorem Ok.iterate (h : t.Ok) (n : ℕ) : (Toggler.step^[n] t).Ok := by
  induction n with
  | zero => exact h
  | succ n ih =>
    rw [Function.iterate_succ_apply']
    exact ih.step

/-- The instructions that are left on the way to the end of the main program. -/
def left (t : Toggler) : ℕ :=
  match t.point with
  | .main i => 8 - i
  | .handler j i => 5 - j + (8 - i)

theorem Ok.left_le (h : t.Ok) : t.left ≤ 8 := by
  obtain ⟨point, taken, out, enable, clobbered⟩ := t
  cases point with
  | main i => exact Nat.sub_le 8 i
  | handler j i =>
    have hi : 6 ≤ i := h.2.1
    show 5 - j + (8 - i) ≤ 8
    omega

theorem Ok.left_step (h : t.Ok) : t.step.left = t.left - 1 := by
  obtain ⟨point, taken, out, enable, clobbered⟩ := t
  cases point with
  | main i =>
    show 8 - min (i + 1) 8 = 8 - i - 1
    omega
  | handler j i =>
    have hj : j ≤ 4 := h.1
    unfold Toggler.step
    dsimp only
    split_ifs with hlast
    all_goals
      dsimp only [Toggler.left]
      omega

theorem Ok.left_iterate (h : t.Ok) (n : ℕ) : (Toggler.step^[n] t).left = t.left - n := by
  induction n with
  | zero => rfl
  | succ n ih => rw [Function.iterate_succ_apply', (h.iterate n).left_step, ih, Nat.sub_sub]

theorem Ok.point_of_left (h : t.Ok) (hleft : t.left = 0) : t.point = .main 8 := by
  obtain ⟨point, taken, out, enable, clobbered⟩ := t
  cases point with
  | main i =>
    have hi : i ≤ 8 := h.1
    have hrest : 8 - i = 0 := hleft
    exact congrArg IrqPoint.main (by omega)
  | handler j i =>
    have hj : j ≤ 4 := h.1
    have hrest : 5 - j + (8 - i) = 0 := hleft
    omega

/-- Whatever the point, that many instructions lead to the end of the main program. -/
theorem Ok.settles (h : t.Ok) {n : ℕ} (hn : t.left ≤ n) :
    (Toggler.step^[n] t).point = .main 8 :=
  (h.iterate n).point_of_left ((h.left_iterate n).trans (Nat.sub_eq_zero_of_le hn))

theorem taken_step (t : Toggler) : t.step.taken = t.taken := by
  obtain ⟨point, taken, out, enable, clobbered⟩ := t
  cases point with
  | main i => rfl
  | handler j i =>
    unfold step
    dsimp only
    split_ifs <;> rfl

theorem taken_iterate (t : Toggler) (n : ℕ) : (step^[n] t).taken = t.taken := by
  induction n with
  | zero => rfl
  | succ n ih => rw [Function.iterate_succ_apply', taken_step, ih]

end Toggler
end Herve
