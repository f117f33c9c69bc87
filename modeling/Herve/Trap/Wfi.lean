import Herve.Iss.Init
import Herve.Run.Stop

/-! WFI and waking up. Both count an interrupt as pending only while `mstatus.MIE` is set;
WFI then looks at the whole mask and the wake-up at the part enabled in `mie`. -/

namespace Herve
open RiscV

variable {δ : Type} (dev : Device δ)

theorem sleeps_wfi_iff (s : State δ) :
    Sleeps 0x10500073#32 s ↔ ¬ (s.mie = true ∧ s.irqMask ≠ 0) := by
  have hword : opcode 0x10500073#32 = 0x73#32 ∧ funct3 0x10500073#32 = 0 ∧
      ¬ IsTrapCall 0x10500073#32 ∧ (0x10500073#32 : Word) ≠ 0x30200073#32 := by decide
  unfold Sleeps State.mie
  rw [decide_eq_true_iff]
  exact ⟨fun h => h.2.2.2.2, fun h => ⟨hword.1, hword.2.1, hword.2.2.1, hword.2.2.2, h⟩⟩

theorem wfi_wfiSleep_iff {s : State δ} (hawake : s.wfiSleep = false) :
    (executeInstruction dev 0x10500073#32 s).2.wfiSleep = true ↔
      ¬ (s.mie = true ∧ s.irqMask ≠ 0) := by
  rw [← sleeps_wfi_iff]
  constructor
  · intro h
    by_contra hs
    have hstay := (executeInstruction_retires dev (by decide) hs).2
    rw [h, hawake] at hstay
    exact Bool.false_ne_true hstay.symm
  · intro hs
    rw [executeInstruction_sleeps dev hs]

/-- The hart falls asleep only with no interrupt to wake it. -/
theorem iteration_asleep {profiled : Bool} {s : State δ} (hawake : s.wfiSleep = false)
    (h : (iteration dev profiled s).2.wfiSleep = true) :
    ¬ (iteration dev profiled s).2.Interrupted := by
  cases hok : (iteration dev profiled s).1 with
  | true =>
    rw [iteration_awake dev hok, hawake] at h
    exact absurd h Bool.false_ne_true
  | false =>
    rcases iteration_stops dev hok with ⟨_, hrun⟩ | ⟨_, _, hrun⟩ | ⟨_, hsleep, hrun⟩
    · rw [hrun, hawake] at h
      exact absurd h Bool.false_ne_true
    · rw [hrun] at h
      exact absurd (hawake.symm.trans h) Bool.false_ne_true
    · rw [hrun]
      intro hint
      obtain ⟨hmie, hirq⟩ := interrupted_raised hint
      exact hsleep.2.2.2.2.2 ⟨of_decide_eq_true hmie, hirq⟩

theorem loop_asleep {profiled : Bool} {s : State δ} (hawake : s.wfiSleep = false) (n : ℕ)
    (h : (BreakLoop.loop (iteration dev profiled) n s).2.wfiSleep = true) :
    ¬ (BreakLoop.loop (iteration dev profiled) n s).2.Interrupted := by
  induction n generalizing s with
  | zero => exact absurd (hawake.symm.trans h) Bool.false_ne_true
  | succ n ih =>
    cases hok : (iteration dev profiled s).1 with
    | true =>
      rw [BreakLoop.loop_succ_true hok] at h ⊢
      exact ih ((iteration_awake dev hok).trans hawake) h
    | false =>
      rw [BreakLoop.loop_succ_false hok] at h ⊢
      exact iteration_asleep dev hawake h

theorem rvStep_asleep {n : ℤ} {s : State δ} (hinit : s.initialized = true) (hn : 0 < n)
    (hsleep : s.wfiSleep = true) :
    (s.Interrupted → rvStep dev n s = (1, s.wake.dispatch)) ∧
      (¬ s.Interrupted → rvStep dev n s = (0, s)) := by
  refine ⟨fun hint => rvStep_dispatch dev ⟨hinit, hn, hint⟩, fun hint => ?_⟩
  refine rvStep_idle dev (fun hd => hint hd.2.2) fun hr => ?_
  exact Bool.false_ne_true (hr.2.2.1.symm.trans hsleep)

/-- Sleep agrees with wake-up on the interrupts that are enabled in `mie` and by
`mstatus.MIE`: WFI sleeps exactly when there is none, unless all that is raised is masked; a
sleeping hart wakes exactly for one, and takes it; and no call leaves the hart asleep with
one pending. -/
theorem wfi_sleep_wake :
    (∀ s : State δ, s.wfiSleep = false → (s.mie = true → s.irqMask ≠ 0 → s.pending ≠ 0) →
      ((executeInstruction dev 0x10500073#32 s).2.wfiSleep = true ↔ ¬ s.Interrupted)) ∧
    (∀ (n : ℤ) (s : State δ), s.initialized = true → 0 < n → s.wfiSleep = true →
      ((rvStep dev n s).2.wfiSleep = false ↔ s.Interrupted) ∧
      (s.Interrupted → rvStep dev n s = (1, s.wake.dispatch)) ∧
      (¬ s.Interrupted → rvStep dev n s = (0, s))) ∧
    ∀ (n : ℤ) (s : State δ), s.initialized = true → 0 < n →
      (rvStep dev n s).2.wfiSleep = true → ¬ (rvStep dev n s).2.Interrupted := by
  refine ⟨fun s hawake hmasked => ?_, fun n s hinit hn hsleep => ?_, fun n s hinit hn hsleep => ?_⟩
  · rw [wfi_wfiSleep_iff dev hawake]
    refine not_congr ⟨fun h => ⟨hmasked h.1 h.2, h.1⟩, interrupted_raised⟩
  · obtain ⟨hwake, hstay⟩ := rvStep_asleep dev hinit hn hsleep
    refine ⟨⟨fun h => ?_, fun hint => by rw [hwake hint]; rfl⟩, hwake, hstay⟩
    by_contra hint
    rw [hstay hint, hsleep] at h
    exact Bool.false_ne_true h.symm
  · by_cases hd : s.Dispatches n
    · rw [rvStep_dispatch dev hd] at hsleep
      exact absurd hsleep Bool.false_ne_true
    by_cases hr : s.Runs n
    · rw [rvStep_run dev hr] at hsleep ⊢
      exact loop_asleep dev hr.2.2.1 _ hsleep
    · rw [rvStep_idle dev hd hr]
      exact fun hint => hd ⟨hinit, hn, hint⟩

/-- WFI in fresh RAM: asleep until the timer interrupt is raised with `mstatus.MIE` set. -/
theorem wfi_sleep_wake_timer :
    let s := State.booted [0x10500073]
    let t := rvSetIrq 0x80 { (rvStep herveStubs 1 s).2 with csrMstatus := 8 }
    (executeInstruction herveStubs 0x10500073#32 s).2.wfiSleep = true ∧
      (rvStep herveStubs 1 t).2.wfiSleep = false ∧
      ¬ (rvStep herveStubs 1 s).2.Interrupted := by
  intro s t
  obtain ⟨hsleep, hwake, hnone⟩ := wfi_sleep_wake herveStubs
  exact ⟨(hsleep s rfl (by decide)).2 (by decide),
    (hwake 1 t (by decide) (by decide) (by decide)).1.2 (by decide),
    hnone 1 s (by decide) (by decide) (by decide)⟩

/-- With `mstatus.MIE` clear, WFI sleeps while the timer interrupt is pending and enabled in
`mie`, and the next call leaves the hart asleep. -/
theorem wfi_sleeps_pending :
    let s := rvSetIrq 0x80 (State.booted [0x10500073])
    let t := (rvStep herveStubs 1 s).2
    s.irqMask &&& s.csrMie ≠ 0 ∧ t.wfiSleep = true ∧ t.irqMask &&& t.csrMie ≠ 0 ∧
      (rvStep herveStubs 1 t).2.wfiSleep = true := by
  decide

end Herve
