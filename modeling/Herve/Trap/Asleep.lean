import Herve.Trap.Wfi
import Herve.Run.Reached

/-! Falling asleep and being woken. Every SYSTEM word with `funct3 = 0` that the source does not
name takes the arm of WFI, and that arm returns before the pc moves on, so that the interrupt
which ends the sleep saves the address of WFI itself. -/

namespace Herve
open RiscV

variable {δ : Type} (dev : Device δ)

/-! ## Who falls asleep -/

theorem stepCompressed_wfiSleep (profiled : Bool) (cInsn : BitVec 16) (s : State δ) :
    (stepCompressed dev profiled cInsn s).2.wfiSleep = s.wfiSleep := by
  rw [stepCompressed]
  dsimp only
  split_ifs <;> rfl

/-- A 16-bit word leaves `wfi_sleep` alone; a 32-bit word does exactly where it does not take the
arm of WFI or the hart was asleep before. -/
theorem wfiSleep_unchanged_iff (s : State δ) :
    (∀ profiled cInsn, (stepCompressed dev profiled cInsn s).2.wfiSleep = s.wfiSleep) ∧
    ∀ insn, (executeInstruction dev insn s).2.wfiSleep = s.wfiSleep ↔
      ¬ Sleeps insn s ∨ s.wfiSleep = true := by
  refine ⟨fun profiled cInsn => stepCompressed_wfiSleep dev profiled cInsn s, fun insn => ?_⟩
  by_cases hsleep : Sleeps insn s
  · rw [executeInstruction_sleeps dev hsleep]
    exact ⟨fun h => .inr h.symm, fun h => (h.resolve_left (not_not_intro hsleep)).symm⟩
  · refine ⟨fun _ => .inl hsleep, fun _ => ?_⟩
    by_cases htrap : IsTrapCall insn
    · rw [executeInstruction_trapCall dev htrap]
    · exact (executeInstruction_retires dev htrap hsleep).2

/-- SFENCE.VMA suspends the hart. -/
theorem sfence_sleeps :
    (State.booted []).wfiSleep = false ∧
      (executeInstruction herveStubs 0x12000073#32 (State.booted [])).2.wfiSleep = true := by
  decide

/-! ## Where a sleep resumes -/

/-- The instruction at the pc is WFI, and it puts the hart to sleep. -/
def State.SleepsAtWfi (s : State δ) : Prop :=
  s.CanFetch ∧ s.fetchedInsn dev = 0x10500073#32 ∧ Sleeps 0x10500073#32 (s.fetched dev)

variable {dev}

theorem State.SleepsAtWfi.rvStep {m : ℤ} {s₀ s : State δ} (hs : s.SleepsAtWfi dev)
    (hvisit : Iterates dev m s₀ s) :
    (rvStep dev m s₀).2 = { s.fetched dev with wfiSleep := true } := by
  obtain ⟨hf, hinsn, hsleep⟩ := hs
  have hbase : ¬ IsCompressed (s.fetchedInsn dev) := by
    rw [hinsn]
    decide
  have hrun := iteration_fallsAsleep dev s₀.profiler.profilingEnabled hf
    ⟨hbase, hinsn.symm ▸ hsleep⟩
  rw [rvStep_run dev hvisit.1, BreakLoop.loop_of_visits_false hvisit.2 (by rw [hrun]), hrun]

theorem asleep_pc {calls : List Call} {t : State δ}
    (hstay : ∀ before, before <+: calls → (runCalls dev before t).wfiSleep = true) :
    (runCalls dev calls t).pc = t.pc := by
  induction calls using List.reverseRecOn with
  | nil => rfl
  | append_singleton calls k ih =>
    have hprev := ih fun before hb => hstay before (hb.trans (List.prefix_append _ _))
    have hasleep := hstay calls (List.prefix_append _ _)
    have hend := hstay (calls ++ [k]) (List.prefix_refl _)
    rw [runCalls_concat] at hend ⊢
    cases k with
    | setIrq mask => exact hprev
    | step n =>
      by_cases hd : (runCalls dev calls t).Dispatches n
      · rw [call, rvStep_dispatch dev hd] at hend
        exact absurd hend Bool.false_ne_true
      · have hr : ¬ (runCalls dev calls t).Runs n := fun hr =>
          Bool.false_ne_true (hr.2.2.1.symm.trans hasleep)
        rw [call, rvStep_idle dev hd hr]
        exact hprev

theorem iteration_mret_pc (profiled : Bool) {w : State δ} (hf : w.CanFetch)
    (hinsn : w.fetchedInsn dev = 0x30200073#32) :
    (iteration dev profiled w).2.pc = w.csrMepc := by
  rw [iteration_base dev profiled hf (by rw [hinsn]; decide), hinsn]
  rfl

theorem ne_add_four (p : Word) : p ≠ p + 4#32 := by
  intro h
  bv_omega

variable (dev)

/-- In no run does WFI resume after itself: the interrupt that ends the sleep saves the address
of WFI, and a handler that leaves `mepc` alone returns there. -/
theorem wfi_resumes_at_wfi {m n : ℤ} {s₀ s : State δ} (hvisit : Iterates dev m s₀ s)
    (hs : s.SleepsAtWfi dev) {calls : List Call}
    (hstay : ∀ before, before <+: calls →
      (runCalls dev before (rvStep dev m s₀).2).wfiSleep = true)
    (hwake : (runCalls dev calls (rvStep dev m s₀).2).Dispatches n) :
    let v := (rvStep dev n (runCalls dev calls (rvStep dev m s₀).2)).2
    v.csrMepc = s.pc ∧ v.csrMepc ≠ s.pc + 4 ∧
      ∀ (handler : List Call) (profiled : Bool) (w : State δ), Executed dev handler v w →
        w.CanFetch → w.fetchedInsn dev = 0x30200073#32 → w.csrMepc = v.csrMepc →
          (iteration dev profiled w).2.pc = s.pc ∧ (iteration dev profiled w).2.pc ≠ s.pc + 4 := by
  intro v
  have hpc : (runCalls dev calls (rvStep dev m s₀).2).pc = s.pc := by
    rw [asleep_pc hstay, hs.rvStep hvisit]
    rfl
  have hv : v = (runCalls dev calls (rvStep dev m s₀).2).wake.dispatch :=
    congrArg Prod.snd (rvStep_dispatch dev hwake)
  have hmepc : v.csrMepc = s.pc := by
    rw [hv]
    exact hpc
  have hne := ne_add_four s.pc
  refine ⟨hmepc, hmepc ▸ hne, fun handler profiled w _ hf hinsn hkept => ?_⟩
  rw [iteration_mret_pc profiled hf hinsn, hkept, hmepc]
  exact ⟨rfl, hne⟩

/-- WFI, then `addi x1, x0, 1`; the handler at 8 returns at once. -/
def State.waiting : State Unit :=
  { State.booted [0x10500073, 0x00100093, 0x30200073] with csrMtvec := 8, csrMstatus := 8 }

theorem waiting_sleeps : State.waiting.SleepsAtWfi herveStubs :=
  ⟨⟨by decide, by decide⟩, by decide, by decide⟩

theorem wfi_resumes_at_wfi_waiting :
    let v := runCalls herveStubs [.step 10, .setIrq 0x80, .step 10] State.waiting
    v.csrMepc = State.waiting.pc ∧ (iteration herveStubs false v).2.pc = State.waiting.pc := by
  have hruns : Iterates herveStubs 10 State.waiting State.waiting :=
    ⟨⟨by decide, by decide, by decide, by decide⟩, .here⟩
  have hstay : ∀ before, before <+: [Call.setIrq 0x80] →
      (runCalls herveStubs before (rvStep herveStubs 10 State.waiting).2).wfiSleep = true := by
    intro before hbefore
    rcases List.prefix_cons_iff.1 hbefore with rfl | ⟨rest, rfl, hrest⟩
    · decide
    · rw [List.prefix_nil.1 hrest]
      decide
  have hwake : (runCalls herveStubs [.setIrq 0x80]
      (rvStep herveStubs 10 State.waiting).2).Dispatches 10 := ⟨by decide, by decide, by decide⟩
  obtain ⟨hmepc, _, hmret⟩ :=
    wfi_resumes_at_wfi herveStubs hruns waiting_sleeps hstay hwake
  exact ⟨hmepc, (hmret [.step 10] false _
    ⟨[], 10, List.prefix_refl _, ⟨by decide, by decide, by decide, by decide⟩, .here⟩
    ⟨by decide, by decide⟩ (by decide) rfl).1⟩

/-- Once the interrupt of `State.waiting` has been served the hart is asleep at WFI again, and
the next instruction has not been executed. -/
theorem wfi_sleeps_again :
    State.waiting.SleepsAtWfi herveStubs ∧ State.waiting.pc = 0 ∧
    let v := runCalls herveStubs [.step 10, .setIrq 0x80, .step 10] State.waiting
    let x := runCalls herveStubs [.step 10] v
    v.csrMepc = 0 ∧ v.fetchedInsn herveStubs = 0x30200073#32 ∧ x.pc = 0 ∧ x.wfiSleep = true ∧
      x.regs 1 = 0 ∧ x.irqMask = 0 :=
  ⟨waiting_sleeps, rfl, by decide⟩

end Herve
