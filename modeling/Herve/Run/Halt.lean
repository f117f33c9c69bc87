import Herve.Iss.Init
import Herve.Run.Iteration

/-! After an HTIF exit. Both instruction loops test the halted flag before each instruction,
but `rv_step` dispatches interrupts before it reaches them. -/

namespace Herve
open RiscV

variable {δ : Type} (dev : Device δ) {s t : State δ}

/-- `t` is where an exit left `s`: nothing the guest can name has changed but `mip`, which
shows the mask of `rv_set_irq`. -/
structure Frozen (s t : State δ) : Prop where
  pc : t.pc = s.pc
  regs : t.regs = s.regs
  memory : t.memory = s.memory
  memorySize : t.memorySize = s.memorySize
  memoryBase : t.memoryBase = s.memoryBase
  mstatus : t.csrMstatus = s.csrMstatus
  mie : t.csrMie = s.csrMie
  mtvec : t.csrMtvec = s.csrMtvec
  mepc : t.csrMepc = s.csrMepc
  mcause : t.csrMcause = s.csrMcause
  mcycle : t.csrMcycle = s.csrMcycle
  halted : t.htifHalted = s.htifHalted
  exitCode : t.htifExitCode = s.htifExitCode

/-- The exit stays final over the calls. -/
structure ExitFinal (s : State δ) (calls : List Call) : Prop where
  counts : ∀ c ∈ runCounts dev calls s, c = 0
  frozen : ∀ before, before <+: calls → Frozen s (runCalls dev before s)

/-- No `rv_step` that would run comes while the mask in force has a bit of `mie`. -/
def Undisturbed (mie : Word) : Word → List Call → Prop
  | _, [] => True
  | _, .setIrq mask :: calls => Undisturbed mie mask calls
  | mask, .step n :: calls => (0 < n → mask &&& mie = 0) ∧ Undisturbed mie mask calls

theorem rvStep_halted (hhalt : s.htifHalted = true) {n : ℤ} (hd : ¬ s.Dispatches n) :
    rvStep dev n s = (0, s) := by
  by_cases hr : s.Runs n
  · have hstop : ∀ profiled, iteration dev profiled s = (false, s) := by
      intro profiled
      refine iteration_stop dev profiled fun hf => ?_
      exact Bool.false_ne_true (hf.1.symm.trans hhalt)
    rw [rvStep_run dev hr]
    cases n.toNat with
    | zero => rfl
    | succ k => rw [BreakLoop.loop_succ_false (by rw [hstop]), hstop]
  · exact rvStep_idle dev hd hr

theorem forall_prefix_cons {α : Type} {P : List α → Prop} {a : α} {l : List α} :
    (∀ l', l' <+: a :: l → P l') ↔ P [] ∧ ∀ l', l' <+: l → P (a :: l') := by
  constructor
  · intro h
    exact ⟨h [] List.nil_prefix, fun l' hl => h _ (List.cons_prefix_cons.2 ⟨rfl, hl⟩)⟩
  · rintro ⟨hnil, hcons⟩ l' hl
    cases l' with
    | nil => exact hnil
    | cons b l' =>
      obtain ⟨rfl, hl'⟩ := List.cons_prefix_cons.1 hl
      exact hcons l' hl'

/-- The induction behind `exitFinal_iff`: `t` is reached from the exit `s` so far frozen. -/
theorem undisturbed_iff (hfrozen : Frozen s t) (hhalt : t.htifHalted = true) (calls : List Call) :
    ((∀ c ∈ runCounts dev calls t, c = 0) ∧
        ∀ before, before <+: calls → Frozen s (runCalls dev before t)) ↔
      (t.initialized = true → t.mie = true → Undisturbed t.csrMie t.irqMask calls) := by
  induction calls generalizing t with
  | nil =>
    have hnil : ∀ before, before <+: [] → Frozen s (runCalls dev before t) := by
      intro before hbefore
      rw [List.prefix_nil.1 hbefore]
      exact hfrozen
    exact ⟨fun _ _ _ => trivial, fun _ => ⟨fun c hc => absurd hc List.not_mem_nil, hnil⟩⟩
  | cons k calls ih =>
    rw [forall_prefix_cons]
    cases k with
    | setIrq mask =>
      have hnext : Frozen s (rvSetIrq mask t) := { hfrozen with }
      refine Iff.trans ?_ (ih hnext hhalt)
      exact ⟨fun h => ⟨h.1, h.2.2⟩, fun h => ⟨h.1, hfrozen, h.2⟩⟩
    | step n =>
      by_cases hd : t.Dispatches n
      -- the dispatch counts, and the mask says that it is coming
      · have hcount : (rvStep dev n t).1 = 1 := by rw [rvStep_dispatch dev hd]
        constructor
        · intro h
          have hzero := h.1 _ List.mem_cons_self
          rw [hcount] at hzero
          exact absurd hzero one_ne_zero
        · intro h
          obtain ⟨hi, hn, hpending, hmie⟩ := hd
          exact absurd ((h hi hmie).1 hn) hpending
      · have hstay := rvStep_halted dev hhalt hd
        have hcalls : ∀ before, runCalls dev (.step n :: before) t = runCalls dev before t := by
          intro before
          exact congrArg (fun u => runCalls dev before u.2) hstay
        have hquiet : t.initialized = true → t.mie = true → 0 < n → t.irqMask &&& t.csrMie = 0 := by
          intro hi hmie hn
          by_contra hpending
          exact hd ⟨hi, hn, hpending, hmie⟩
        simp only [runCounts, hstay, hcalls, List.forall_mem_cons, Undisturbed, true_and]
        refine Iff.trans ?_ ((ih hfrozen hhalt).trans ?_)
        · exact ⟨fun h => ⟨h.1, h.2.2⟩, fun h => ⟨h.1, hfrozen, h.2⟩⟩
        · exact ⟨fun h hi hmie => ⟨hquiet hi hmie, h hi hmie⟩, fun h hi hmie => (h hi hmie).2⟩

/-- An exit is final exactly when no interrupt is dispatched after it: `mstatus.MIE` is clear,
or every later call finds none of the raised interrupts enabled. -/
theorem exitFinal_iff (hhalt : s.htifHalted = true) (calls : List Call) :
    ExitFinal dev s calls ↔
      (s.initialized = true → s.mie = true → Undisturbed s.csrMie s.irqMask calls) := by
  have hself : Frozen s s := ⟨rfl, rfl, rfl, rfl, rfl, rfl, rfl, rfl, rfl, rfl, rfl, rfl, rfl⟩
  have hiff := undisturbed_iff dev hself hhalt calls
  exact ⟨fun h => hiff.1 ⟨h.counts, h.frozen⟩, fun h => ⟨(hiff.2 h).1, (hiff.2 h).2⟩⟩

/-- `addi x1, x0, 8; csrw mstatus, x1; lui x2, 0x80001; addi x3, x0, 1; sw x3, 0(x2)`, run:
the guest enables interrupts and exits. -/
def State.exited : State Unit :=
  (rvStep herveStubs 5 (State.booted [0x00800093, 0x30009073, 0x80001137, 0x00100193,
    0x00312023])).2

theorem exitFinal_steps : ExitFinal herveStubs State.exited [.step 5, .step 7] :=
  (exitFinal_iff herveStubs (by decide) _).2 fun _ _ =>
    ⟨fun _ => by decide, fun _ => by decide, trivial⟩

/-- The timer interrupt is dispatched after the exit. -/
theorem not_exitFinal : State.exited.htifHalted = true ∧
    ¬ ExitFinal herveStubs State.exited [.setIrq 0x80, .step 1] := by
  refine ⟨by decide, fun h => ?_⟩
  exact absurd (h.counts 1 (by decide)) one_ne_zero

end Herve
