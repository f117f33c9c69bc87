import Herve.RiscV.Privileged
import Herve.Refine.Machine
import Herve.Run.ZeroRegister
import Herve.Trap.Csr
import Herve.Trap.Delivery
import Herve.Trap.Wfi

/-! The emulator runs the privileged machine: any interleaving of `rv_set_irq` and `rv_step` is a
run of it, as long as the emulator decodes each instruction on the way as it was encoded. -/

namespace Herve
open RiscV Paths

variable {δ : Type} (dev : Device δ)

/-! ## The machine in the emulator -/

def State.csrs (s : State δ) : Csrs :=
  ⟨s.csrMstatus, s.csrMie, s.csrMtvec, s.csrMepc, s.csrMcause, s.csrMcycle⟩

def State.machine (s : State δ) : Machine := ⟨s.hart, s.csrs, s.irqMask, s.wfiSleep⟩

theorem enabled_csrs (s : State δ) : s.csrs.enabled = s.mie := by
  rw [State.mie, Bool.eq_iff_iff, decide_eq_true_iff]
  exact (and_twoPow_ne_zero (i := 3) s.csrMstatus (by decide)).symm

theorem csr_machine (s : State δ) (a : BitVec 12) : s.machine.csr a = s.csrFile a := by
  have htimer := and_twoPow_ne_zero (i := 7) s.irqMask (by decide)
  have hmip : (if s.irqMask.getLsbD 7 then 0x80#32 else 0) =
      if s.irqMask &&& 0x80#32 ≠ 0 then 0x80#32 else 0 := if_congr htimer.symm rfl rfl
  unfold Machine.csr State.csrFile
  rw [← hmip]
  rfl

theorem csrs_csrWrite (s : State δ) (a : BitVec 12) (v : Word) :
    (s.csrWrite (a.setWidth 32) v).csrs = s.csrs.write a v := by
  unfold State.csrWrite
  split
  case h_6 h300 h304 h305 h341 h342 =>
    rw [toNat_csr a (by decide)] at h300 h304 h305 h341 h342
    rw [Csrs.write, if_neg h300, if_neg h304, if_neg h305, if_neg h341, if_neg h342]
  all_goals
    rename_i h
    rw [(toNat_csr a (by decide)).1 h]
    rfl

theorem csrs_write_of_not_writable (c : Csrs) {a : BitVec 12} (h : ¬ IsWritable a) (v : Word) :
    c.write a v = c := by
  unfold IsWritable at h
  simp only [not_or] at h
  obtain ⟨h300, h304, h305, h341, h342⟩ := h
  rw [Csrs.write, if_neg h300, if_neg h304, if_neg h305, if_neg h341, if_neg h342]

/-- An initialised emulator that has not exited. -/
structure State.Live (s : State δ) : Prop where
  initialized : s.initialized = true
  running : s.htifHalted = false
  x_zero : s.regs 0 = 0

/-! ## One iteration -/

/-- The instruction is executed as it was encoded. -/
def State.Conveys (s : State δ) : PInsn → Prop
  | .user i => Carries s.toCore i
  | .csr i => s.RamAccess s.pc 4 ∧ OperandFits i s
  | .mret | .wfi => s.RamAccess s.pc 4

/-- What comes next is an instruction of the machine, or EBREAK or ECALL, which end the call. -/
def State.Supported (s : State δ) : Prop :=
  (∃ i : PInsn, i.StandsAt s.hart ∧ s.Conveys i) ∨ StopsAt s.toCore s.hart

section
variable {s : State δ}

theorem not_isCompressed_system {insn : Word} (hsys : opcode insn = 0x73#32) :
    ¬ IsCompressed insn := by
  have hlow : insn &&& 0x3#32 = opcode insn &&& 0x3#32 := by
    unfold opcode
    rw [BitVec.and_assoc]
    rfl
  rw [IsCompressed, hlow, hsys]
  decide

theorem iteration_system {insn : Word} (hs : s.Live) (hram : s.RamAccess s.pc 4)
    (hbits : s.hart.load 4 s.pc = insn) (hsys : opcode insn = 0x73#32) (profiled : Bool) :
    ∃ e, iteration dev profiled s = stepBase dev insn (s.log e) := by
  obtain ⟨hf, hinsn, e, hfetched⟩ := fetch_carried dev hs.running hram
  rw [hbits] at hinsn
  refine ⟨e, ?_⟩
  rw [iteration_base dev profiled hf (hinsn ▸ not_isCompressed_system hsys), hinsn, hfetched]

/-- A pass of the loop that goes on, and the machine after it. -/
structure Goes (p : Bool × State δ) (m : Machine) : Prop where
  ok : p.1 = true
  machine : p.2.machine = m
  live : p.2.Live

theorem iteration_user {i : Insn} (hs : s.Live) (hi : i.StandsAt s.hart)
    (hc : Carries s.toCore i) (profiled : Bool) :
    Goes (iteration dev profiled s) (s.machine.retire (.user i)) := by
  obtain ⟨hok, hhart, hsystem⟩ := iteration_carried dev hs.running hs.x_zero hi hc profiled
  obtain ⟨-, hcycle⟩ := iteration_counts dev profiled s
  rw [hok] at hcycle
  have hkeep {α : Type} (f : State δ → α) (hf : ∀ t : State δ, f t.system = f t) :
      f (iteration dev profiled s).2 = f s := by
    rw [← hf, hsystem, hf]
  have hcsrs : (iteration dev profiled s).2.csrs = s.csrs.tick := by
    unfold State.csrs Csrs.tick
    rw [hkeep State.csrMstatus fun _ => rfl, hkeep State.csrMie fun _ => rfl,
      hkeep State.csrMtvec fun _ => rfl, hkeep State.csrMepc fun _ => rfl,
      hkeep State.csrMcause fun _ => rfl, hcycle]
    rfl
  refine ⟨hok, ?_, (hkeep State.initialized fun _ => rfl).trans hs.initialized,
    (hkeep (fun t => t.htifHalted) fun _ => rfl).trans hs.running,
    (iteration_zero dev profiled s).trans hs.x_zero⟩
  rw [State.machine, hhart, hcsrs, hkeep (fun t => t.irqMask) fun _ => rfl,
    hkeep State.wfiSleep fun _ => rfl]
  rfl

theorem csrWrite_mode (s : State δ) (addr v : Word) :
    (s.csrWrite addr v).wfiSleep = s.wfiSleep ∧
      (s.csrWrite addr v).initialized = s.initialized := by
  unfold State.csrWrite
  split <;> exact ⟨rfl, rfl⟩

theorem iteration_csr {i : CsrInstr} (hs : s.Live) (hram : s.RamAccess s.pc 4)
    (hi : s.hart.load 4 s.pc = i.encode) (hfit : OperandFits i s) (profiled : Bool) :
    Goes (iteration dev profiled s) (s.machine.retire (.csr i)) := by
  obtain ⟨e, hiter⟩ := iteration_system dev hs hram hi (iType_fields _ _ _ _ _).1 profiled
  obtain ⟨p, hrun⟩ := executeInstruction_csr dev i (s.log e)
  -- as the bits where the operands differ do not show, the machine writes what the emulator does
  have hwrite : s.machine.csrs.write i.csr
      (i.op.eval (s.machine.csr i.csr) (i.src s.machine.hart.get)) =
        s.csrs.write i.csr (i.op.eval (s.csrFile i.csr) (codeSrc i s.regs)) := by
    have hget : s.machine.hart.get = s.regs := funext fun r => get_eq (h := s.hart) hs.x_zero r
    rw [csr_machine, hget]
    show s.csrs.write _ _ = _
    by_cases hw : IsWritable i.csr
    · rw [(eval_codeSrc_iff i s).2 hfit hw]
    · rw [csrs_write_of_not_writable _ hw, csrs_write_of_not_writable _ hw]
  obtain ⟨t, ht⟩ : ∃ t, (s.log e).csrWrite (i.csr.setWidth 32)
      (i.op.eval ((s.log e).csrFile i.csr) (codeSrc i (s.log e).regs)) = t := ⟨_, rfl⟩
  have hcsrs : t.csrs = s.csrs.write i.csr (i.op.eval (s.csrFile i.csr) (codeSrc i s.regs)) := by
    rw [← ht]
    exact csrs_csrWrite (s.log e) _ _
  obtain ⟨hcore, -⟩ := csrWrite_frame (s.log e) (i.csr.setWidth 32)
    (i.op.eval ((s.log e).csrFile i.csr) (codeSrc i (s.log e).regs))
  obtain ⟨hsleep, hinit⟩ := csrWrite_mode (s.log e) (i.csr.setWidth 32)
    (i.op.eval ((s.log e).csrFile i.csr) (codeSrc i (s.log e).regs))
  rw [ht] at hrun hcore hsleep hinit
  have hhart := (congrArg (fun c : Core δ => ({ c with
    regs := writeReg i.rd (s.csrFile i.csr) s.regs, pc := s.pc + 4 } : Core δ).hart) hcore).trans
    (s.toCore.hart_writeReg i.rd (s.csrFile i.csr) (s.pc + 4))
  rw [hiter, stepBase, hrun]
  refine ⟨rfl, ?_, hinit.trans hs.initialized, ?_, ?_⟩
  · rw [Machine.retire, hwrite, csr_machine, ← hcsrs]
    have hlines : t.irqMask = s.irqMask := congrArg (·.irqMask) hcore
    exact congr (congr (congr (congrArg Machine.mk hhart) rfl) hlines) hsleep
  · exact (congrArg (·.htifHalted) hcore).trans hs.running
  · exact (writeReg_zero _ _ _).trans hs.x_zero

theorem iteration_mret_goes (hs : s.Live) (hram : s.RamAccess s.pc 4)
    (hi : s.hart.load 4 s.pc = 0x30200073#32) (profiled : Bool) :
    Goes (iteration dev profiled s) (s.machine.retire .mret) := by
  obtain ⟨e, hiter⟩ := iteration_system dev hs hram hi (by decide) profiled
  rw [hiter]
  exact ⟨rfl, rfl, hs.initialized, hs.running, hs.x_zero⟩

theorem waits_machine_iff : s.machine.Waits ↔ Sleeps 0x10500073#32 s := by
  rw [sleeps_wfi_iff, ← enabled_csrs]
  rfl

theorem iteration_wfi_goes (hs : s.Live) (hram : s.RamAccess s.pc 4)
    (hi : s.hart.load 4 s.pc = 0x10500073#32) (hw : ¬ s.machine.Waits) (profiled : Bool) :
    Goes (iteration dev profiled s) (s.machine.retire .wfi) := by
  obtain ⟨e, hiter⟩ := iteration_system dev hs hram hi (by decide) profiled
  rw [waits_machine_iff, sleeps_wfi_iff, not_not, State.mie, decide_eq_true_iff] at hw
  have hrun : executeInstruction dev 0x10500073#32 (s.log e) =
      (s.log e).retire .sys (s.pc + 4) 0x10500073#32 := if_pos hw
  obtain ⟨p, hp⟩ := retire_profiler (s.log e) .sys (s.pc + 4) 0x10500073#32
  rw [hiter, stepBase, hrun, hp]
  exact ⟨rfl, rfl, hs.initialized, hs.running, hs.x_zero⟩

theorem iteration_wfi_sleeps (hs : s.Live) (hram : s.RamAccess s.pc 4)
    (hi : s.hart.load 4 s.pc = 0x10500073#32) (hw : s.machine.Waits) (profiled : Bool) :
    (iteration dev profiled s).1 = false ∧
      (iteration dev profiled s).2.machine = { s.machine with asleep := true } ∧
      (iteration dev profiled s).2.Live := by
  obtain ⟨e, hiter⟩ := iteration_system dev hs hram hi (by decide) profiled
  have hrun := executeInstruction_sleeps dev (s := s.log e) (waits_machine_iff.1 hw)
  rw [hiter, stepBase, hrun]
  exact ⟨rfl, rfl, hs.initialized, hs.running, hs.x_zero⟩

theorem iteration_ends (hs : s.Live) (hstop : StopsAt s.toCore s.hart) (profiled : Bool) :
    (iteration dev profiled s).1 = false ∧
      (iteration dev profiled s).2.machine = s.machine ∧ (iteration dev profiled s).2.Live := by
  obtain ⟨hram, hword⟩ := hstop
  rcases hword with hi | hi
  all_goals
    obtain ⟨e, hiter⟩ := iteration_system dev hs hram hi (by decide) profiled
    rw [hiter]
    exact ⟨rfl, rfl, hs.initialized, hs.running, hs.x_zero⟩

/-- The runs of the machine in which nothing comes from outside. -/
def MachineRun (k : ℕ) (m m' : Machine) : Prop :=
  RunOf Machine.Step (fun l => l.input = none) Machine.Label.counts k m m'

theorem MachineRun.refl (m : Machine) : MachineRun 0 m m := RunOf.refl m

theorem MachineRun.single {m m' : Machine} {l : Machine.Label} (h : Machine.Step m l m')
    (hl : l.input = none) : MachineRun (if l.counts then 1 else 0) m m' := RunOf.single h hl

/-- An iteration is at most one step of the machine. -/
theorem iteration_runs (hs : s.Live) (hawake : s.wfiSleep = false) (h : s.Supported)
    (profiled : Bool) : (iteration dev profiled s).2.Live ∧
      MachineRun (if (iteration dev profiled s).1 then 1 else 0) s.machine
        (iteration dev profiled s).2.machine := by
  have hgoes : ∀ i : PInsn, i.StandsAt s.hart → (i = .wfi → ¬ s.machine.Waits) →
      Goes (iteration dev profiled s) (s.machine.retire i) →
      (iteration dev profiled s).2.Live ∧
        MachineRun (if (iteration dev profiled s).1 then 1 else 0) s.machine
          (iteration dev profiled s).2.machine := by
    intro i hi hw hgoes
    have hstep : Machine.Step s.machine (.retire i) (s.machine.retire i) := .retire hawake hi hw
    rw [hgoes.ok, hgoes.machine]
    exact ⟨hgoes.live, MachineRun.single hstep rfl⟩
  rcases h with ⟨i, hi, hc⟩ | hstop
  · cases i with
    | user i => exact hgoes (.user i) hi PInsn.noConfusion (iteration_user dev hs hi hc profiled)
    | csr i =>
      exact hgoes (.csr i) hi PInsn.noConfusion (iteration_csr dev hs hc.1 hi hc.2 profiled)
    | mret => exact hgoes .mret hi PInsn.noConfusion (iteration_mret_goes dev hs hc hi profiled)
    | wfi =>
      by_cases hw : s.machine.Waits
      · obtain ⟨hok, hmachine, hlive⟩ := iteration_wfi_sleeps dev hs hc hi hw profiled
        have hstep : Machine.Step s.machine .sleep { s.machine with asleep := true } :=
          .sleep hawake hi hw
        rw [hok, hmachine]
        exact ⟨hlive, MachineRun.single hstep rfl⟩
      · exact hgoes .wfi hi (fun _ => hw) (iteration_wfi_goes dev hs hc hi hw profiled)
  · obtain ⟨hok, hmachine, hlive⟩ := iteration_ends dev hs hstop profiled
    rw [hok, hmachine]
    exact ⟨hlive, MachineRun.refl _⟩

/-! ## Calls -/

theorem and_not_of_and_eq_zero {x m : Word} (h : x &&& m = 0) : x &&& ~~~m = x := by
  refine BitVec.eq_of_getLsbD_eq fun i hi => ?_
  have hbit : (x &&& m).getLsbD i = (0#32).getLsbD i := congrArg (BitVec.getLsbD · i) h
  rw [BitVec.getLsbD_and, BitVec.getLsbD_zero] at hbit
  rw [BitVec.getLsbD_and, BitVec.getLsbD_not, decide_eq_true hi, Bool.true_and]
  cases h1 : x.getLsbD i with
  | false => rfl
  | true =>
    have hclear : m.getLsbD i = false := by simpa [h1] using hbit
    rw [hclear]
    rfl

theorem handler_csrs (s : State δ) (cause : ℕ) :
    s.csrs.handler cause = handlerAddress s.csrMtvec cause := by
  unfold handlerAddress
  by_cases hmode : s.csrMtvec &&& 0x3#32 = 0
  · rw [if_neg (not_not_intro hmode), and_not_of_and_eq_zero hmode]
    exact if_pos hmode
  · rw [if_pos hmode, BitVec.mul_comm]
    exact if_neg hmode

theorem dispatch_runs (hs : s.Live) (hint : s.Interrupted) :
    s.wake.dispatch.Live ∧ MachineRun 1 s.machine s.wake.dispatch.machine := by
  refine ⟨⟨hs.initialized, hs.running, hs.x_zero⟩, ?_⟩
  have hmachine : s.wake.dispatch.machine = s.machine.take (ctz32 s.pending) := by
    rw [Machine.take]
    show Machine.mk (s.hart.goto (handlerAddress s.csrMtvec _)) _ _ _ = _
    rw [← handler_csrs]
    rfl
  have hleast : IsLeast (bits s.pending) (ctz32 s.pending) := ctz32_isLeast hint.1
  have hstep : Machine.Step s.machine (.take (ctz32 s.pending))
      (s.machine.take (ctz32 s.pending)) := .take ((enabled_csrs s).trans hint.2) hleast
  rw [hmachine]
  exact MachineRun.single hstep rfl

theorem rvStep_runs (hs : s.Live) (n : ℤ) (h : ∀ t, Iterates dev n s t → t.Supported) :
    (rvStep dev n s).2.Live ∧
      MachineRun (rvStep dev n s).1 s.machine (rvStep dev n s).2.machine := by
  by_cases hd : s.Dispatches n
  · rw [rvStep_dispatch dev hd]
    exact dispatch_runs hs hd.2.2
  by_cases hr : s.Runs n
  · rw [rvStep_run dev hr]
    refine loop_run (I := State.Live) hs fun t ht hlive => ?_
    have hawake := BreakLoop.visits_invariant (I := fun u : State δ => u.wfiSleep = false)
      (fun u hu hgo => (iteration_awake dev hgo).trans hu) hr.2.2.1 ht
    exact iteration_runs dev hlive hawake (h t ⟨hr, ht⟩) s.profiler.profilingEnabled
  · rw [rvStep_idle dev hd hr]
    exact ⟨hs, MachineRun.refl _⟩

end

/-- Every iteration of the calls stands before an instruction that is executed as encoded. -/
def AllSupported : List Call → State δ → Prop
  | [], _ => True
  | .setIrq mask :: calls, s => AllSupported calls (rvSetIrq mask s)
  | .step n :: calls, s =>
    (∀ t, Iterates dev n s t → t.Supported) ∧ AllSupported calls (rvStep dev n s).2

def Call.input : Call → Option Word
  | .setIrq mask => some mask
  | .step _ => none

/-- Any interleaving of the calls is a run of the machine with the same interrupts coming in, and
what the calls return is how many instructions it retires and interrupts it takes. -/
theorem runCalls_machine {s : State δ} (hs : s.Live) {calls : List Call}
    (h : AllSupported dev calls s) :
    ∃ ls, Run Machine.Step s.machine ls (runCalls dev calls s).machine ∧
      ls.filterMap Machine.Label.input = calls.filterMap Call.input ∧
      ls.countP Machine.Label.counts = (runCounts dev calls s).sum := by
  induction calls generalizing s with
  | nil => exact ⟨[], .nil _, rfl, rfl⟩
  | cons c calls ih =>
    cases c with
    | setIrq mask =>
      have hlive : (rvSetIrq mask s).Live := ⟨hs.initialized, hs.running, hs.x_zero⟩
      obtain ⟨ls, hrun, hinput, hcount⟩ := ih hlive h
      refine ⟨.lines mask :: ls, .cons (.lines s.machine mask) hrun, ?_, hcount⟩
      exact congrArg (mask :: ·) hinput
    | step n =>
      obtain ⟨hlive, ms, hfirst, hnone, hcount⟩ := rvStep_runs dev hs n h.1
      obtain ⟨ls, hrun, hinput, hcount'⟩ := ih hlive h.2
      refine ⟨ms ++ ls, hfirst.append hrun, ?_, ?_⟩
      · rw [List.filterMap_append, List.filterMap_eq_nil_iff.2 hnone]
        exact hinput
      · rw [List.countP_append, hcount, hcount']
        rfl

theorem iterates_one {s t : State δ} (h : Iterates dev 1 s t) : t = s := by
  obtain ⟨-, hvisit⟩ := h
  have hone : (1 : ℤ).toNat = 0 + 1 := rfl
  rw [hone] at hvisit
  cases hvisit with
  | here => rfl
  | next _ hnone => cases hnone

/-- `addi x1, x0, 8`, `csrw mstatus, x1`, `wfi`. -/
def State.idles : State Unit := State.booted [0x00800093, 0x30009073, 0x10500073]

/-- An interrupt wakes it, to the handler at 0. -/
def idleCalls : List Call := [.step 1, .step 1, .step 1, .setIrq 1, .step 1, .step 1]

theorem idleCalls_supported : AllSupported herveStubs idleCalls State.idles := by
  refine ⟨fun t ht => ?_, fun t ht => ?_, fun t ht => ?_, fun t ht => ?_, fun t ht => ?_, trivial⟩
  · rw [iterates_one herveStubs ht]
    exact .inl ⟨.user (.base (.opImm .addi 1 0 8)), ⟨trivial, by decide⟩,
      ⟨by constructor <;> decide, nofun, trivial⟩⟩
  · rw [iterates_one herveStubs ht]
    refine .inl ⟨.csr ⟨.rw, false, 0, 1, 0x300⟩, ?_, by constructor <;> decide, nofun⟩
    show Hart.load _ 4 _ = _
    decide
  · rw [iterates_one herveStubs ht]
    refine .inl ⟨.wfi, ?_, by constructor <;> decide⟩
    show Hart.load _ 4 _ = _
    decide
  -- the call takes the interrupt
  · exact absurd (by decide) ht.1.2.2.2
  · rw [iterates_one herveStubs ht]
    exact .inl ⟨.user (.base (.opImm .addi 1 0 8)), ⟨trivial, by decide⟩,
      ⟨by constructor <;> decide, nofun, trivial⟩⟩

theorem runCalls_machine_idles :
    ∃ ls, Run Machine.Step State.idles.machine ls
        (runCalls herveStubs idleCalls State.idles).machine ∧
      ls.filterMap Machine.Label.input = [1] ∧ ls.countP Machine.Label.counts = 4 := by
  obtain ⟨ls, hrun, hinput, hcount⟩ :=
    runCalls_machine herveStubs ⟨rfl, rfl, rfl⟩ idleCalls_supported
  exact ⟨ls, hrun, hinput, hcount.trans (by decide)⟩

end Herve
