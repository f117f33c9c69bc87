import Herve.Run.Fetch
import Herve.Run.Halt
import Herve.Run.Program
import Herve.Run.Twin
import Herve.Trap.Csr
import Herve.Trap.Delivery

/-! What a program can tell of the one before it. `rv_init_from_buffer` and `rv_reset` leave
the trap registers and the HTIF state as they find them. -/

namespace Herve
open RiscV

variable {δ : Type} (dev : Device δ)

/-- The emulator started again on another program, in front of a device in state `d`. -/
def State.rebooted (data : Option (List Byte)) (ramSize : ℕ) (block : ℕ → Byte) (startPc : Word)
    (d : δ) (s : State δ) : State δ :=
  rvReset startPc (rvInitFromBuffer data ramSize (some block) { s with device := d })

/-- What a harness can read of the emulator. -/
structure SameView (s t : State δ) : Prop where
  regs : t.regs = s.regs
  pc : t.pc = s.pc
  cycles : t.csrMcycle = s.csrMcycle
  halted : t.htifHalted = s.htifHalted
  exitCode : t.htifExitCode = s.htifExitCode
  memorySize : t.memorySize = s.memorySize
  memory : ∀ i < s.memorySize.toNat, t.memory i = s.memory i

/-- No program started on `s` and `t` can be made to differ. -/
def HistoryIndependent (s t : State δ) : Prop :=
  ∀ data ramSize block startPc d calls,
    runCounts dev calls (t.rebooted data ramSize block startPc d) =
        runCounts dev calls (s.rebooted data ramSize block startPc d) ∧
      SameView (runCalls dev calls (s.rebooted data ramSize block startPc d))
        (runCalls dev calls (t.rebooted data ramSize block startPc d))

/-- The statics that survive are the same, as far as they can still be seen: a halted
emulator runs nothing, but takes one more interrupt if `mstatus.MIE` is set. -/
def SameLeftovers (s t : State δ) : Prop :=
  t.htifHalted = s.htifHalted ∧ t.htifExitCode = s.htifExitCode ∧
    if s.htifHalted then
      t.mie = s.mie ∧
        (s.mie = true → ∀ c < 32, handlerAddress t.csrMtvec c = handlerAddress s.csrMtvec c)
    else
      t.csrMstatus = s.csrMstatus ∧ t.csrMtvec = s.csrMtvec ∧ t.csrMepc = s.csrMepc ∧
        t.csrMcause = s.csrMcause ∧ t.htifFromhostLo = s.htifFromhostLo ∧
        t.htifFromhostHi = s.htifFromhostHi

/-! ## A program that runs -/

/-- The same bus but for what is written and never read, and the log. -/
inductive Bus.Veiled (b : Bus δ) : Bus δ → Prop
  | mk (tohostLo tohostHi : Word) (exit : Bool) (trace : List Event) :
      Veiled b { b with
        htifTohostLo := tohostLo, htifTohostHi := tohostHi, htifExit := exit, trace := trace }

theorem Bus.Veiled.indistinct : Bus.Indistinct dev Bus.Veiled where
  memory h := by cases h; rfl
  memorySize h := by cases h; rfl
  memoryBase h := by cases h; rfl
  htifFromhostLo h := by cases h; rfl
  htifFromhostHi h := by cases h; rfl
  htifHalted h := by cases h; rfl
  log e h := by
    obtain ⟨lo, hi, exit, trace⟩ := h
    exact .mk lo hi exit _
  memcpyTo i n v h := by
    obtain ⟨lo, hi, exit, trace⟩ := h
    exact .mk lo hi exit _
  dpiMmioRead addr h := by
    obtain ⟨lo, hi, exit, trace⟩ := h
    exact ⟨rfl, .mk lo hi exit _⟩
  dpiMmioWrite addr value h := by
    obtain ⟨lo, hi, exit, trace⟩ := h
    exact .mk lo hi exit _
  setTohostLo v h := by
    obtain ⟨lo, hi, exit, trace⟩ := h
    exact .mk v hi exit trace
  setTohostHi v h := by
    obtain ⟨lo, hi, exit, trace⟩ := h
    exact .mk lo v exit trace
  setFromhostLo v h := by
    obtain ⟨lo, hi, exit, trace⟩ := h
    exact .mk lo hi exit trace
  setFromhostHi v h := by
    obtain ⟨lo, hi, exit, trace⟩ := h
    exact .mk lo hi exit trace
  exit code h := by
    obtain ⟨lo, hi, exit, trace⟩ := h
    exact .mk lo hi true trace
  irqMask h := by cases h; rfl
  setIrqMask mask h := by
    obtain ⟨lo, hi, exit, trace⟩ := h
    exact .mk lo hi exit trace

theorem State.Twin.sameView {y : List Symbol} {s t : State δ} (h : s.Twin Bus.Veiled y t) :
    SameView s t := by
  obtain ⟨p, hb⟩ := h
  obtain ⟨lo, hi, exit, trace⟩ := hb
  exact ⟨rfl, rfl, rfl, rfl, rfl, rfl, fun _ _ => rfl⟩

/-- Nothing but the memory image and its size depends on what is loaded. -/
theorem rebooted_eq (data : Option (List Byte)) (ramSize : ℕ) (block : ℕ → Byte) :
    ∃ memory size, ∀ (startPc : Word) (d : δ) (s : State δ),
      s.rebooted data ramSize block startPc d = { s with
        memory := memory, memorySize := size, memoryBase := 0, irqMask := 0, device := d
        regs := fun _ => 0, pc := startPc, wfiSleep := false, initialized := true
        csrMcycle := 0, csrMie := 0xFFFFFFFF#32 } := by
  let size := if ramSize = 0 then 1 <<< 20 else ramSize
  let zeroed := zeroBytes 0 (BitVec.ofNat 32 size).toNat block
  cases data with
  | none => exact ⟨zeroed, BitVec.ofNat 32 size, fun _ _ _ => rfl⟩
  | some data =>
    exact ⟨copyBytes 0 (data.take size) zeroed, BitVec.ofNat 32 size, fun _ _ _ => rfl⟩

theorem rebooted_twin {s t : State δ} (h : SameLeftovers s t) (hrun : s.htifHalted = false)
    (data : Option (List Byte)) (ramSize : ℕ) (block : ℕ → Byte) (startPc : Word) (d : δ) :
    (s.rebooted data ramSize block startPc d).Twin Bus.Veiled t.symbols
      (t.rebooted data ramSize block startPc d) := by
  obtain ⟨hhalted, hcode, hleft⟩ := h
  rw [hrun, if_neg Bool.false_ne_true] at hleft
  obtain ⟨hmstatus, hmtvec, hmepc, hmcause, hlo, hhi⟩ := hleft
  obtain ⟨memory, size, heq⟩ := rebooted_eq (δ := δ) data ramSize block
  rw [heq, heq, hmstatus, hmtvec, hmepc, hmcause, hlo, hhi, hhalted, hcode]
  exact .mk t.profiler (.mk t.htifTohostLo t.htifTohostHi t.htifExit t.trace)

/-! ## After an exit -/

/-- Two halted emulators that the harness cannot tell apart. -/
structure ExitTwin (s t : State δ) : Prop where
  view : SameView s t
  halted : s.htifHalted = true
  initialized : t.initialized = s.initialized
  irqMask : t.irqMask = s.irqMask
  csrMie : t.csrMie = s.csrMie
  mie : t.mie = s.mie
  handler : s.mie = true → ∀ c < 32, handlerAddress t.csrMtvec c = handlerAddress s.csrMtvec c

theorem ctz32_lt {x : Word} (hx : x ≠ 0) : ctz32 x < 32 := by
  have hbit : x.getLsbD (ctz32 x) = true := (ctz32_isLeast hx).1
  by_contra hge
  rw [BitVec.getLsbD_of_ge _ _ (not_lt.1 hge)] at hbit
  exact Bool.false_ne_true hbit

theorem ExitTwin.rvStep {s t : State δ} (h : ExitTwin s t) (n : ℤ) :
    (rvStep dev n t).1 = (rvStep dev n s).1 ∧ ExitTwin (rvStep dev n s).2 (rvStep dev n t).2 := by
  have hpending : t.pending = s.pending := by
    rw [State.pending, State.pending, h.irqMask, h.csrMie]
  have hdispatches : t.Dispatches n ↔ s.Dispatches n := by
    unfold State.Dispatches State.Interrupted
    rw [h.initialized, hpending, h.mie]
  by_cases hd : s.Dispatches n
  · rw [rvStep_dispatch dev hd, rvStep_dispatch dev (hdispatches.2 hd)]
    have hpc : t.wake.dispatch.pc = s.wake.dispatch.pc := by
      show handlerAddress t.csrMtvec (ctz32 t.pending) = handlerAddress s.csrMtvec (ctz32 s.pending)
      rw [hpending]
      exact h.handler hd.2.2.2 _ (ctz32_lt hd.2.2.1)
    refine ⟨rfl, ⟨{ h.view with pc := hpc }, h.halted, h.initialized, ?_, h.csrMie, ?_, ?_⟩⟩
    · show t.irqMask &&& ~~~(1#32 <<< ctz32 t.pending) = s.irqMask &&& ~~~(1#32 <<< ctz32 s.pending)
      rw [hpending, h.irqMask]
    · rw [dispatch_mie, dispatch_mie]
    · intro hmie
      rw [dispatch_mie] at hmie
      exact absurd hmie Bool.false_ne_true
  · rw [rvStep_halted dev h.halted hd,
      rvStep_halted dev (h.view.halted.trans h.halted) (mt hdispatches.1 hd)]
    exact ⟨rfl, h⟩

theorem ExitTwin.runCalls {s t : State δ} (h : ExitTwin s t) (calls : List Call) :
    runCounts dev calls t = runCounts dev calls s ∧
      ExitTwin (runCalls dev calls s) (runCalls dev calls t) := by
  induction calls generalizing s t with
  | nil => exact ⟨rfl, h⟩
  | cons k calls ih =>
    cases k with
    | setIrq mask => exact ih { h with view := { h.view with }, irqMask := rfl }
    | step n =>
      obtain ⟨hcount, hstep⟩ := h.rvStep dev n
      obtain ⟨hcounts, hcalls⟩ := ih hstep
      exact ⟨congrArg₂ List.cons hcount hcounts, hcalls⟩

theorem historyIndependent_of_sameLeftovers {s t : State δ} (h : SameLeftovers s t) :
    HistoryIndependent dev s t := by
  intro data ramSize block startPc d calls
  cases hrun : s.htifHalted with
  | false =>
    have htwin := rebooted_twin h hrun data ramSize block startPc d
    obtain ⟨hcounts, hcalls⟩ := htwin.runCalls (Bus.Veiled.indistinct dev) calls
    exact ⟨hcounts, hcalls.sameView⟩
  | true =>
    obtain ⟨hhalted, hcode, hleft⟩ := h
    rw [hrun, if_pos rfl] at hleft
    obtain ⟨memory, size, heq⟩ := rebooted_eq (δ := δ) data ramSize block
    have htwin : ExitTwin (s.rebooted data ramSize block startPc d)
        (t.rebooted data ramSize block startPc d) := by
      rw [heq, heq]
      exact ⟨⟨rfl, rfl, rfl, hhalted, hcode, rfl, fun _ _ => rfl⟩, hrun, rfl, rfl, rfl, hleft.1,
        hleft.2⟩
    obtain ⟨hcounts, hcalls⟩ := htwin.runCalls dev calls
    exact ⟨hcounts, hcalls.view⟩

/-! ## What a program can find out -/

section
variable {s : State δ} (d : δ)

/-- Started on a program in sixty-four bytes of RAM. -/
def State.probing (insns : List Word) (d : δ) (s : State δ) : State δ :=
  s.rebooted (some (programBytes insns)) 64 (fun _ => 0) 0 d

theorem probing_holds {insns : List Word} (hlen : insns.length ≤ 16) (hrun : s.htifHalted = false) :
    (s.probing insns d).Holds insns := by
  refine ⟨hrun, rfl, rfl, fun i hi => ?_⟩
  have hbytes : (programBytes insns).length = 4 * insns.length := by
    simp [programBytes, List.length_flatMap, Nat.mul_comm]
  have hzero : ∀ size base, (State.allocated (fun _ => 0) size base
      { s with device := d }).memory i = 0 := fun _ _ => ite_self _
  show copyBytes 0 ((programBytes insns).take 64) _ i = _
  rw [List.take_of_length_le (by omega), copyBytes]
  by_cases hcopy : 0 ≤ i ∧ i < 0 + (programBytes insns).length
  · rw [if_pos hcopy]
    rfl
  · rw [if_neg hcopy, List.getD_eq_default _ _ (by omega)]
    exact hzero _ _

theorem probing_runs (insns : List Word) {n : ℤ} (hn : 0 < n) : (s.probing insns d).Runs n :=
  ⟨rfl, hn, rfl, fun hint => (interrupted_raised hint).2 rfl⟩

/-- `csrr x1, csr` finds out a CSR. -/
theorem csr_probe (csr : BitVec 12) (hrun : s.htifHalted = false) :
    (rvStep dev 1 (s.probing [CsrInstr.encode ⟨.rs, false, 1, 0, csr⟩] d)).2.regs 1 =
      (s.probing [] d).csrFile csr := by
  let i : CsrInstr := ⟨.rs, false, 1, 0, csr⟩
  have hholds : (s.probing [i.encode] d).Holds [i.encode] := probing_holds d (by simp) hrun
  have hiter := hholds.step dev
    (i := 0) (by simp) (by decide) rfl (not_isCompressed_csr i)
  obtain ⟨p, hexec⟩ := executeInstruction_csr dev i
    ((s.probing [i.encode] d).log (.host true (4 * 0) 4))
  simp only [List.getElem_cons_zero, stepBase, hexec, if_true] at hiter
  rw [rvStep_run dev (probing_runs d _ one_pos)]
  have hloop := BreakLoop.loop_succ_true (n := 0)
    (congrArg Prod.fst (hiter (s.probing [i.encode] d).profiler.profilingEnabled))
  rw [hiter] at hloop
  exact congrArg (fun r : ℕ × State δ => r.2.regs 1) hloop

/-- `lui x1, 0x80001` and a load from an HTIF register finds it out. -/
theorem htif_probe {lw addr : Word} (haddr : isHtifAddress addr = true)
    (hc : ¬ IsCompressed lw) (hsys : opcode lw ≠ 0x73#32)
    (hdecode : ∀ (regs : Reg → Word) (pc : Word), regs 1 = 0x80001000#32 →
      (decodeInstruction lw regs pc).2 = .load .lw 2 addr) (hrun : s.htifHalted = false) :
    (rvStep dev 2 (s.probing [0x800010b7, lw] d)).2.regs 2 =
      ((s.probing [] d).readU32 dev addr).1 := by
  have hholds : (s.probing [0x800010b7, lw] d).Holds [0x800010b7, lw] :=
    probing_holds d (by simp) hrun
  let profiled := (s.probing [0x800010b7, lw] d).profiler.profilingEnabled
  have harm : ∀ (regs : Reg → Word) (pc : Word),
      (decodeInstruction 0x800010b7#32 regs pc).2 = .writeReg 1 0x80001000#32 := fun _ _ => rfl
  obtain ⟨p, hlui⟩ := hholds.step_arm dev (i := 0) (by simp) (by decide) rfl
    (by decide : ¬ IsCompressed 0x800010b7#32) (by decide : opcode 0x800010b7#32 ≠ 0x73#32)
    (harm _ _) (by decide) profiled
  have hnext :
      (iteration dev profiled (s.probing [0x800010b7, lw] d)).2.Holds [0x800010b7, lw] := by
    rw [hlui]
    exact { hholds with }
  have hpc : (iteration dev profiled (s.probing [0x800010b7, lw] d)).2.pc =
      BitVec.ofNat 32 (4 * 1) := by
    rw [hlui]
    rfl
  have hx1 : (iteration dev profiled (s.probing [0x800010b7, lw] d)).2.regs 1 = 0x80001000#32 := by
    rw [hlui]
    rfl
  have hread : ∀ b : Bus δ, (b.readU32 dev addr).1 =
      if addr = 0x80001008#32 then b.htifFromhostLo
      else if addr = 0x8000100c#32 then b.htifFromhostHi else 0 := by
    intro b
    rw [Bus.readU32, if_pos haddr]
  have hsame : ((iteration dev profiled (s.probing [0x800010b7, lw] d)).2.readU32 dev addr).1 =
      ((s.probing [] d).readU32 dev addr).1 := by
    rw [hread, hread, hlui]
    rfl
  rw [rvStep_run dev (probing_runs d _ two_pos)]
  show (BreakLoop.loop (iteration dev profiled) (1 + 1) _).2.toCore.regs 2 = _
  rw [BreakLoop.loop_succ_true (by rw [hlui]), ← hsame]
  generalize (iteration dev profiled (s.probing [0x800010b7, lw] d)).2 = u at hnext hpc hx1
  obtain ⟨q, hlw⟩ := hnext.step_arm dev (i := 1) (by simp) (by decide) hpc hc hsys
    (hdecode _ _ hx1) Arm.noConfusion profiled
  rw [BreakLoop.loop_succ_true (by rw [hlw])]
  have hload : (iteration dev profiled u).2.regs 2 =
      ((u.log (.host true (4 * 1) 4)).readU32 dev addr).1 := by
    rw [hlw]
    rfl
  rw [hread] at hload ⊢
  exact hload

/-- A halted emulator that is sent interrupt `c`. -/
theorem interrupt_probe (hhalt : s.htifHalted = true) {c : ℕ} (hc : c < 32) :
    (rvStep dev 1 (rvSetIrq (1#32 <<< c) (s.probing [] d))).1 = (if s.mie = true then 1 else 0) ∧
      (s.mie = true → (rvStep dev 1 (rvSetIrq (1#32 <<< c) (s.probing [] d))).2.pc =
        handlerAddress s.csrMtvec c) := by
  have hpending : ∀ c < 32, 1#32 <<< c &&& 0xFFFFFFFF#32 ≠ 0 ∧
      ctz32 (1#32 <<< c &&& 0xFFFFFFFF#32) = c := by decide
  obtain ⟨hne, hctz⟩ := hpending c hc
  by_cases hmie : s.mie = true
  · have hd : (rvSetIrq (1#32 <<< c) (s.probing [] d)).Dispatches 1 := ⟨rfl, one_pos, hne, hmie⟩
    rw [rvStep_dispatch dev hd, if_pos hmie]
    exact ⟨rfl, fun _ => congrArg (handlerAddress s.csrMtvec) hctz⟩
  · have hd : ¬ (rvSetIrq (1#32 <<< c) (s.probing [] d)).Dispatches 1 := fun hd => hmie hd.2.2.2
    have hhalted : (rvSetIrq (1#32 <<< c) (s.probing [] d)).htifHalted = true := hhalt
    rw [rvStep_halted dev hhalted hd, if_neg hmie]
    exact ⟨rfl, fun h => absurd h hmie⟩

end

theorem sameLeftovers_of_historyIndependent {s t : State δ} (h : HistoryIndependent dev s t) :
    SameLeftovers s t := by
  have hprobe : ∀ insns calls,
      runCounts dev calls (t.probing insns s.device) =
          runCounts dev calls (s.probing insns s.device) ∧
        SameView (runCalls dev calls (s.probing insns s.device))
          (runCalls dev calls (t.probing insns s.device)) :=
    fun insns => h (some (programBytes insns)) 64 (fun _ => 0) 0 s.device
  have hhalted : t.htifHalted = s.htifHalted := (hprobe [] []).2.halted
  refine ⟨hhalted, (hprobe [] []).2.exitCode, ?_⟩
  cases hrun : s.htifHalted with
  | true =>
    rw [if_pos rfl]
    have hirq : ∀ c < 32, (t.mie = s.mie) ∧
        (s.mie = true → handlerAddress t.csrMtvec c = handlerAddress s.csrMtvec c) := by
      intro c hc
      obtain ⟨hcounts, hview⟩ := hprobe [] [.setIrq (1#32 <<< c), .step 1]
      obtain ⟨hcount, hpc⟩ := interrupt_probe dev s.device hrun hc
      obtain ⟨hcount', hpc'⟩ := interrupt_probe dev s.device (hhalted.trans hrun) hc
      have hcounts' : (if t.mie = true then 1 else 0) = if s.mie = true then 1 else 0 := by
        rw [← hcount, ← hcount']
        exact (List.cons.inj hcounts).1
      have hmie : t.mie = s.mie := by
        cases hs : s.mie <;> cases ht : t.mie <;> simp_all
      refine ⟨hmie, fun hs => ?_⟩
      rw [← hpc hs, ← hpc' (hmie.trans hs)]
      exact hview.pc
    exact ⟨(hirq 0 (by decide)).1, fun hs c hc => (hirq c hc).2 hs⟩
  | false =>
    rw [if_neg Bool.false_ne_true]
    have hcsr : ∀ csr,
        (t.probing [] s.device).csrFile csr = (s.probing [] s.device).csrFile csr := by
      intro csr
      rw [← csr_probe dev s.device csr hrun, ← csr_probe dev s.device csr (hhalted.trans hrun)]
      exact congrFun (hprobe _ [.step 1]).2.regs 1
    have hhtif : ∀ lw addr, isHtifAddress addr = true → ¬ IsCompressed lw → opcode lw ≠ 0x73#32 →
        (∀ (regs : Reg → Word) (pc : Word), regs 1 = 0x80001000#32 →
          (decodeInstruction lw regs pc).2 = .load .lw 2 addr) →
        ((t.probing [] s.device).readU32 dev addr).1 =
          ((s.probing [] s.device).readU32 dev addr).1 := by
      intro lw addr haddr hc hsys hdecode
      rw [← htif_probe dev s.device haddr hc hsys hdecode hrun,
        ← htif_probe dev s.device haddr hc hsys hdecode (hhalted.trans hrun)]
      exact congrFun (hprobe _ [.step 2]).2.regs 2
    have hlo := hhtif 0x0080a103#32 0x80001008#32 (by decide) (by decide) (by decide)
        fun regs pc hx => by
      show Arm.load .lw 2 (regs 1 + 8#32) = _
      rw [hx]
      rfl
    have hhi := hhtif 0x00c0a103#32 0x8000100c#32 (by decide) (by decide) (by decide)
        fun regs pc hx => by
      show Arm.load .lw 2 (regs 1 + 12#32) = _
      rw [hx]
      rfl
    exact ⟨hcsr 0x300, hcsr 0x305, hcsr 0x341, hcsr 0x342, hlo, hhi⟩

/-- Two histories cannot be told apart exactly when they left the trap registers and the HTIF
registers alike. -/
theorem historyIndependent_iff (s t : State δ) :
    HistoryIndependent dev s t ↔ SameLeftovers s t :=
  ⟨sameLeftovers_of_historyIndependent dev, historyIndependent_of_sameLeftovers dev⟩

/-- After a program that exits, no instruction of the next one runs. -/
theorem not_historyIndependent :
    ¬ HistoryIndependent herveStubs (State.start ()) State.exited := by
  intro h
  have hcounts := (h (some (programBytes [0x13])) 64 (fun _ => 0) 0 () [.step 1]).1
  exact absurd hcounts (by decide)

end Herve
