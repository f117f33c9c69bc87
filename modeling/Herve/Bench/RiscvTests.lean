import Herve.Bench.Exit
import Herve.Refine.Machine
import Herve.Run.Halt
import Herve.Run.Resume

/-! `run_test` of `rv32_dpi_riscv_tests.cpp` and `rv32_dpi_benchmark.cpp`, which differ in their
limits and in a text, and the suite that the first one runs. A test is stepped in batches; the
batches come to one call, and the verdict to what the program does on a RISC-V machine. -/

namespace Herve
open RiscV (Byte Word Hart Insn)

/-! ## The runner -/

structure TestRunner where
  maxInstructions : ℕ
  maxStaleChecks : ℕ
  passReason : String

def riscvTests : TestRunner := ⟨50000, 100, "PASS (gp=1)"⟩

def benchmark : TestRunner := ⟨200000, 200, "PASS"⟩

/-- Without the name, and without what is measured of the wall clock. -/
structure TestResult where
  passed : Bool
  instructionsExecuted : ℕ
  reason : String
  deriving DecidableEq

/-- The variables of the loop in `run_test`. -/
structure TestLoop (δ : Type) where
  state : State δ
  totalExecuted : ℕ
  prevPc : Word
  staleCount : ℕ

section
variable {δ : Type} (dev : Device δ) (R : TestRunner)

/-- The `while` test and the body of the loop; the result says whether the loop goes on. -/
def testBody (r : TestLoop δ) : Bool × TestLoop δ :=
  if r.totalExecuted < R.maxInstructions then
    let (executed, s) := rvStep dev 1000 r.state
    if executed = 0 then (false, { r with state := s })
    else
      let r := { r with state := s, totalExecuted := r.totalExecuted + executed }
      if s.pc = r.prevPc then
        let r := { r with staleCount := r.staleCount + 1 }
        if r.staleCount ≥ R.maxStaleChecks then (false, r) else (true, { r with prevPc := s.pc })
      else (true, { r with staleCount := 0, prevPc := s.pc })
  else (false, r)

/-- An iteration that goes on has executed an instruction, so the loop ends within the limit. -/
def testLoop (s : State δ) : TestLoop δ :=
  (BreakLoop.loop (testBody dev R) (R.maxInstructions + 1) ⟨s, 0, 0, 0⟩).2

/-- The result for a test that stopped with this many instructions and this `gp`. -/
def stoppedResult (instructions : ℕ) (gp : Word) : ℤ × TestResult :=
  if gp = 1 then (0, ⟨true, instructions, R.passReason⟩)
  else (0, ⟨false, instructions, s!"FAIL (gp={gp.toNat})"⟩)

def testVerdict (r : TestLoop δ) : ℤ × TestResult :=
  if r.totalExecuted ≥ R.maxInstructions ∨ r.staleCount ≥ R.maxStaleChecks then
    (-1, ⟨false, r.totalExecuted,
      if r.staleCount ≥ R.maxStaleChecks then "stale PC (infinite loop)"
      else "instruction limit"⟩)
  else stoppedResult R r.totalExecuted (r.state.regs 3)

end

/-- `run_test` up to the loop: the entry, and the emulator reset to it. -/
def testStart (host : ℤ → Byte) (elfData : List Byte) (s : State (Fin 64 → Word)) :
    Word × State (Fin 64 → Word) :=
  let s : State (Fin 64 → Word) := { s with device := fun _ => 0 }
  let (entry, s) := (rvLoadElf host (some elfData) s).value
  (entry, if entry = 0 then s else rvReset entry s)

def runTest (R : TestRunner) (host : ℤ → Byte) (elfData : List Byte)
    (s : State (Fin 64 → Word)) : (ℤ × TestResult) × State (Fin 64 → Word) :=
  let (entry, s) := testStart host elfData s
  if entry = 0 then ((-1, ⟨false, 0, "ELF load failed"⟩), s)
  else
    let r := testLoop mmioRegion R s
    (testVerdict R r, r.state)

/-! ## One call -/

/-- What one call for the whole limit would give. -/
def singleVerdict {δ : Type} (dev : Device δ) (R : TestRunner) (s : State δ) : ℤ × TestResult :=
  let (executed, t) := rvStep dev R.maxInstructions s
  if executed = R.maxInstructions then (-1, ⟨false, R.maxInstructions, "instruction limit"⟩)
  else stoppedResult R executed (t.regs 3)

theorem mmioRegion_passive : mmioRegion.Passive :=
  ⟨⟨fun _ _ => rfl, fun _ _ _ => rfl⟩, fun _ _ => rfl⟩

section
variable {δ : Type} {dev : Device δ} {R : TestRunner} {r : TestLoop δ}

theorem testBody_done (h : ¬ r.totalExecuted < R.maxInstructions) : testBody dev R r = (false, r) :=
  if_neg h

variable {executed : ℕ} {t : State δ}

theorem testBody_idle (h : r.totalExecuted < R.maxInstructions)
    (hrun : rvStep dev 1000 r.state = (executed, t)) (hidle : executed = 0) :
    testBody dev R r = (false, { r with state := t }) := by
  rw [testBody, if_pos h, hrun]
  exact if_pos hidle

/-- With `j` batches to go the stale count will not get to its limit. -/
def TestLoop.Fresh (dev : Device δ) (R : TestRunner) (j : ℕ) (r : TestLoop δ) : Prop :=
  r.staleCount + j < R.maxStaleChecks ∨
    r.staleCount < R.maxStaleChecks ∧ j ≤ R.maxStaleChecks ∧
      (rvStep dev 1000 r.state).2.pc ≠ r.prevPc

/-- A batch that executes something. -/
theorem testBody_goes {j : ℕ} (h : r.totalExecuted < R.maxInstructions)
    (hrun : rvStep dev 1000 r.state = (executed, t)) (hgoes : executed ≠ 0)
    (hfresh : r.Fresh dev R (j + 1)) :
    ∃ pc stale, stale + j < R.maxStaleChecks ∧
      testBody dev R r = (true, ⟨t, r.totalExecuted + executed, pc, stale⟩) := by
  rw [TestLoop.Fresh, hrun] at hfresh
  rw [testBody, if_pos h, hrun]
  dsimp only at hfresh ⊢
  rw [if_neg hgoes]
  by_cases hpc : t.pc = r.prevPc
  · have hstale := hfresh.resolve_right fun hmoved => hmoved.2.2 hpc
    rw [if_pos hpc, if_neg (by omega)]
    exact ⟨_, r.staleCount + 1, by omega, rfl⟩
  · rw [if_neg hpc]
    exact ⟨_, 0, by omega, rfl⟩

/-- The loop ends in `e`, within the passes it has, as after one call of `n` instructions. -/
structure EndsLike (dev : Device δ) (R : TestRunner) (n j : ℕ) (r e : TestLoop δ) : Prop where
  ends : BreakLoop.Ends (testBody dev R) r e
  loop : ∀ k, (BreakLoop.loop (testBody dev R) (j + 1 + k) r).2 = e
  total : e.totalExecuted = r.totalExecuted + (rvStep dev n r.state).1
  stale : e.staleCount < R.maxStaleChecks
  regs : e.totalExecuted < R.maxInstructions → e.state.regs = (rvStep dev n r.state).2.regs

/-- The loop stops at once. -/
theorem endsLike_stop {e : TestLoop δ} {n j : ℕ} (hbody : testBody dev R r = (false, e))
    (htotal : e.totalExecuted = r.totalExecuted + (rvStep dev n r.state).1)
    (hstale : e.staleCount < R.maxStaleChecks)
    (hregs : e.totalExecuted < R.maxInstructions → e.state.regs = (rvStep dev n r.state).2.regs) :
    EndsLike dev R n j r e where
  ends := by
    have hstop : BreakLoop.Ends (testBody dev R) r _ := .stop (congrArg Prod.fst hbody)
    rwa [hbody] at hstop
  loop k := by
    rw [Nat.add_right_comm, BreakLoop.loop_succ_false (congrArg Prod.fst hbody), hbody]
  total := htotal
  stale := hstale
  regs := hregs

theorem endsLike_next {e r' : TestLoop δ} {n n' j : ℕ} (hbody : testBody dev R r = (true, r'))
    (h : EndsLike dev R n' j r' e)
    (htotal : r'.totalExecuted + (rvStep dev n' r'.state).1 =
      r.totalExecuted + (rvStep dev n r.state).1)
    (hregs : e.totalExecuted < R.maxInstructions →
      (rvStep dev n' r'.state).2.regs = (rvStep dev n r.state).2.regs) :
    EndsLike dev R n (j + 1) r e where
  ends := by
    refine .next (congrArg Prod.fst hbody) ?_
    rw [hbody]
    exact h.ends
  loop k := by
    rw [Nat.add_right_comm, BreakLoop.loop_succ_true (congrArg Prod.fst hbody), hbody]
    exact h.loop k
  total := h.total.trans htotal
  stale := h.stale
  regs hlt := (h.regs hlt).trans (hregs hlt)

/-- The pass after a batch that could not go on. -/
theorem endsLike_rests {j : ℕ} (hrests : r.state.RestsUnder dev 1000)
    (hstale : r.staleCount < R.maxStaleChecks)
    (hstop : (rvStep dev (1000 * j : ℕ) r.state).1 = 0)
    (hregs : (rvStep dev (1000 * j : ℕ) r.state).2.regs = r.state.regs) :
    ∃ e, EndsLike dev R (1000 * j) j r e := by
  by_cases hlt : r.totalExecuted < R.maxInstructions
  · obtain ⟨trace, hrun⟩ := hrests
    refine ⟨_, endsLike_stop (testBody_idle hlt hrun rfl) ?_ hstale fun _ => ?_⟩
    · rw [hstop]
      rfl
    · exact hregs.symm
  · refine ⟨r, endsLike_stop (testBody_done hlt) ?_ hstale fun h => absurd h hlt⟩
    rw [hstop]
    rfl

/-- As long as it has batches left to its limit, and so too few to go stale, the loop executes what
one call for them does. -/
theorem testLoop_batches (hd : dev.Passive) (j : ℕ) (hirq : r.state.irqMask = 0)
    (htotal : r.totalExecuted + 1000 * j = R.maxInstructions)
    (hfresh : r.Fresh dev R j) : ∃ e, EndsLike dev R (1000 * j) j r e := by
  have hstale : r.staleCount < R.maxStaleChecks := hfresh.elim (by omega) And.left
  induction j generalizing r with
  | zero =>
    have hidle : rvStep dev (0 : ℕ) r.state = (0, r.state) := rvStep_nonpos dev le_rfl _
    refine ⟨r, endsLike_stop (testBody_done (by omega)) ?_ hstale fun hlt => by omega⟩
    rw [Nat.mul_zero, hidle]
    rfl
  | succ j ih =>
    have hlt : r.totalExecuted < R.maxInstructions := by omega
    have hsum : 1000 * (j + 1) = 1000 + 1000 * j := by rw [Nat.mul_succ, Nat.add_comm]
    rw [hsum]
    have hirq' := rvStep_irqMask hd hirq (1000 : ℕ)
    have hresumes := rvStep_resumes hd hirq 1000
    obtain ⟨⟨executed, t⟩, hrun⟩ : ∃ p, rvStep dev (1000 : ℕ) r.state = p := ⟨_, rfl⟩
    rw [hrun] at hirq'
    simp only [hrun] at hresumes
    have hbatch := hrun
    rw [Nat.cast_ofNat] at hbatch
    rcases hresumes with ⟨rfl, hadd⟩ | hrests
    · obtain ⟨pc, stale, hstale', hbody⟩ := testBody_goes hlt hbatch (by decide) hfresh
      obtain ⟨e, he⟩ := @ih ⟨t, r.totalExecuted + 1000, pc, stale⟩ hirq' (by dsimp only; omega)
        (.inl hstale') (by dsimp only; omega)
      refine ⟨e, endsLike_next hbody he ?_ fun _ => ?_⟩
      · rw [hadd]
        exact Nat.add_assoc _ _ _
      · rw [hadd]
    · have hadd := (hrests (1000 * j)).1
      by_cases hidle : executed = 0
      · refine ⟨_, endsLike_stop (testBody_idle hlt hbatch hidle) ?_ hstale fun _ => ?_⟩
        · rw [hadd, hidle]
          rfl
        · rw [hadd]
      obtain ⟨pc, stale, hstale', hbody⟩ := testBody_goes hlt hbatch hidle hfresh
      obtain ⟨trace, hrest⟩ := (hrests (1000 * j)).2
      obtain ⟨e, he⟩ := endsLike_rests (R := R) (j := j)
        (r := ⟨t, r.totalExecuted + executed, pc, stale⟩) (hrests 1000).2 (by dsimp only; omega)
        (congrArg Prod.fst hrest) (congrArg (fun p : ℕ × State δ => p.2.regs) hrest)
      refine ⟨e, endsLike_next hbody he ?_ fun _ => ?_⟩
      · rw [hadd, hrest]
        rfl
      · rw [hadd, hrest]

end

/-- The batches of a runner make up its limit, and they are at most as many as its stale
checks. -/
structure TestRunner.Batched (R : TestRunner) : Prop where
  dvd : 1000 ∣ R.maxInstructions
  pos : 0 < R.maxInstructions
  stale : R.maxInstructions / 1000 ≤ R.maxStaleChecks

theorem riscvTests_batched : riscvTests.Batched := ⟨by decide, by decide, by decide⟩

theorem benchmark_batched : benchmark.Batched := ⟨by decide, by decide, by decide⟩

/-- `benchmark` has as many stale checks as batches, and at the first one the pc is compared
with zero. -/
def TestRunner.Starts {δ : Type} (dev : Device δ) (R : TestRunner) (s : State δ) : Prop :=
  R.maxInstructions / 1000 < R.maxStaleChecks ∨ (rvStep dev 1000 s).2.pc ≠ 0

theorem testLoop_single {δ : Type} {dev : Device δ} {R : TestRunner} (hd : dev.Passive)
    (hR : R.Batched) {s : State δ} (hirq : s.irqMask = 0) (hstarts : R.Starts dev s) :
    BreakLoop.Ends (testBody dev R) ⟨s, 0, 0, 0⟩ (testLoop dev R s) ∧
      testVerdict R (testLoop dev R s) = singleVerdict dev R s := by
  obtain ⟨j, hj⟩ := hR.dvd
  have hpos := hR.pos
  have hle := hR.stale
  have hjdiv : R.maxInstructions / 1000 = j := by omega
  have hfresh : TestLoop.Fresh dev R j ⟨s, 0, 0, 0⟩ := by
    rcases hstarts with hlt | hpc
    · exact .inl (by dsimp only; omega)
    · exact .inr ⟨by dsimp only; omega, by omega, hpc⟩
  obtain ⟨e, hends, hloop, htotal, hstale, hregs⟩ :=
    testLoop_batches (r := ⟨s, 0, 0, 0⟩) hd j hirq (by dsimp only; omega) hfresh
  have he : testLoop dev R s = e := by
    rw [testLoop, ← hloop (R.maxInstructions - j)]
    congr 2
    omega
  refine ⟨he ▸ hends, ?_⟩
  rw [he, testVerdict, singleVerdict]
  rw [← hj] at htotal hregs
  have hcount : (rvStep dev R.maxInstructions s).1 ≤ R.maxInstructions := rvStep_count_le hirq _
  rw [Nat.zero_add] at htotal
  dsimp only at htotal hregs ⊢
  rw [if_neg (not_le.2 hstale)]
  by_cases hlimit : e.totalExecuted ≥ R.maxInstructions
  · rw [if_pos (.inl hlimit), if_pos (by omega)]
    rw [le_antisymm (htotal ▸ hcount) hlimit]
  · rw [if_neg (not_or.2 ⟨hlimit, not_le.2 hstale⟩), if_neg (by omega), hregs (not_le.1 hlimit),
      htotal]

/-! ## A test -/

section
variable {R : TestRunner} {host : ℤ → Byte} {elfData : List Byte} {s : State (Fin 64 → Word)}

theorem runTest_loaded (hentry : (testStart host elfData s).1 ≠ 0) :
    runTest R host elfData s =
      (testVerdict R (testLoop mmioRegion R (testStart host elfData s).2),
        (testLoop mmioRegion R (testStart host elfData s).2).state) :=
  if_neg hentry

theorem rvLoadElf_system {δ : Type} (host : ℤ → Byte) (elfData : List Byte) (s : State δ) :
    ∃ memory, (rvLoadElf host (some elfData) s).value.2 = { s with memory := memory } := by
  unfold rvLoadElf
  dsimp only
  split
  · exact ⟨s.memory, rfl⟩
  split
  · exact ⟨s.memory, rfl⟩
  split
  · exact ⟨s.memory, rfl⟩
  · exact ⟨_, rfl⟩

/-- What `rv_load_elf` and `rv_reset` leave of an initialised emulator. -/
theorem testStart_eq (hinit : s.initialized = true) (hentry : (testStart host elfData s).1 ≠ 0) :
    ∃ memory, (testStart host elfData s).2 = ({ s with
      device := fun _ => 0, memory := memory, regs := fun _ => 0
      pc := (testStart host elfData s).1, irqMask := 0, wfiSleep := false, csrMcycle := 0
      csrMie := 0xFFFFFFFF#32 } : State (Fin 64 → Word)) := by
  let cleared : State (Fin 64 → Word) := { s with device := fun _ => 0 }
  obtain ⟨memory, hload⟩ := rvLoadElf_system host elfData cleared
  refine ⟨memory, ?_⟩
  have hstart : (testStart host elfData s).2 =
      rvReset (testStart host elfData s).1 (rvLoadElf host (some elfData) cleared).value.2 :=
    if_neg hentry
  rw [hstart, hload]
  exact if_pos hinit

/-- A test that loads gets the verdict of one call of `rv_step` for the whole limit, whatever
batches it is stepped in, and is never taken for a loop that stands still. -/
theorem runTest_single (hR : R.Batched) (hinit : s.initialized = true)
    (hentry : (testStart host elfData s).1 ≠ 0)
    (hstarts : R.Starts mmioRegion (testStart host elfData s).2) :
    BreakLoop.Ends (testBody mmioRegion R) ⟨(testStart host elfData s).2, 0, 0, 0⟩
        (testLoop mmioRegion R (testStart host elfData s).2) ∧
      (runTest R host elfData s).1 = singleVerdict mmioRegion R (testStart host elfData s).2 := by
  obtain ⟨memory, hstart⟩ := testStart_eq hinit hentry
  have hirq : (testStart host elfData s).2.irqMask = 0 := by rw [hstart]
  rw [runTest_loaded hentry]
  exact testLoop_single mmioRegion_passive hR hirq hstarts

end

/-- The emulator as `main` hands it to the first test. -/
def testRunnerStart : State (Fin 64 → Word) :=
  rvInit none globalRamSize (some fun _ => 0) (State.start fun _ => 0)

/-- `addi gp, x0, 1; ecall` -/
def passingTest : List Byte :=
  elfFile 0x80000000 [⟨ptLoad, 84, 0x80000000, 8, 8⟩] (programBytes [0x00100193, 0x00000073])

set_option maxRecDepth 20000 in
theorem runTest_single_passing :
    (runTest riscvTests (fun _ => 0) passingTest testRunnerStart).1 =
      singleVerdict mmioRegion riscvTests
        (testStart (fun _ => 0) passingTest testRunnerStart).2 :=
  (runTest_single riscvTests_batched rfl (by decide) (.inl (by decide))).2

section
variable {R : TestRunner} {host : ℤ → Byte} {elfData : List Byte} {s : State (Fin 64 → Word)}
  {n : ℕ} {h : Hart}

/-- The verdict is that of a RISC-V machine on the loaded test: `gp` where the program stops, if
it stops within the limit. -/
theorem runTest_carries (hR : R.Batched) (hinit : s.initialized = true)
    (hrunning : s.htifHalted = false) (hentry : (testStart host elfData s).1 ≠ 0)
    (hstarts : R.Starts mmioRegion (testStart host elfData s).2)
    (hrun : Paths.Path (CarriedStep (testStart host elfData s).2.toCore) n
      (testStart host elfData s).2.hart h) :
    (n < R.maxInstructions → StopsAt (testStart host elfData s).2.toCore h →
        (runTest R host elfData s).1 = stoppedResult R n (h.x 3)) ∧
      (n = R.maxInstructions →
        (runTest R host elfData s).1 = (-1, ⟨false, n, "instruction limit"⟩)) := by
  obtain ⟨memory, hstart⟩ := testStart_eq hinit hentry
  rw [(runTest_single hR hinit hentry hstarts).2]
  obtain ⟨t, ht⟩ : ∃ t, (testStart host elfData s).2 = t := ⟨_, rfl⟩
  rw [ht] at hstart hrun ⊢
  have hawake : t.initialized = true ∧ t.wfiSleep = false ∧ ¬ t.Interrupted ∧
      t.htifHalted = false ∧ t.regs 0 = 0 := by
    rw [hstart]
    exact ⟨hinit, rfl, not_interrupted rfl, hrunning, rfl⟩
  obtain ⟨hinit, hsleep, hint, hrunning, h0⟩ := hawake
  have hcarries := rvStep_carries mmioRegion hinit hsleep hint hrunning h0 hrun
  constructor
  · intro hlt hstop
    obtain ⟨hcount, himp, -⟩ := hcarries (R.maxInstructions - n) (.inr hstop)
    have hgp := congrArg (Hart.x · 3) himp.hart
    rw [Nat.add_sub_of_le hlt.le] at hcount hgp
    rw [singleVerdict]
    dsimp only
    rw [hcount, if_neg hlt.ne]
    exact congrArg _ hgp
  · rintro rfl
    rw [singleVerdict]
    exact if_pos (hcarries 0 (.inl rfl)).1

end

set_option maxRecDepth 20000 in
theorem passingTest_path :
    Paths.Path (CarriedStep (testStart (fun _ => 0) passingTest testRunnerStart).2.toCore) 1
      (testStart (fun _ => 0) passingTest testRunnerStart).2.hart
      ((Insn.base (.opImm .addi 3 0 1)).exec
        (testStart (fun _ => 0) passingTest testRunnerStart).2.hart) :=
  .head ⟨.base (.opImm .addi 3 0 1), ⟨trivial, by decide⟩,
    ⟨by constructor <;> decide, nofun, trivial⟩, rfl⟩ .refl

set_option maxRecDepth 20000 in
theorem runTest_carries_passing :
    (runTest riscvTests (fun _ => 0) passingTest testRunnerStart).1 =
      (0, ⟨true, 1, "PASS (gp=1)"⟩) := by
  have hcarries := runTest_carries riscvTests_batched rfl rfl (by decide) (.inl (by decide))
    passingTest_path
  exact (hcarries.1 (by decide) ⟨by constructor <;> decide, by decide⟩).trans (by decide)

/-! ## The suite -/

structure SuiteCounts where
  passed : ℕ
  failed : ℕ
  skipped : ℕ
  deriving DecidableEq

/-- How `main` counts a test. -/
def SuiteCounts.record (c : SuiteCounts) (ret : ℤ) (result : TestResult) : SuiteCounts :=
  if ret = 0 ∧ result.passed = true then { c with passed := c.passed + 1 }
  else if ret = 0 ∧ result.passed = false then { c with failed := c.failed + 1 }
  else { c with skipped := c.skipped + 1 }

/-- One pass of the loop over the tests in `main`; `elfData` is `none` where the file cannot be
loaded. -/
def suiteBody (host : ℤ → Byte) (p : SuiteCounts × State (Fin 64 → Word))
    (elfData : Option (List Byte)) : SuiteCounts × State (Fin 64 → Word) :=
  match elfData with
  | none => ({ p.1 with skipped := p.1.skipped + 1 }, p.2)
  | some elfData =>
    let ((ret, result), s) := runTest riscvTests host elfData p.2
    (p.1.record ret result, s)

def runSuite (host : ℤ → Byte) (tests : List (Option (List Byte)))
    (p : SuiteCounts × State (Fin 64 → Word)) : SuiteCounts × State (Fin 64 → Word) :=
  tests.foldl (suiteBody host) p

/-- The exit status of `main`. -/
def SuiteCounts.status (c : SuiteCounts) : ℕ := if c.failed > 0 then 1 else 0

theorem rvLoadElf_entry {δ δ' : Type} (host : ℤ → Byte) (elfData : List Byte) (s : State δ)
    (s' : State δ') :
    (rvLoadElf host (some elfData) s).value.1 = (rvLoadElf host (some elfData) s').value.1 := by
  unfold rvLoadElf
  dsimp only
  split_ifs <;> rfl

/-- The file can be read, and `rv_load_elf` accepts it. -/
def loads (host : ℤ → Byte) : Option (List Byte) → Bool
  | none => false
  | some elfData => (rvLoadElf host (some elfData) (State.start ())).value.1 != 0

/-- An emulator in use that a guest has exited through HTIF. -/
structure State.Exited {δ : Type} (s : State δ) : Prop where
  initialized : s.initialized = true
  halted : s.htifHalted = true

section
variable {host : ℤ → Byte} {s : State (Fin 64 → Word)}

theorem testStart_entry (elfData : List Byte) :
    (testStart host elfData s).1 ≠ 0 ↔ loads host (some elfData) = true := by
  rw [loads, bne_iff_ne]
  exact iff_of_eq (congrArg (· ≠ 0) (rvLoadElf_entry host elfData _ _))

theorem State.Exited.start (h : s.Exited) (elfData : List Byte) :
    (testStart host elfData s).2.Exited := by
  by_cases hentry : (testStart host elfData s).1 = 0
  · let cleared : State (Fin 64 → Word) := { s with device := fun _ => 0 }
    obtain ⟨memory, hload⟩ := rvLoadElf_system host elfData cleared
    have hstart : (testStart host elfData s).2 =
        (rvLoadElf host (some elfData) cleared).value.2 := if_pos hentry
    rw [hstart, hload]
    exact ⟨h.initialized, h.halted⟩
  · obtain ⟨memory, hstart⟩ := testStart_eq h.initialized hentry
    rw [hstart]
    exact ⟨h.initialized, h.halted⟩

/-- A test that loads after an exit executes nothing, and its `gp` is what the reset left. -/
theorem runTest_exited (R : TestRunner) (hR : 0 < R.maxInstructions) (hR' : 0 < R.maxStaleChecks)
    (h : s.Exited) {elfData : List Byte} (hentry : (testStart host elfData s).1 ≠ 0) :
    runTest R host elfData s = ((0, ⟨false, 0, "FAIL (gp=0)"⟩), (testStart host elfData s).2) := by
  have hexited : (testStart host elfData s).2.Exited := h.start elfData
  obtain ⟨memory, hstart⟩ := testStart_eq h.initialized hentry
  have hirq : (testStart host elfData s).2.irqMask = 0 := by rw [hstart]
  have hgp : (testStart host elfData s).2.regs 3 = 0 := by rw [hstart]
  have hstay := rvStep_halted mmioRegion hexited.halted (n := 1000) fun hd =>
    not_interrupted hirq hd.2.2
  have hbody := testBody_idle (R := R) (r := ⟨(testStart host elfData s).2, 0, 0, 0⟩) hR hstay rfl
  have hloop : testLoop mmioRegion R (testStart host elfData s).2 =
      ⟨(testStart host elfData s).2, 0, 0, 0⟩ := by
    rw [testLoop, BreakLoop.loop_succ_false (congrArg Prod.fst hbody), hbody]
  rw [runTest_loaded hentry, hloop, testVerdict]
  dsimp only
  rw [if_neg (not_or.2 ⟨not_le.2 hR, not_le.2 hR'⟩), hgp]
  rfl

theorem suiteBody_exited (h : s.Exited) (c : SuiteCounts) (elfData : Option (List Byte)) :
    (suiteBody host (c, s) elfData).1 =
        (if loads host elfData then { c with failed := c.failed + 1 }
          else { c with skipped := c.skipped + 1 }) ∧
      (suiteBody host (c, s) elfData).2.Exited := by
  cases elfData with
  | none => exact ⟨rfl, h⟩
  | some elfData =>
    have hexited : (testStart host elfData s).2.Exited := h.start elfData
    by_cases hentry : (testStart host elfData s).1 = 0
    · have hunloaded : ¬ loads host (some elfData) = true := fun hl =>
        (testStart_entry elfData).2 hl hentry
      have hrun : runTest riscvTests host elfData s =
          ((-1, ⟨false, 0, "ELF load failed"⟩), (testStart host elfData s).2) := if_pos hentry
      rw [suiteBody, hrun, if_neg hunloaded]
      exact ⟨rfl, hexited⟩
    · rw [suiteBody, runTest_exited riscvTests (by decide) (by decide) h hentry,
        if_pos ((testStart_entry elfData).1 hentry)]
      exact ⟨rfl, hexited⟩

theorem runSuite_of_exited (h : s.Exited) (c : SuiteCounts) (tests : List (Option (List Byte))) :
    (runSuite host tests (c, s)).1 =
      ⟨c.passed, c.failed + tests.countP (loads host),
        c.skipped + tests.countP fun t => !loads host t⟩ := by
  induction tests generalizing c s with
  | nil => rfl
  | cons t tests ih =>
    obtain ⟨hcounts, hexited⟩ : (suiteBody host (c, s) t).1 = _ ∧ _ := suiteBody_exited h c t
    have hrest := ih hexited (suiteBody host (c, s) t).1
    rw [runSuite, List.foldl_cons]
    refine hrest.trans ?_
    rw [hcounts, List.countP_cons, List.countP_cons]
    cases loads host t with
    | true => simp only [if_true, Bool.not_true, Bool.false_eq_true, if_false]; congr 1; omega
    | false => simp only [if_true, Bool.not_false, Bool.false_eq_true, if_false]; congr 1; omega

/-! What every test keeps of the emulator. -/

theorem testStart_initialized (hinit : s.initialized = true) (elfData : List Byte) :
    (testStart host elfData s).2.initialized = true := by
  by_cases hentry : (testStart host elfData s).1 = 0
  · let cleared : State (Fin 64 → Word) := { s with device := fun _ => 0 }
    obtain ⟨memory, hload⟩ := rvLoadElf_system host elfData cleared
    have hstart : (testStart host elfData s).2 =
        (rvLoadElf host (some elfData) cleared).value.2 := if_pos hentry
    rw [hstart, hload]
    exact hinit
  · obtain ⟨memory, hstart⟩ := testStart_eq hinit hentry
    rw [hstart]
    exact hinit

theorem rvStep_initialized {δ : Type} (dev : Device δ) {s : State δ} (hinit : s.initialized = true)
    (n : ℤ) : (rvStep dev n s).2.initialized = true :=
  rvStep_invariant dev (I := fun t : State δ => t.initialized = true) hinit
    (fun _ => hinit) fun t ht => (congrArg Prod.fst (iteration_mode dev _ t)).trans ht

theorem testLoop_initialized {δ : Type} (dev : Device δ) (R : TestRunner) {s : State δ}
    (hinit : s.initialized = true) : (testLoop dev R s).state.initialized = true := by
  refine BreakLoop.loop_invariant (I := fun r : TestLoop δ => r.state.initialized = true)
    (fun r hr => ?_) hinit _
  have hstep := rvStep_initialized dev hr 1000
  unfold testBody
  dsimp only
  split_ifs <;> assumption

theorem runTest_initialized (R : TestRunner) (hinit : s.initialized = true) (elfData : List Byte) :
    (runTest R host elfData s).2.initialized = true := by
  have hstart : (testStart host elfData s).2.initialized = true :=
    testStart_initialized hinit elfData
  unfold runTest
  dsimp only
  split_ifs
  · exact hstart
  · exact testLoop_initialized mmioRegion R hstart

theorem runSuite_initialized (hinit : s.initialized = true) (c : SuiteCounts)
    (tests : List (Option (List Byte))) : (runSuite host tests (c, s)).2.initialized = true := by
  induction tests generalizing c s with
  | nil => exact hinit
  | cons t tests ih =>
    have hbody : (suiteBody host (c, s) t).2.initialized = true := by
      cases t with
      | none => exact hinit
      | some elfData => exact runTest_initialized riscvTests hinit elfData
    exact ih hbody (suiteBody host (c, s) t).1

/-- Neither `rv_load_elf` nor `rv_reset` takes an HTIF exit back: once a test has exited, no later
one passes, and each that loads is reported as failed, whatever it would do. -/
theorem runSuite_exit (hinit : s.initialized = true) (c : SuiteCounts)
    {before : List (Option (List Byte))}
    (hexit : (runSuite host before (c, s)).2.htifHalted = true)
    (after : List (Option (List Byte))) :
    (runSuite host (before ++ after) (c, s)).1 =
        { passed := (runSuite host before (c, s)).1.passed
          failed := (runSuite host before (c, s)).1.failed + after.countP (loads host)
          skipped := (runSuite host before (c, s)).1.skipped +
            after.countP fun t => !loads host t } ∧
      ((∃ t ∈ after, loads host t = true) →
        (runSuite host (before ++ after) (c, s)).1.status = 1) := by
  have hexited : (runSuite host before (c, s)).2.Exited :=
    ⟨runSuite_initialized hinit c before, hexit⟩
  have happend : (runSuite host (before ++ after) (c, s)).1 = _ :=
    (congrArg Prod.fst (List.foldl_append ..)).trans
      (runSuite_of_exited hexited (runSuite host before (c, s)).1 after)
  refine ⟨happend, fun hloads => ?_⟩
  have hpos := List.countP_pos_iff.2 hloads
  rw [happend]
  exact if_pos (Nat.add_pos_right _ hpos)

end

set_option maxRecDepth 20000 in
/-- The test that passes by itself fails after one that exits. -/
theorem runSuite_exit_passing :
    (runSuite (fun _ => 0) [some (exitFile []), some passingTest]
      (⟨0, 0, 0⟩, testRunnerStart)).1 = ⟨0, 2, 0⟩ :=
  (@runSuite_exit (fun _ => 0) testRunnerStart rfl ⟨0, 0, 0⟩ [some (exitFile [])] (by decide)
    [some passingTest]).1.trans (by decide)

end Herve
