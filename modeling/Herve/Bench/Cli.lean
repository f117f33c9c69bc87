import Herve.Iss.Elf
import Herve.Lib.Batches
import Herve.Run.Accounting
import Herve.Run.Batch
import Herve.Run.Halt

/-! `herve_main.c`, linked with the stubs: the run loop tests `--max-cycles` between batches of a
thousand instructions. -/

namespace Herve
open RiscV (Byte Word)

def herveProfilerSetArch (arch : Arch) (p : Profiler) : Profiler :=
  { p with currentArch := some arch }

/-- What `main` does before the run loop. -/
def cliStart (arch : Arch) (profiling : Bool) (file : Option (List Byte))
    (block : Option (ℕ → Byte)) (heap : ℕ → List Byte) : State Unit :=
  let s := State.start ()
  let profiler := herveProfilerEnable profiling (herveProfilerSetArch arch s.profiler)
  let s := (rvInitElf file 0 block heap { s with profiler := profiler }).value.2
  rvReset s.pc s

def batchSize : ℕ := 1000

/-- The `while` test and the body of the run loop; `max_cycles` is compared as a `uint64_t`. -/
def cliBody (maxCycles : BitVec 64) (s : State Unit) : Bool × State Unit :=
  if s.csrMcycle < maxCycles ∧ s.htifHalted = false then
    let (steps, s) := rvStep herveStubs batchSize s
    if steps = 0 ∧ s.htifHalted = false then (false, s) else (true, s)
  else (false, s)

/-! ## The emulator under the stubs -/

variable {s : State Unit}

theorem stubs_refuses_again (hf : s.CanFetch) (hr : s.Refuses herveStubs) (profiled : Bool) :
    (iteration herveStubs profiled (s.fetched herveStubs)).1 = false := by
  by_cases hmmio : isMmioAddress s.pc = true
  · have hhtif := isHtifAddress_of_mmio hmmio
    have hread : ∀ b : Bus Unit, b.readU32 herveStubs s.pc = b.dpiMmioRead herveStubs s.pc := by
      intro b
      rw [Bus.readU32, hhtif, hmmio]
      rfl
    have hinsn : ∀ b : Bus Unit, (b.readU32 herveStubs s.pc).1 = 0 := by
      intro b
      rw [hread]
      rfl
    have hf' : (s.fetched herveStubs).CanFetch := by
      unfold State.CanFetch State.fetched
      rw [hread]
      exact hf
    have hr' : (s.fetched herveStubs).Refuses herveStubs := by
      have hsame : (s.fetched herveStubs).fetchedInsn herveStubs = s.fetchedInsn herveStubs :=
        (hinsn _).trans (hinsn _).symm
      unfold State.Refuses State.compressedArm
      rw [hsame]
      exact hr
    exact congrArg Prod.fst (iteration_refuses herveStubs profiled hf' hr')
  · obtain ⟨t, ht, -⟩ := refuses_again herveStubs hf hr (eq_false_of_ne_true hmmio) profiled
    exact congrArg Prod.fst ht

theorem stubs_irqMask (hirq : s.irqMask = 0) (n : ℤ) : (rvStep herveStubs n s).2.irqMask = 0 := by
  refine rvStep_invariant herveStubs (I := fun t : State Unit => t.irqMask = 0) hirq ?_ ?_
  · exact fun hd => absurd hd.2.2 (not_interrupted hirq)
  · exact fun t ht => ((iteration_step herveStubs _).irqMask herveStubs_silent).trans ht

theorem stubs_stopped {t : State Unit} (h : Running s t)
    (hbreak : (iteration herveStubs s.profiler.profilingEnabled t).1 = false) (n : ℕ) :
    (rvStep herveStubs n (iteration herveStubs s.profiler.profilingEnabled t).2).1 = 0 := by
  have hmode := (iteration_mode herveStubs s.profiler.profilingEnabled t).trans h.mode
  have hirq : (iteration herveStubs s.profiler.profilingEnabled t).2.irqMask = 0 :=
    ((iteration_step herveStubs s.profiler.profilingEnabled).irqMask herveStubs_silent).trans
      h.irqMask
  have hloop : ∀ u : State Unit, Running s u →
      (iteration herveStubs s.profiler.profilingEnabled u).1 = false →
        (rvStep herveStubs n u).1 = 0 := by
    intro u hu hb
    rw [hu.rvStep_eq]
    cases n with
    | zero => rfl
    | succ n => rw [BreakLoop.loop_succ_false hb]
  rcases iteration_stops herveStubs hbreak with ⟨-, hstop⟩ | ⟨hf, hr, hstop⟩ | ⟨-, -, hstop⟩
  · rw [hstop]
    exact hloop t h hbreak
  · rw [hstop] at hmode hirq ⊢
    exact hloop _ ⟨hmode, h.initialized, hirq, h.awake⟩ (stubs_refuses_again hf hr _)
  · rw [hstop] at hirq ⊢
    rw [rvStep_resting herveStubs hirq fun hawake => Bool.noConfusion hawake.2]

/-- A call goes on where the one before it has used up its bound, and else counts nothing. -/
theorem stubs_split (hirq : s.irqMask = 0) (m n : ℕ) :
    (rvStep herveStubs m s).1 = m ∧ (rvStep herveStubs (m + n : ℕ) s).1 =
        m + (rvStep herveStubs n (rvStep herveStubs m s).2).1 ∨
      (rvStep herveStubs n (rvStep herveStubs m s).2).1 = 0 ∧
        (rvStep herveStubs (m + n : ℕ) s).1 = (rvStep herveStubs m s).1 := by
  by_cases hawake : s.initialized = true ∧ s.wfiSleep = false
  · have hs : Running s s := ⟨rfl, hawake.1, hirq, hawake.2⟩
    rw [hs.rvStep_eq herveStubs m, hs.rvStep_eq herveStubs (m + n)]
    rcases @BreakLoop.loop_add _ (iteration herveStubs s.profiler.profilingEnabled) m n s with
      ⟨hall, hcount, hadd⟩ | ⟨t, ht, hbreak, hend, hadd⟩
    · have hrun := (BreakLoop.loop_invariant_visits (I := Running s) hs
        fun t ht hI => hI.next herveStubs herveStubs_silent _ (hall t ht)).2
      rw [hrun.rvStep_eq, hadd]
      exact .inl ⟨hcount, rfl⟩
    · have hrun : Running s t := BreakLoop.visits_invariant (I := Running s)
        (fun u hu hgoes => hu.next herveStubs herveStubs_silent _ hgoes) hs ht
      rw [hadd, hend]
      exact .inr ⟨stubs_stopped hrun hbreak n, rfl⟩
  · rw [rvStep_resting herveStubs hirq hawake, rvStep_resting herveStubs hirq hawake,
      rvStep_resting herveStubs hirq hawake]
    exact .inr ⟨rfl, rfl⟩

theorem stubs_le (hirq : s.irqMask = 0) (n : ℕ) : (rvStep herveStubs n s).1 ≤ n := by
  have hbound := (rvStep_retires herveStubs (n := n) fun hd => not_interrupted hirq hd.2.2).2
  omega

theorem stubs_resumable :
    Batches.Resumable (fun n (s : State Unit) => rvStep herveStubs (n : ℕ) s)
      fun s => s.irqMask = 0 where
  keeps n _ hirq := stubs_irqMask hirq n
  le n _ hirq := stubs_le hirq n
  add m n _ hirq := by
    rcases stubs_split hirq m n with ⟨hfull, hsum⟩ | ⟨hrest, hsum⟩
    · rw [hsum, hfull]
    · rw [hsum, hrest, Nat.add_zero]
  stop m n _ hirq hlt := by
    rcases stubs_split hirq m n with ⟨hfull, -⟩ | ⟨hrest, -⟩
    · exact absurd hfull hlt.ne
    · exact hrest

/-! ## The run loop -/

theorem stubs_counted {n : ℕ} (hn : n < 2 ^ 63) :
    Batches.Counted (fun n (s : State Unit) => rvStep herveStubs (n : ℕ) s)
      (fun s => s.csrMcycle.toNat) (fun s => s.htifHalted) batchSize n fun s => s.irqMask = 0 where
  toResumable := stubs_resumable
  counts s hirq hlt := by
    have hcycle := (rvStep_retires herveStubs (n := (batchSize : ℕ))
      fun hd => not_interrupted (s := s) hirq hd.2.2).1.2
    have hle := stubs_le hirq batchSize
    have hsize : batchSize = 1000 := rfl
    rw [hcycle, BitVec.toNat_add, BitVec.toNat_ofNat, Nat.mod_eq_of_lt (b := 2 ^ 64) (by omega),
      Nat.mod_eq_of_lt (by omega)]
  idle n s hirq hhalted := by
    rw [rvStep_halted herveStubs hhalted fun hd => not_interrupted hirq hd.2.2]
  pos := by decide

theorem cliBody_eq {n : ℕ} (hn : n < 2 ^ 63) :
    cliBody (BitVec.ofNat 64 n) =
      Batches.body (fun n (s : State Unit) => rvStep herveStubs (n : ℕ) s)
        (fun s => s.csrMcycle.toNat) (fun s => s.htifHalted) batchSize n := by
  funext s
  have hlt : s.csrMcycle < BitVec.ofNat 64 n ↔ s.csrMcycle.toNat < n := by
    rw [BitVec.lt_def, BitVec.toNat_ofNat, Nat.mod_eq_of_lt (by omega)]
  unfold cliBody Batches.body
  simp only [hlt]

/-- One of the first `n + 1` instructions is not executed, or there is no RAM to run in. -/
def State.StopsWithin (n : ℕ) (s : State Unit) : Prop :=
  s.initialized = false ∨
    ∃ t, BreakLoop.Visits (iteration herveStubs s.profiler.profilingEnabled) (n + 1) s t ∧
      (iteration herveStubs s.profiler.profilingEnabled t).1 = false

theorem State.stopsWithin_iff (hirq : s.irqMask = 0) (hawake : s.wfiSleep = false) (n : ℕ) :
    (rvStep herveStubs (n + 1 : ℕ) s).1 ≤ n ↔ s.StopsWithin n := by
  cases hinit : s.initialized with
  | false =>
    have hidle : rvStep herveStubs (n + 1 : ℕ) s = (0, s) :=
      rvStep_resting herveStubs hirq (fun h => by simp [hinit] at h) _
    rw [hidle]
    exact iff_of_true (Nat.zero_le n) (.inl hinit)
  | true =>
    have hs : Running s s := ⟨rfl, hinit, hirq, hawake⟩
    rw [hs.rvStep_eq, ← Nat.lt_succ_iff, BreakLoop.loop_lt_iff, StopsWithin, or_iff_right]
    rw [hinit]
    decide

section
variable (arch : Arch) (profiling : Bool) (file : Option (List Byte)) (block : Option (ℕ → Byte))
  (heap : ℕ → List Byte)

theorem rvInitElf_awake (ramSize : ℕ) (hirq : s.irqMask = 0) (hawake : s.wfiSleep = false) :
    (rvInitElf file ramSize block heap s).value.2.irqMask = 0 ∧
      (rvInitElf file ramSize block heap s).value.2.wfiSleep = false ∧
      (rvInitElf file ramSize block heap s).value.2.csrMcycle = s.csrMcycle := by
  unfold rvInitElf
  cases file with
  | none => exact ⟨hirq, hawake, rfl⟩
  | some file =>
    dsimp only
    split_ifs
    · exact ⟨hirq, hawake, rfl⟩
    · exact ⟨hirq, hawake, rfl⟩
    · exact ⟨hirq, hawake, rfl⟩
    · cases block with
      | none => exact ⟨hirq, hawake, rfl⟩
      | some block => exact ⟨rfl, rfl, rfl⟩

theorem cliStart_awake :
    (cliStart arch profiling file block heap).irqMask = 0 ∧
      (cliStart arch profiling file block heap).wfiSleep = false ∧
      (cliStart arch profiling file block heap).csrMcycle = 0 := by
  unfold cliStart rvReset
  dsimp only
  split_ifs
  · exact ⟨rfl, rfl, rfl⟩
  · exact rvInitElf_awake file block heap 0 rfl rfl

theorem cli_ends {n : ℕ} (hn : n < 2 ^ 63) :
    ∃ t, BreakLoop.Ends (cliBody (BitVec.ofNat 64 n)) (cliStart arch profiling file block heap) t ∧
      (t.csrMcycle.toNat ≤ n ↔ batchSize ∣ n ∨
        (rvStep herveStubs (n + 1 : ℕ) (cliStart arch profiling file block heap)).1 ≤ n) := by
  obtain ⟨hirq, -, hcycle⟩ := cliStart_awake arch profiling file block heap
  rw [cliBody_eq hn]
  exact (stubs_counted hn).within_limit_iff hirq (by rw [hcycle]; rfl)

/-- The run loop ends for every program and limit. It keeps to the limit exactly when that is a
multiple of a thousand or the program stops by then. -/
theorem cli_maxCycles_iff {n : ℕ} (hn : n < 2 ^ 63) :
    ∃ t, BreakLoop.Ends (cliBody (BitVec.ofNat 64 n)) (cliStart arch profiling file block heap) t ∧
      (t.csrMcycle.toNat ≤ n ↔
        1000 ∣ n ∨ (cliStart arch profiling file block heap).StopsWithin n) := by
  obtain ⟨hirq, hawake, -⟩ := cliStart_awake arch profiling file block heap
  obtain ⟨t, ht, hiff⟩ := cli_ends arch profiling file block heap hn
  rw [State.stopsWithin_iff hirq hawake] at hiff
  exact ⟨t, ht, hiff⟩

end

/-- An ELF file whose program is `j .`. -/
def loopFile : List Byte := elfFile 0x1000 [⟨ptLoad, 84, 0x1000, 4, 4⟩] (programBytes [0x6f])

def plainArch : Arch := ⟨[], 0, fun _ => 1⟩

/-- `--max-cycles=2000` -/
theorem cli_maxCycles_loop :
    ∃ t, BreakLoop.Ends (cliBody 2000) (cliStart plainArch false (some loopFile)
      (some fun _ => 0) fun _ => []) t ∧ t.csrMcycle.toNat ≤ 2000 := by
  obtain ⟨t, ht, hiff⟩ := cli_maxCycles_iff plainArch false (some loopFile)
    (some fun _ => 0) (fun _ => []) (n := 2000) (by decide)
  exact ⟨t, ht, hiff.2 (.inl (by decide))⟩

/-- `--max-cycles=1` -/
theorem cli_maxCycles_exceeded :
    ∃ t, BreakLoop.Ends (cliBody 1) (cliStart plainArch false (some loopFile)
      (some fun _ => 0) fun _ => []) t ∧ 1 < t.csrMcycle.toNat := by
  obtain ⟨t, ht, hiff⟩ := cli_ends plainArch false (some loopFile) (some fun _ => 0)
    (fun _ => []) (n := 1) (by decide)
  refine ⟨t, ht, not_le.1 fun hle => ?_⟩
  exact absurd (hiff.1 hle) (by decide +kernel)

end Herve
