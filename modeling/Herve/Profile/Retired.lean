import Herve.Iss.Init
import Herve.Profile.Record
import Herve.Run.Batch
import Herve.Run.Reached

/-! What the profiled loop records. An iteration records the instruction it retires, once,
except for MRET, which leaves `execute_instruction` before the record is made. -/

namespace Herve
open RiscV

variable {δ : Type} (dev : Device δ)

/-! ## The record of an iteration -/

/-- The class under which `execute_instruction` records an instruction. -/
def instructionType (insn : Word) (s : State δ) : InsnType :=
  if opcode insn = 0x73#32 then if funct3 insn = 0 then .sys else .csr
  else (decodeInstruction insn s.regs s.pc).1

/-- What `execute_instruction` records: nothing for ECALL and EBREAK, a WFI that goes to sleep
and MRET. -/
def instructionRecord (insn : Word) (s : State δ) : Option Record :=
  if IsTrapCall insn ∨ Sleeps insn s ∨ insn = 0x30200073#32 then none
  else some ⟨instructionType insn s, s.pc, insn⟩

def State.recorded (s : State δ) : Option Record :=
  if s.htifHalted = true ∨ s.validMemoryAccess s.pc 4 = false then none
  else if IsCompressed (s.fetchedInsn dev) then
    if s.compressedArm dev = .fail then none
    else some ⟨.compressed, s.pc, ((s.fetchedInsn dev).setWidth 16).setWidth 32⟩
  else instructionRecord (s.fetchedInsn dev) (s.fetched dev)

def State.AtMret (s : State δ) : Prop := s.CanFetch ∧ s.fetchedInsn dev = 0x30200073#32

/-- From `s` to `t` nothing but `r` is recorded, and no instruction is counted. -/
structure Records (r : Option Record) (s t : State δ) : Prop where
  profiler : t.profiler = recordAll s.symbols r.toList s.profiler
  symbols : t.symbols = s.symbols
  mcycle : t.csrMcycle = s.csrMcycle

variable {s : State δ}

theorem retire_records (henabled : s.profiler.profilingEnabled = true) (type : InsnType)
    (nextPc insn : Word) :
    Records (some ⟨type, s.pc, insn⟩) s (s.retire type nextPc insn).2 := by
  have hretire : (s.retire type nextPc insn).2 = { s with
      pc := nextPc
      profiler := herveProfilerRecordInsn s.symbols type s.pc insn s.profiler } :=
    if_pos henabled
  rw [hretire]
  exact ⟨rfl, rfl, rfl⟩

theorem executeCsr_records (insn : Word) : Records none s (executeCsr insn s) ∧
    (executeCsr insn s).pc = s.pc := by
  unfold executeCsr State.csrWrite
  dsimp only
  split <;> exact ⟨⟨rfl, rfl, rfl⟩, rfl⟩

theorem executeInstruction_records (henabled : s.profiler.profilingEnabled = true)
    (insn : Word) : Records (instructionRecord insn s) s (executeInstruction dev insn s).2 := by
  unfold instructionRecord instructionType
  by_cases htrap : IsTrapCall insn
  · rw [executeInstruction_trapCall dev htrap, if_pos (.inl htrap)]
    exact ⟨rfl, rfl, rfl⟩
  by_cases hsleep : Sleeps insn s
  · rw [executeInstruction_sleeps dev hsleep, if_pos (.inr (.inl hsleep))]
    exact ⟨rfl, rfl, rfl⟩
  by_cases hsys : opcode insn = 0x73#32
  · rw [executeInstruction, if_pos hsys, executeSystem]
    by_cases hmret : insn = 0x30200073#32
    · subst hmret
      exact ⟨rfl, rfl, rfl⟩
    rw [if_neg (by simp [htrap, hsleep, hmret]), if_pos hsys]
    split_ifs with hf3 htrap' hawake
    · exact absurd htrap' htrap
    · exact retire_records henabled _ _ _
    · exact absurd ⟨hsys, hf3, htrap, hmret, hawake⟩ hsleep
    · obtain ⟨⟨hprofiler, hsymbols, hmcycle⟩, hpc⟩ := executeCsr_records (s := s) insn
      have h := retire_records (s := executeCsr insn s) (by rw [hprofiler]; exact henabled)
        .csr (s.pc + 4) insn
      rw [hpc] at h
      exact ⟨by rw [h.profiler, hprofiler, hsymbols]; rfl, h.symbols.trans hsymbols,
        h.mcycle.trans hmcycle⟩
  · have hmret : insn ≠ 0x30200073#32 := by
      rintro rfl
      exact hsys (by decide)
    rw [if_neg (by simp [htrap, hsleep, hmret]), if_neg hsys, executeInstruction, if_neg hsys]
    have hrecord : (executeCore dev insn s).2 = { s with
        toCore := ((decodeInstruction insn s.regs s.pc).2.run dev (s.pc + 4) s.toCore).2
        profiler := herveProfilerRecordInsn s.symbols
          (decodeInstruction insn s.regs s.pc).1 s.pc insn s.profiler } :=
      if_pos henabled
    rw [hrecord]
    exact ⟨rfl, rfl, rfl⟩

theorem stepCompressed_records {a : Arm} (ha : a ≠ .fail) (c : BitVec 16) (u : State δ)
    (harm : decodeCompressed c u.regs u.pc = a) :
    ∃ v, Records (some ⟨.compressed, u.pc, c.setWidth 32⟩) u v ∧
      stepCompressed dev true c u = (true, v.count (c.setWidth 32)) := by
  have hexec : executeCompressed dev c u.toCore = a.run dev u.pc u.toCore := by
    rw [← harm]
    rfl
  have hok : (a.run dev u.pc u.toCore).1 = true := Arm.run_ok dev _ _ ha
  refine ⟨{ u with
    toCore := stepPast u.pc (a.run dev u.pc u.toCore).2
    profiler := herveProfilerRecordInsn u.symbols .compressed u.pc (c.setWidth 32) u.profiler },
    ⟨rfl, rfl, rfl⟩, ?_⟩
  rw [stepCompressed, hexec]
  simp only [hok]
  rfl

/-- An iteration of the profiled loop: it stops, or counts an instruction that it has recorded,
or counts an MRET. -/
def State.IterationRecords (s : State δ) : Prop :=
  ∃ u, Records (s.recorded dev) s u ∧
    (iteration dev true s = (false, u) ∧ s.recorded dev = none ∧ ¬ s.AtMret dev ∨
      ∃ insn, iteration dev true s = (true, u.count insn) ∧
        ((∃ r, s.recorded dev = some r) ∧ ¬ s.AtMret dev ∨
          s.recorded dev = none ∧ s.AtMret dev))

theorem iterationRecords_stop (hf : ¬ s.CanFetch) : s.IterationRecords dev := by
  have hnone : s.recorded dev = none := by
    unfold State.recorded
    refine if_pos ?_
    by_contra h
    rw [not_or, Bool.not_eq_true, Bool.not_eq_false] at h
    exact hf h
  rw [State.IterationRecords, hnone]
  exact ⟨s, ⟨rfl, rfl, rfl⟩, .inl ⟨iteration_stop dev true hf, rfl, fun h => hf h.1⟩⟩

theorem recorded_of_canFetch (hf : s.CanFetch) :
    s.recorded dev =
      if IsCompressed (s.fetchedInsn dev) then
        if s.compressedArm dev = .fail then none
        else some ⟨.compressed, s.pc, ((s.fetchedInsn dev).setWidth 16).setWidth 32⟩
      else instructionRecord (s.fetchedInsn dev) (s.fetched dev) := by
  unfold State.recorded
  refine if_neg ?_
  rw [hf.1, hf.2]
  decide

theorem iterationRecords_compressed (hf : s.CanFetch) (hc : IsCompressed (s.fetchedInsn dev)) :
    s.IterationRecords dev := by
  have hmret : ¬ s.AtMret dev := by
    rintro ⟨_, h⟩
    rw [h] at hc
    exact absurd hc (by decide)
  have hstep : iteration dev true s =
      stepCompressed dev true ((s.fetchedInsn dev).setWidth 16) (s.fetched dev) := by
    rw [iteration, hf.1, hf.2]
    exact if_pos hc
  rw [State.IterationRecords, recorded_of_canFetch dev hf, if_pos hc, hstep]
  by_cases ha : s.compressedArm dev = .fail
  · rw [if_pos ha, ← hstep, iteration_refuses dev true hf (by rw [State.Refuses, if_pos hc, ha])]
    exact ⟨s.fetched dev, ⟨rfl, rfl, rfl⟩, .inl ⟨rfl, rfl, hmret⟩⟩
  · obtain ⟨u, hu, hrun⟩ := stepCompressed_records dev ha _ (s.fetched dev) rfl
    rw [if_neg ha, hrun]
    exact ⟨u, ⟨hu.profiler, hu.symbols, hu.mcycle⟩, .inr ⟨_, rfl, .inl ⟨⟨_, rfl⟩, hmret⟩⟩⟩

theorem iterationRecords_base (henabled : s.profiler.profilingEnabled = true) (hf : s.CanFetch)
    (hc : ¬ IsCompressed (s.fetchedInsn dev)) : s.IterationRecords dev := by
  have hexec := executeInstruction_records dev (s := s.fetched dev) henabled (s.fetchedInsn dev)
  rw [State.IterationRecords, recorded_of_canFetch dev hf, if_neg hc,
    iteration_base dev true hf hc, stepBase]
  refine ⟨(executeInstruction dev (s.fetchedInsn dev) (s.fetched dev)).2,
    ⟨hexec.profiler, hexec.symbols, hexec.mcycle⟩, ?_⟩
  dsimp only
  unfold instructionRecord
  by_cases htrap : IsTrapCall (s.fetchedInsn dev)
  · have hmret : ¬ s.AtMret dev := by
      rintro ⟨_, h⟩
      rw [h] at htrap
      exact absurd htrap (by decide)
    rw [executeInstruction_trapCall dev htrap]
    exact .inl ⟨rfl, if_pos (.inl htrap), hmret⟩
  by_cases hsleep : Sleeps (s.fetchedInsn dev) (s.fetched dev)
  · rw [executeInstruction_sleeps dev hsleep]
    exact .inl ⟨rfl, if_pos (.inr (.inl hsleep)), fun h => hsleep.2.2.2.1 h.2⟩
  rw [(executeInstruction_retires dev htrap hsleep).1]
  refine .inr ⟨s.fetchedInsn dev, rfl, ?_⟩
  by_cases hmret : s.fetchedInsn dev = 0x30200073#32
  · exact .inr ⟨if_pos (.inr (.inr hmret)), hf, hmret⟩
  · rw [if_neg (by simp [htrap, hsleep, hmret])]
    exact .inl ⟨⟨_, rfl⟩, fun h => hmret h.2⟩

theorem iteration_records (henabled : s.profiler.profilingEnabled = true) :
    s.IterationRecords dev := by
  by_cases hf : s.CanFetch
  · by_cases hc : IsCompressed (s.fetchedInsn dev)
    · exact iterationRecords_compressed dev hf hc
    · exact iterationRecords_base dev henabled hf hc
  · exact iterationRecords_stop dev hf

/-! ## Runs -/

/-- As many instructions are recorded from `s` to `t` as are counted in `mcycle`. -/
def RecordsAll (s t : State δ) : Prop :=
  t.profiler.totalInstructions - s.profiler.totalInstructions = t.csrMcycle - s.csrMcycle
  deriving Decidable

/-- The instructions counted and not recorded. -/
def State.unrecorded (s : State δ) : BitVec 64 := s.csrMcycle - s.profiler.totalInstructions

theorem recordsAll_iff {s t : State δ} : RecordsAll s t ↔ t.unrecorded = s.unrecorded := by
  unfold RecordsAll State.unrecorded
  rw [sub_eq_sub_iff_add_eq_add, sub_eq_sub_iff_add_eq_add, add_comm s.csrMcycle, eq_comm,
    add_comm t.csrMcycle]

theorem iteration_unrecorded_iff (henabled : s.profiler.profilingEnabled = true) :
    (iteration dev true s).2.unrecorded = s.unrecorded ↔ ¬ s.AtMret dev := by
  obtain ⟨u, ⟨hprofiler, hsymbols, hmcycle⟩,
    ⟨hrun, hnone, hmret⟩ | ⟨insn, hrun, ⟨⟨r, hr⟩, hmret⟩ | ⟨hnone, hmret⟩⟩⟩ :=
    iteration_records dev henabled
  · rw [hnone] at hprofiler
    rw [hrun]
    refine iff_of_true ?_ hmret
    show u.csrMcycle - u.profiler.totalInstructions = s.unrecorded
    rw [hmcycle, hprofiler]
    rfl
  · rw [hr] at hprofiler
    obtain ⟨_, _, _, hrecord⟩ := record_advance s.symbols r henabled
    have htotal : u.profiler.totalInstructions = s.profiler.totalInstructions + 1 := by
      rw [hprofiler, Option.toList_some]
      show (record s.symbols s.profiler r).totalInstructions = _
      rw [hrecord]
      rfl
    rw [hrun]
    refine iff_of_true ?_ hmret
    show u.csrMcycle + 1 - u.profiler.totalInstructions = s.unrecorded
    rw [hmcycle, htotal, add_sub_add_right_eq_sub]
    rfl
  · rw [hnone] at hprofiler
    rw [hrun]
    refine iff_of_false ?_ (not_not.2 hmret)
    show ¬ u.csrMcycle + 1 - u.profiler.totalInstructions = s.unrecorded
    rw [hmcycle, hprofiler, add_sub_right_comm]
    exact fun h => absurd (add_eq_left.1 h) (by decide)

theorem iteration_enabled (profiled : Bool) (s : State δ) :
    (iteration dev profiled s).2.profiler.profilingEnabled = s.profiler.profilingEnabled :=
  congrArg Prod.snd (iteration_mode dev profiled s)

/-- While profiling is enabled, every instruction is recorded throughout a run exactly when the
run executes no MRET. -/
theorem recordsAll_iff_no_mret {s : State δ} (henabled : s.profiler.profilingEnabled = true)
    (calls : List Call) :
    (∀ t, Reached dev calls s t → RecordsAll s t) ↔
      ∀ t, Executed dev calls s t → ¬ t.AtMret dev := by
  have hkeeps : ∀ t, Reached dev calls s t → t.profiler.profilingEnabled = true := fun t ht =>
    reached_invariant dev (I := fun t : State δ => t.profiler.profilingEnabled = true)
      (fun _ _ h => h) (fun _ h => h) henabled
      (fun u t _ h _ => (iteration_enabled dev _ t).trans h) ht
  have hiff := reached_iff_executed dev (C := fun t => ¬ t.AtMret dev)
    (I := fun t : State δ => t.profiler.profilingEnabled = true ∧ t.unrecorded = s.unrecorded)
    (fun _ _ h => h) (fun _ h => h) ?_ ⟨henabled, rfl⟩ calls
  · rw [← hiff]
    exact forall₂_congr fun t ht => recordsAll_iff.trans (and_iff_right (hkeeps t ht)).symm
  · rintro u t ⟨hu, -⟩ ⟨ht, hunrecorded⟩
    rw [hu, iteration_enabled, ht, eq_self, true_and, ← hunrecorded]
    exact iteration_unrecorded_iff dev ht

/-- The emulator after `herve_profiler_enable(true)`. -/
def State.profiled (s : State δ) : State δ :=
  { s with profiler := herveProfilerEnable true s.profiler }

theorem recordsAll_nop :
    let s := (State.booted [0x00000013]).profiled
    ∀ t, Reached herveStubs [.step 1] s t → RecordsAll s t := by
  intro s
  refine (recordsAll_iff_no_mret herveStubs (by decide) [.step 1]).2 ?_
  intro t ht
  rw [executed_step_one herveStubs ht]
  exact fun h => absurd h.2 (by decide)

/-- MRET is counted in `mcycle` only. -/
theorem not_recordsAll_mret :
    let s := (State.booted [0x30200073]).profiled
    ¬ ∀ t, Reached herveStubs [.step 1] s t → RecordsAll s t := by
  intro s h
  exact absurd (h _ (.inl ⟨[.step 1], List.prefix_rfl, rfl⟩)) (by decide)

end Herve
