import Herve.Run.Trace

/-! `rv_step` case by case: idle, an interrupt dispatched, or one of the loops; and one
pass of the loops: nothing to fetch, a 16-bit instruction, a 32-bit instruction. The two
loops differ in what they leave in the profiler, which the cases do not say. -/

namespace Herve
open RiscV AppendLog

variable {δ : Type} (dev : Device δ)

/-- The loop gets as far as reading an instruction. -/
def State.CanFetch (s : State δ) : Prop :=
  s.htifHalted = false ∧ s.validMemoryAccess s.pc 4 = true

def State.fetchedInsn (s : State δ) : Word := (s.readU32 dev s.pc).1

/-- The state in which the fetched instruction is executed. -/
def State.fetched (s : State δ) : State δ := { s with toBus := (s.readU32 dev s.pc).2 }

def IsCompressed (insn : Word) : Prop := insn &&& 0x3#32 ≠ 0x3#32
  deriving Decidable

def State.compressedArm (s : State δ) : Arm :=
  decodeCompressed ((s.fetchedInsn dev).setWidth 16) s.regs s.pc

variable (profiled : Bool) {s : State δ}

theorem iteration_stop (hf : ¬ s.CanFetch) : iteration dev profiled s = (false, s) := by
  unfold iteration
  cases hh : s.htifHalted with
  | true => rw [if_pos rfl]
  | false =>
    cases hv : s.validMemoryAccess s.pc 4 with
    | true => exact absurd ⟨hh, hv⟩ hf
    | false => rfl

theorem iteration_base (hf : s.CanFetch) (hc : ¬ IsCompressed (s.fetchedInsn dev)) :
    iteration dev profiled s = stepBase dev (s.fetchedInsn dev) (s.fetched dev) := by
  rw [iteration, hf.1, hf.2]
  exact if_neg hc

theorem iteration_compressed (hf : s.CanFetch) (hc : IsCompressed (s.fetchedInsn dev)) :
    (s.compressedArm dev = .fail ∧ iteration dev profiled s = (false, s.fetched dev)) ∨
    (s.compressedArm dev ≠ .fail ∧ ∃ p, iteration dev profiled s =
      (true, { s.fetched dev with
        toCore := stepPast s.pc ((s.compressedArm dev).run dev s.pc (s.fetched dev).toCore).2
        profiler := p }.count (((s.fetchedInsn dev).setWidth 16).setWidth 32))) := by
  have hexec : executeCompressed dev ((s.fetchedInsn dev).setWidth 16) (s.fetched dev).toCore =
      (s.compressedArm dev).run dev s.pc (s.fetched dev).toCore := rfl
  have hstep : iteration dev profiled s =
      stepCompressed dev profiled ((s.fetchedInsn dev).setWidth 16) (s.fetched dev) := by
    rw [iteration, hf.1, hf.2]
    exact if_pos hc
  rw [hstep, stepCompressed, hexec]
  by_cases ha : s.compressedArm dev = .fail
  · rw [ha]
    exact .inl ⟨rfl, rfl⟩
  · have hok : ((s.compressedArm dev).run dev s.pc (s.fetched dev).toCore).1 = true := by
      cases h : s.compressedArm dev <;> first | exact absurd h ha | rfl
    simp only [hok]
    exact .inr ⟨ha, _, rfl⟩

/-! ## Its accesses -/

/-- The access the fetched instruction makes: first address and width. -/
def State.dataAccess (s : State δ) : Option (Word × ℕ) :=
  if IsCompressed (s.fetchedInsn dev) then (s.compressedArm dev).access
  else if opcode (s.fetchedInsn dev) = 0x73#32 then none
  else (decodeInstruction (s.fetchedInsn dev) s.regs s.pc).2.access

theorem stepPast_toBus (pc : Word) (c : Core δ) : (stepPast pc c).toBus = c.toBus := by
  unfold stepPast
  split_ifs <;> rfl

theorem executeSystem_toBus (insn : Word) (s : State δ) :
    (executeSystem insn s).2.toBus = s.toBus := by
  have hcsr : (executeCsr insn s).toBus = s.toBus := by
    dsimp only [executeCsr]
    rw [(csrWrite_frame _ _ _).1]
  exact executeSystem_keeps (fun t : State δ => t.toBus) (fun _ _ _ => rfl) rfl rfl hcsr

def WritesMstatus (insn : Word) : Prop :=
  insn = 0x30200073#32 ∨ opcode insn = 0x73#32 ∧ funct3 insn ≠ 0 ∧ csrAddr insn = 0x300#32
  deriving Decidable

theorem retire_mstatus (s : State δ) (type : InsnType) (nextPc insn : Word) :
    (s.retire type nextPc insn).2.csrMstatus = s.csrMstatus :=
  retire_keeps State.csrMstatus (fun _ _ _ => rfl) s type nextPc insn

theorem csrWrite_mstatus (s : State δ) {addr : Word} (h : addr ≠ 0x300#32) (v : Word) :
    (s.csrWrite addr v).csrMstatus = s.csrMstatus := by
  unfold State.csrWrite
  split
  case h_1 h300 => exact absurd (BitVec.eq_of_toNat_eq h300) h
  all_goals rfl

/-- Only MRET and the CSR instructions on `mstatus` change it, and they retire. -/
theorem executeInstruction_mstatus (insn : Word) (s : State δ) :
    (executeInstruction dev insn s).2.csrMstatus = s.csrMstatus ∨
      (executeInstruction dev insn s).1 = true ∧ WritesMstatus insn := by
  by_cases hsys : opcode insn = 0x73#32
  · rw [executeInstruction, if_pos hsys]
    unfold executeSystem
    split_ifs with hf3 hbreak hmret hwfi
    · exact .inl rfl
    · exact .inr ⟨rfl, .inl hmret⟩
    · exact .inl (retire_mstatus _ _ _ _)
    · exact .inl rfl
    · by_cases hcsr : csrAddr insn = 0x300#32
      · exact .inr ⟨rfl, .inr ⟨hsys, hf3, hcsr⟩⟩
      · refine .inl ((retire_mstatus _ _ _ _).trans ?_)
        exact csrWrite_mstatus s hcsr _
  · obtain ⟨p, hrun⟩ := executeCore_arm dev insn s
    rw [executeInstruction, if_neg hsys, hrun]
    exact .inl rfl

/-- On the bus an instruction does what an arm does; a SYSTEM instruction does nothing there. -/
theorem executeInstruction_bus (insn : Word) (s : State δ) :
    ∃ (a : Arm) (nextPc : Word),
      a.access = (if opcode insn = 0x73#32 then none
        else (decodeInstruction insn s.regs s.pc).2.access) ∧
      (executeInstruction dev insn s).2.toBus = (a.run dev nextPc s.toCore).2.toBus := by
  rw [executeInstruction]
  split_ifs with hsys
  · exact ⟨.skip, s.pc, rfl, executeSystem_toBus _ _⟩
  · obtain ⟨p, hrun⟩ := executeCore_arm dev insn s
    rw [hrun]
    exact ⟨_, _, rfl, rfl⟩

theorem executeInstruction_touches (insn : Word) (s : State δ) :
    Touches dev
      (if opcode insn = 0x73#32 then none else (decodeInstruction insn s.regs s.pc).2.access)
      s.toBus (executeInstruction dev insn s).2.toBus := by
  obtain ⟨a, nextPc, haccess, hbus⟩ := executeInstruction_bus dev insn s
  rw [hbus, ← haccess]
  exact a.run_touches dev nextPc s.toCore

/-- With the bus left as `b` an iteration from `s` has stopped, and `mstatus` is as it was, or
has logged that the instruction retired. -/
def State.EndsOn (s : State δ) (b : Bus δ) (t : State δ) : Prop :=
  t.toBus = b ∧ t.csrMstatus = s.csrMstatus ∨
    ∃ insn, t.toBus = b.log (.retire insn t.mie) ∧
      (t.csrMstatus = s.csrMstatus ∨ WritesMstatus insn)

/-- After the fetch an iteration runs the arm of its instruction on the bus. -/
theorem iteration_bus (hf : s.CanFetch) :
    ∃ (a : Arm) (nextPc : Word) (b : Bus δ), a.access = s.dataAccess dev ∧
      b = (a.run dev nextPc (s.fetched dev).toCore).2.toBus ∧
      s.EndsOn b (iteration dev profiled s).2 := by
  unfold State.dataAccess
  by_cases hc : IsCompressed (s.fetchedInsn dev)
  · rw [if_pos hc]
    rcases iteration_compressed dev profiled hf hc with ⟨ha, hrun⟩ | ⟨_, p, hrun⟩
    · rw [ha, hrun]
      exact ⟨.fail, s.pc, _, rfl, rfl, .inl ⟨rfl, rfl⟩⟩
    · rw [hrun]
      exact ⟨_, s.pc, _, rfl, rfl,
        .inr ⟨_, congrArg (Bus.log · _) (stepPast_toBus s.pc _), .inl rfl⟩⟩
  · obtain ⟨a, nextPc, haccess, hbus⟩ :=
      executeInstruction_bus dev (s.fetchedInsn dev) (s.fetched dev)
    have hmstatus := executeInstruction_mstatus dev (s.fetchedInsn dev) (s.fetched dev)
    rw [if_neg hc, iteration_base dev profiled hf hc, stepBase]
    refine ⟨a, nextPc, _, haccess, hbus, ?_⟩
    dsimp only
    split_ifs with hok
    · exact .inr ⟨_, rfl, hmstatus.imp_right And.right⟩
    · exact .inl ⟨rfl, hmstatus.resolve_right fun h => hok h.1⟩

theorem iteration_touches (hf : s.CanFetch) :
    ∃ b, Touches dev (s.dataAccess dev) (s.fetched dev).toBus b ∧
      s.EndsOn b (iteration dev profiled s).2 := by
  obtain ⟨a, nextPc, b, haccess, rfl, hend⟩ := iteration_bus dev profiled hf
  exact ⟨_, haccess ▸ a.run_touches dev nextPc (s.fetched dev).toCore, hend⟩

/-- What an iteration keeps, and that it neither dispatches nor is given interrupts. -/
theorem iteration_step :
    BusStep dev Event.IsIteration s.toBus (iteration dev profiled s).2.toBus := by
  have hbus : ∀ e : Event, e.IsBus → e.IsIteration := fun _ => Event.IsBus.isIteration
  by_cases hf : s.CanFetch
  · obtain ⟨b, htouch, hend⟩ := iteration_touches dev profiled hf
    have hfetch : Access dev s.toBus (s.fetched dev).toBus s.pc 4 := Access.readU32 _ _
    have hdata := (hfetch.isBus.mono hbus).trans (htouch.isBus.mono hbus)
    -- a stop adds nothing to the log, a retirement one entry
    rcases hend with ⟨hend, _⟩ | ⟨insn, hend, _⟩
    · rw [hend]
      exact hdata
    · rw [hend]
      exact hdata.trans (.log b trivial)
  · rw [iteration_stop dev profiled hf]
    exact .refl _ _

theorem loop_step (n : ℕ) :
    BusStep dev Event.IsIteration s.toBus
      (BreakLoop.loop (iteration dev profiled) n s).2.toBus :=
  BreakLoop.loop_invariant
    (I := fun t : State δ => BusStep dev Event.IsIteration s.toBus t.toBus)
    (fun _ ht => ht.trans (iteration_step dev profiled)) (.refl _ _) n

/-! ## One call -/

def State.Dispatches (s : State δ) (n : ℤ) : Prop :=
  s.initialized = true ∧ 0 < n ∧ s.Interrupted

def State.Runs (s : State δ) (n : ℤ) : Prop :=
  s.initialized = true ∧ 0 < n ∧ s.wfiSleep = false ∧ ¬ s.Interrupted

/-- A loop of `rv_step(n)` from `s` starts an iteration in state `t`. -/
def Iterates (n : ℤ) (s t : State δ) : Prop :=
  s.Runs n ∧
    BreakLoop.Visits (iteration dev s.profiler.profilingEnabled) n.toNat s t

theorem interrupted_raised (h : s.Interrupted) : s.mie = true ∧ s.irqMask ≠ 0 := by
  refine ⟨h.2, fun h0 => h.1 ?_⟩
  rw [State.pending, h0]
  exact BitVec.zero_and

theorem dispatch_mie (s : State δ) : s.dispatch.mie = false := by
  show decide (s.csrMstatus &&& ~~~0x8#32 &&& 0x8#32 ≠ 0) = false
  rw [BitVec.and_assoc, BitVec.not_and_self]
  exact decide_eq_false fun h => h BitVec.and_zero

theorem rvStep_dispatch {n : ℤ} (h : s.Dispatches n) :
    rvStep dev n s = (1, s.wake.dispatch) := by
  obtain ⟨hi, hn, hint⟩ := h
  rw [rvStep, if_neg (by simpa [hi] using hn), if_neg fun hs => hs.2 hint, if_pos hint]

theorem State.wake_of_awake (hw : s.wfiSleep = false) : s.wake = s := by
  rw [State.wake, ← hw]

theorem rvStep_run {n : ℤ} (h : s.Runs n) :
    rvStep dev n s =
      BreakLoop.loop (iteration dev s.profiler.profilingEnabled) n.toNat s := by
  obtain ⟨hi, hn, hw, hint⟩ := h
  rw [rvStep, if_neg (by simpa [hi] using hn), if_neg (by simp [hw]), if_neg hint,
    State.wake_of_awake hw]
  cases s.profiler.profilingEnabled <;> rfl

/-- The loop of `n` instructions from a state that takes no interrupt, with `n = 0` too. -/
theorem rvStep_loop (n : ℕ) (hinit : s.initialized = true) (hsleep : s.wfiSleep = false)
    (hint : ¬ s.Interrupted) :
    rvStep dev n s = BreakLoop.loop (iteration dev s.profiler.profilingEnabled) n s := by
  rcases Nat.eq_zero_or_pos n with rfl | hn
  · rw [rvStep, if_pos (.inr le_rfl)]
    rfl
  · exact rvStep_run dev ⟨hinit, by exact_mod_cast hn, hsleep, hint⟩

theorem rvStep_nonpos {n : ℤ} (hn : n ≤ 0) (s : State δ) : rvStep dev n s = (0, s) :=
  if_pos (.inr hn)

theorem rvStep_idle {n : ℤ} (hd : ¬ s.Dispatches n) (hr : ¬ s.Runs n) :
    rvStep dev n s = (0, s) := by
  unfold rvStep
  by_cases h0 : s.initialized = false ∨ n ≤ 0
  · rw [if_pos h0]
  by_cases hw : s.wfiSleep = true ∧ ¬ s.Interrupted
  · rw [if_pos hw, ite_self]
  rw [not_or, Bool.not_eq_false, not_le] at h0
  have hint : ¬ s.Interrupted := fun hint => hd ⟨h0.1, h0.2, hint⟩
  have hsleep : s.wfiSleep = false := by
    by_contra hsleep
    exact hw ⟨by simpa using hsleep, hint⟩
  exact absurd ⟨h0.1, h0.2, hsleep, hint⟩ hr

/-- What a dispatch and the iterations preserve holds after the call. -/
theorem rvStep_invariant {I : State δ → Prop} {n : ℤ} (h : I s)
    (hdispatch : s.Dispatches n → I s.wake.dispatch)
    (hiteration : ∀ t, I t → I (iteration dev s.profiler.profilingEnabled t).2) :
    I (rvStep dev n s).2 := by
  by_cases hd : s.Dispatches n
  · rw [rvStep_dispatch dev hd]
    exact hdispatch hd
  by_cases hr : s.Runs n
  · rw [rvStep_run dev hr]
    exact BreakLoop.loop_invariant hiteration h n.toNat
  · rw [rvStep_idle dev hd hr]
    exact h

end Herve
