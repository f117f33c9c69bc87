import Herve.Iss.Elf
import Herve.Run.Iteration

/-! Register `x0`. Whatever is executed writes registers through `write_reg`, and the
initialisations clear them all. -/

namespace Herve
open RiscV

variable {δ : Type} (dev : Device δ)

/-- The states a harness can bring the emulator to: after any calls of its interface in any
order, and between two instructions of `rv_step`. -/
inductive Reachable : State δ → Prop
  | start (d : δ) : Reachable (State.start d)
  | init {s : State δ} (firmware : Option (List Byte)) (ramSize : ℕ)
      (block : Option (ℕ → Byte)) : Reachable s → Reachable (rvInit firmware ramSize block s)
  | initFromBuffer {s : State δ} (data : Option (List Byte)) (ramSize : ℕ)
      (block : Option (ℕ → Byte)) :
      Reachable s → Reachable (rvInitFromBuffer data ramSize block s)
  | initElf {s : State δ} (file : Option (List Byte)) (ramSize : ℕ) (block : Option (ℕ → Byte))
      (heap : ℕ → List Byte) :
      Reachable s → Reachable (rvInitElf file ramSize block heap s).value.2
  | loadElf {s : State δ} (host : ℤ → Byte) (elfData : Option (List Byte)) :
      Reachable s → Reachable (rvLoadElf host elfData s).value.2
  | reset {s : State δ} (startPc : Word) : Reachable s → Reachable (rvReset startPc s)
  | setIrq {s : State δ} (mask : Word) : Reachable s → Reachable (rvSetIrq mask s)
  | step {s : State δ} (n : ℤ) : Reachable s → Reachable (rvStep dev n s).2
  | during {s t : State δ} {n : ℤ} : Reachable s → Iterates dev n s t → Reachable t

theorem writeReg_zero (r : Reg) (v : Word) (regs : Reg → Word) : writeReg r v regs 0 = regs 0 := by
  unfold writeReg
  split_ifs with hr
  · exact Function.update_of_ne (Ne.symm hr) _ _
  · rfl

/-! ## Execution -/

theorem Arm.run_zero (nextPc : Word) (c : Core δ) (a : Arm) :
    (a.run dev nextPc c).2.regs 0 = c.regs 0 := by
  cases a <;> first | rfl | exact writeReg_zero _ _ _

theorem executeSystem_zero (insn : Word) (s : State δ) :
    (executeSystem insn s).2.regs 0 = s.regs 0 := by
  have hcsr : (executeCsr insn s).regs 0 = s.regs 0 := by
    rw [executeCsr]
    dsimp only
    rw [writeReg_zero, (csrWrite_frame _ _ _).1]
  exact executeSystem_keeps (fun t : State δ => t.regs 0) (fun _ _ _ => rfl) rfl rfl hcsr

theorem executeInstruction_zero (insn : Word) (s : State δ) :
    (executeInstruction dev insn s).2.regs 0 = s.regs 0 := by
  rw [executeInstruction]
  split_ifs
  · exact executeSystem_zero insn s
  · obtain ⟨p, hp⟩ := executeCore_arm dev insn s
    rw [hp]
    exact Arm.run_zero dev _ s.toCore _

theorem iteration_zero (profiled : Bool) (s : State δ) :
    (iteration dev profiled s).2.regs 0 = s.regs 0 := by
  by_cases hf : s.CanFetch
  · by_cases hc : IsCompressed (s.fetchedInsn dev)
    · have hpast : ∀ c : Core δ, (stepPast s.pc c).regs = c.regs := by
        intro c
        unfold stepPast
        split_ifs <;> rfl
      rcases iteration_compressed dev profiled hf hc with ⟨_, hrun⟩ | ⟨_, p, hrun⟩
      · rw [hrun]
        rfl
      · rw [hrun]
        exact (congrFun (hpast _) 0).trans (Arm.run_zero dev s.pc (s.fetched dev).toCore _)
    · have hexec := executeInstruction_zero dev (s.fetchedInsn dev) (s.fetched dev)
      rw [iteration_base dev profiled hf hc, stepBase]
      dsimp only
      split_ifs <;> exact hexec
  · rw [iteration_stop dev profiled hf]

theorem rvStep_zero (n : ℤ) (s : State δ) (h : s.regs 0 = 0) : (rvStep dev n s).2.regs 0 = 0 :=
  rvStep_invariant dev (I := fun t : State δ => t.regs 0 = 0) h (fun _ => h)
    fun t ht => (iteration_zero dev _ t).trans ht

/-! ## The other calls -/

variable {s : State δ}

theorem rvInit_zero (firmware : Option (List Byte)) (ramSize : ℕ) (block : Option (ℕ → Byte))
    (h : s.regs 0 = 0) : (rvInit firmware ramSize block s).regs 0 = 0 := by
  cases block with
  | none => exact h
  | some block => cases firmware <;> rfl

theorem rvInitFromBuffer_zero (data : Option (List Byte)) (ramSize : ℕ)
    (block : Option (ℕ → Byte)) (h : s.regs 0 = 0) :
    (rvInitFromBuffer data ramSize block s).regs 0 = 0 := by
  cases block with
  | none => exact h
  | some block => cases data <;> rfl

theorem rvInitElf_zero (file : Option (List Byte)) (ramSize : ℕ) (block : Option (ℕ → Byte))
    (heap : ℕ → List Byte) (h : s.regs 0 = 0) :
    (rvInitElf file ramSize block heap s).value.2.regs 0 = 0 := by
  unfold rvInitElf
  cases file with
  | none => exact h
  | some file =>
    dsimp only
    split_ifs
    · exact h
    · exact h
    · exact h
    · cases block with
      | none => exact h
      | some block => rfl

theorem rvLoadElf_zero (host : ℤ → Byte) (elfData : Option (List Byte)) (h : s.regs 0 = 0) :
    (rvLoadElf host elfData s).value.2.regs 0 = 0 := by
  unfold rvLoadElf
  cases elfData with
  | none => exact h
  | some data =>
    dsimp only
    split_ifs <;> exact h

theorem rvReset_zero (startPc : Word) (h : s.regs 0 = 0) : (rvReset startPc s).regs 0 = 0 := by
  unfold rvReset
  split_ifs
  · rfl
  · exact h

/-- `x0` is zero in every state a harness can reach. -/
theorem zero_of_reachable (h : Reachable dev s) : s.regs 0 = 0 := by
  induction h with
  | start d => rfl
  | init firmware ramSize block _ ih => exact rvInit_zero firmware ramSize block ih
  | initFromBuffer data ramSize block _ ih => exact rvInitFromBuffer_zero data ramSize block ih
  | initElf file ramSize block heap _ ih => exact rvInitElf_zero file ramSize block heap ih
  | loadElf host elfData _ ih => exact rvLoadElf_zero host elfData ih
  | reset startPc _ ih => exact rvReset_zero startPc ih
  | setIrq mask _ ih => exact ih
  | step n _ ih => exact rvStep_zero dev n _ ih
  | during _ hvisit ih =>
    exact BreakLoop.visits_invariant (I := fun t : State δ => t.regs 0 = 0)
      (fun t ht _ => (iteration_zero dev _ t).trans ht) ih hvisit.2

/-- `addi x0, x0, 1` has run. -/
theorem zero_of_reachable_addi :
    (rvStep herveStubs 1 (State.booted [0x00100013])).2.regs 0 = 0 :=
  zero_of_reachable herveStubs (.step 1 (.reset 0 (.initFromBuffer _ 64 _ (.start ()))))

end Herve
