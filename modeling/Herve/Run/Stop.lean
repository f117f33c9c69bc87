import Herve.Run.Iteration

/-! How an iteration of the loops stops: nothing to fetch, an instruction that is refused, or
WFI. Only the last one changes the state beyond the fetch. -/

namespace Herve
open RiscV

variable {δ : Type} (dev : Device δ)

def IsTrapCall (insn : Word) : Prop := insn = 0x00100073#32 ∨ insn = 0x00000073#32
  deriving Decidable

/-- The arm of WFI, which every other SYSTEM word with `funct3 = 0` reaches too, puts the hart
to sleep. -/
def Sleeps (insn : Word) (s : State δ) : Prop :=
  opcode insn = 0x73#32 ∧ funct3 insn = 0 ∧ ¬ IsTrapCall insn ∧ insn ≠ 0x30200073#32 ∧
    ¬ (s.csrMstatus &&& 0x8#32 ≠ 0 ∧ s.irqMask ≠ 0)
  deriving Decidable

theorem writeResult_ne_fail (rd : Reg) (value : Option Word) : writeResult rd value ≠ .fail := by
  cases value <;> exact Arm.noConfusion

theorem loadArm_ne_fail (f : Word) (rd : Reg) (addr : Word) : loadArm f rd addr ≠ .fail := by
  unfold loadArm
  split <;> exact Arm.noConfusion

theorem storeArm_ne_fail (f : Word) (rs2 : Reg) (addr : Word) : storeArm f rs2 addr ≠ .fail := by
  unfold storeArm
  split <;> exact Arm.noConfusion

theorem decodeInstruction_ne_fail (insn : Word) (regs : Reg → Word) (pc : Word) :
    (decodeInstruction insn regs pc).2 ≠ .fail := by
  unfold decodeInstruction
  dsimp only
  split
  · split_ifs
    · exact Arm.noConfusion
    · exact Arm.noConfusion
    · exact writeResult_ne_fail _ _
  · exact writeResult_ne_fail _ _
  · exact loadArm_ne_fail _ _ _
  · exact storeArm_ne_fail _ _ _
  · split_ifs <;> exact Arm.noConfusion
  all_goals exact Arm.noConfusion

theorem Arm.run_ok (nextPc : Word) (c : Core δ) {a : Arm} (ha : a ≠ .fail) :
    (a.run dev nextPc c).1 = true := by
  cases a <;> first | exact absurd rfl ha | rfl

theorem executeInstruction_core {insn : Word} (hsys : opcode insn ≠ 0x73#32) (s : State δ) :
    ∃ p, executeInstruction dev insn s = (true, { s with
      toCore := ((decodeInstruction insn s.regs s.pc).2.run dev (s.pc + 4) s.toCore).2
      profiler := p }) := by
  obtain ⟨p, hrun⟩ := executeCore_arm dev insn s
  refine ⟨p, ?_⟩
  rw [executeInstruction, if_neg hsys, hrun,
    Arm.run_ok dev _ _ (decodeInstruction_ne_fail insn s.regs s.pc)]

theorem executeInstruction_trapCall {insn : Word} (h : IsTrapCall insn) (s : State δ) :
    executeInstruction dev insn s = (false, s) := by
  have hop : opcode insn = 0x73#32 ∧ funct3 insn = 0 := by
    rcases h with rfl | rfl <;> decide
  rw [executeInstruction, if_pos hop.1, executeSystem, if_pos hop.2]
  exact if_pos h

theorem executeInstruction_sleeps {insn : Word} {s : State δ} (h : Sleeps insn s) :
    executeInstruction dev insn s = (false, { s with wfiSleep := true }) := by
  obtain ⟨hsys, hf3, htrap, hmret, hawake⟩ := h
  rw [executeInstruction, if_pos hsys, executeSystem, if_pos hf3]
  exact (if_neg htrap).trans ((if_neg hmret).trans (if_neg hawake))

theorem executeInstruction_retires {insn : Word} {s : State δ} (htrap : ¬ IsTrapCall insn)
    (hsleep : ¬ Sleeps insn s) :
    (executeInstruction dev insn s).1 = true ∧
      (executeInstruction dev insn s).2.wfiSleep = s.wfiSleep := by
  by_cases hsys : opcode insn = 0x73#32
  · have hretire : ∀ (u : State δ) type nextPc,
        (u.retire type nextPc insn).2.wfiSleep = u.wfiSleep :=
      fun u type nextPc => retire_keeps State.wfiSleep (fun _ _ _ => rfl) u type nextPc insn
    have hwrite : ∀ addr v, (s.csrWrite addr v).wfiSleep = s.wfiSleep := by
      intro addr v
      unfold State.csrWrite
      split <;> rfl
    rw [executeInstruction, if_pos hsys, executeSystem]
    split_ifs with hf3 htrap' hmret hawake
    · exact absurd htrap' htrap
    · exact ⟨rfl, rfl⟩
    · exact ⟨rfl, hretire _ _ _⟩
    · exact absurd ⟨hsys, hf3, htrap, hmret, hawake⟩ hsleep
    · exact ⟨rfl, (hretire _ _ _).trans (hwrite _ _)⟩
  · obtain ⟨p, hrun⟩ := executeInstruction_core dev hsys s
    rw [hrun]
    exact ⟨rfl, rfl⟩

/-! ## One iteration -/

variable {s : State δ}

/-- The fetched instruction is refused: an illegal halfword, ECALL or EBREAK. -/
def State.Refuses (s : State δ) : Prop :=
  if IsCompressed (s.fetchedInsn dev) then s.compressedArm dev = .fail
  else IsTrapCall (s.fetchedInsn dev)

def State.FallsAsleep (s : State δ) : Prop :=
  ¬ IsCompressed (s.fetchedInsn dev) ∧ Sleeps (s.fetchedInsn dev) (s.fetched dev)

theorem iteration_refuses (profiled : Bool) (hf : s.CanFetch) (h : s.Refuses dev) :
    iteration dev profiled s = (false, s.fetched dev) := by
  unfold State.Refuses at h
  split_ifs at h with hc
  · rcases iteration_compressed dev profiled hf hc with ⟨_, hrun⟩ | ⟨ha, _⟩
    · exact hrun
    · exact absurd h ha
  · rw [iteration_base dev profiled hf hc, stepBase, executeInstruction_trapCall dev h]
    rfl

theorem iteration_fallsAsleep (profiled : Bool) (hf : s.CanFetch) (h : s.FallsAsleep dev) :
    iteration dev profiled s = (false, { s.fetched dev with wfiSleep := true }) := by
  rw [iteration_base dev profiled hf h.1, stepBase, executeInstruction_sleeps dev h.2]
  rfl

theorem iteration_retires (profiled : Bool) (hf : s.CanFetch) (hr : ¬ s.Refuses dev)
    (hs : ¬ s.FallsAsleep dev) :
    (iteration dev profiled s).1 = true ∧
      (iteration dev profiled s).2.wfiSleep = s.wfiSleep := by
  unfold State.Refuses at hr
  by_cases hc : IsCompressed (s.fetchedInsn dev)
  · rw [if_pos hc] at hr
    rcases iteration_compressed dev profiled hf hc with ⟨ha, _⟩ | ⟨_, p, hrun⟩
    · exact absurd ha hr
    · rw [hrun]
      exact ⟨rfl, rfl⟩
  · rw [if_neg hc] at hr
    obtain ⟨hok, hsleep⟩ := executeInstruction_retires dev hr fun h => hs ⟨hc, h⟩
    rw [iteration_base dev profiled hf hc, stepBase]
    dsimp only
    rw [if_pos hok]
    exact ⟨rfl, hsleep⟩

/-- The three ways to stop, and what each leaves. -/
theorem iteration_stops {profiled : Bool} (h : (iteration dev profiled s).1 = false) :
    ¬ s.CanFetch ∧ (iteration dev profiled s).2 = s ∨
    s.CanFetch ∧ s.Refuses dev ∧ (iteration dev profiled s).2 = s.fetched dev ∨
    s.CanFetch ∧ s.FallsAsleep dev ∧
      (iteration dev profiled s).2 = { s.fetched dev with wfiSleep := true } := by
  by_cases hf : s.CanFetch
  · by_cases hr : s.Refuses dev
    · exact .inr (.inl ⟨hf, hr, by rw [iteration_refuses dev profiled hf hr]⟩)
    by_cases hs : s.FallsAsleep dev
    · exact .inr (.inr ⟨hf, hs, by rw [iteration_fallsAsleep dev profiled hf hs]⟩)
    · rw [(iteration_retires dev profiled hf hr hs).1] at h
      cases h
  · exact .inl ⟨hf, by rw [iteration_stop dev profiled hf]⟩

theorem iteration_awake {profiled : Bool} (h : (iteration dev profiled s).1 = true) :
    (iteration dev profiled s).2.wfiSleep = s.wfiSleep := by
  have hne : ∀ t, iteration dev profiled s ≠ (false, t) := by
    intro t ht
    rw [ht] at h
    exact Bool.false_ne_true h
  have hf : s.CanFetch := by
    by_contra hf
    exact hne _ (iteration_stop dev profiled hf)
  exact (iteration_retires dev profiled hf (fun hr => hne _ (iteration_refuses dev profiled hf hr))
    fun hs => hne _ (iteration_fallsAsleep dev profiled hf hs)).2

end Herve
