import Herve.Run.Iteration

/-! Where the pc is after a 16-bit instruction. The loops take a pc that did not move for
one that is still to be advanced, which is wrong of exactly the jumps to themselves. -/

namespace Herve
open RiscV

/-- A compressed jump or taken branch whose target is its own address: C.J, C.JAL, C.BEQZ
and C.BNEZ of offset zero; C.JR and C.JALR of a register that holds the pc, unless that
register is the link C.JALR has just written. -/
def JumpsToSelf (insn : BitVec 16) (regs : Reg → Word) (pc : Word) : Prop :=
  let i : Word := insn.setWidth 32
  match (i &&& 0x3#32).toNat with
  | 1 =>
    match ((i >>> 13) &&& 0x7#32).toNat with
    | 1 | 5 => offsetCJ i = 0
    | 6 => regs (rs1C i) = 0 ∧ offsetCB i = 0
    | 7 => regs (rs1C i) ≠ 0 ∧ offsetCB i = 0
    | _ => False
  | 2 =>
    match ((i >>> 13) &&& 0x7#32).toNat with
    | 4 =>
      rs2CR i = 0 ∧ rdCI i ≠ 0 ∧ regs (rdCI i) = pc ∧
        ((i >>> 12) &&& 0xf#32 = 0x8#32 ∨ rdCI i ≠ 1)
    | _ => False
  | _ => False

theorem toNat_and_lt (v : Word) (m : ℕ) (hm : m < 2 ^ 32) :
    (v &&& BitVec.ofNat 32 m).toNat < m + 1 := by
  rw [BitVec.toNat_and, BitVec.toNat_ofNat, Nat.mod_eq_of_lt hm]
  exact Nat.lt_succ_of_le Nat.and_le_right

theorem decodeQuadrant1Alu_target (i : Word) (regs : Reg → Word) :
    (decodeQuadrant1Alu i regs).target = none := by
  unfold decodeQuadrant1Alu
  dsimp only
  repeat' split
  all_goals rfl

theorem decodeQuadrant0_target (i : Word) (regs : Reg → Word) :
    (decodeQuadrant0 i regs).target = none := by
  unfold decodeQuadrant0
  dsimp only
  repeat' split
  all_goals rfl

theorem decodeQuadrant1_target (i : Word) (regs : Reg → Word) (pc : Word) :
    (decodeQuadrant1 i regs pc).target =
      match ((i >>> 13) &&& 0x7#32).toNat with
      | 1 | 5 => some (pc + offsetCJ i)
      | 6 => if regs (rs1C i) = 0 then some (pc + offsetCB i) else none
      | 7 => if regs (rs1C i) ≠ 0 then some (pc + offsetCB i) else none
      | _ => none := by
  have hf := toNat_and_lt (i >>> 13) 7 (by decide)
  unfold decodeQuadrant1
  generalize (i >>> 13 &&& 7#32).toNat = f at hf ⊢
  interval_cases f
  case «4» => exact decodeQuadrant1Alu_target i regs
  all_goals dsimp only
  all_goals split_ifs <;> rfl

/-- C.JR, C.MV, C.JALR, C.ADD and C.EBREAK. -/
theorem decodeQuadrant2_cr {i : Word} (h : ((i >>> 13) &&& 0x7#32).toNat = 4) (regs : Reg → Word)
    (pc : Word) : decodeQuadrant2 i regs pc =
      if ((i >>> 12) &&& 0xf#32).toNat = 8 then
        if rs2CR i = 0 then if rdCI i = 0 then .fail else .setPc (regs (rdCI i))
        else .writeReg (rdCI i) (regs (rs2CR i))
      else if rs2CR i = 0 ∧ rdCI i = 0 then .fail
      else if rs2CR i = 0 then .link 1 (pc + 2) (writeReg 1 (pc + 2) regs (rdCI i))
      else .writeReg (rdCI i) (regs (rdCI i) + regs (rs2CR i)) := by
  unfold decodeQuadrant2
  rw [h]
  exact if_congr BitVec.toNat_inj.symm rfl rfl

/-- C.JR and C.JALR. -/
theorem decodeQuadrant2_target (i : Word) (regs : Reg → Word) (pc : Word) :
    (decodeQuadrant2 i regs pc).target =
      match ((i >>> 13) &&& 0x7#32).toNat with
      | 4 =>
        if rs2CR i = 0 ∧ rdCI i ≠ 0 then
          some (if (i >>> 12) &&& 0xf#32 = 0x8#32 then regs (rdCI i)
            else writeReg 1 (pc + 2) regs (rdCI i))
        else none
      | _ => none := by
  by_cases h4 : ((i >>> 13) &&& 0x7#32).toNat = 4
  · have hjr : (i >>> 12) &&& 0xf#32 = 0x8#32 ↔ ((i >>> 12) &&& 0xf#32).toNat = 8 :=
      BitVec.toNat_inj.symm
    rw [decodeQuadrant2_cr h4, h4, if_congr hjr.symm rfl rfl]
    by_cases hrs2 : rs2CR i = 0
    · by_cases hrd : rdCI i = 0
      · rw [if_pos hrs2, if_pos hrd, if_pos (⟨hrs2, hrd⟩ : rs2CR i = 0 ∧ rdCI i = 0), ite_self]
        exact (if_neg fun h => h.2 hrd).symm
      · rw [if_pos hrs2, if_neg hrd, if_neg (fun h : rs2CR i = 0 ∧ rdCI i = 0 => hrd h.2),
          if_pos hrs2]
        refine Eq.trans ?_ (if_pos ⟨hrs2, hrd⟩).symm
        split_ifs <;> rfl
    · rw [if_neg hrs2, if_neg (fun h : rs2CR i = 0 ∧ rdCI i = 0 => hrs2 h.1), if_neg hrs2]
      refine Eq.trans ?_ (if_neg fun h => hrs2 h.1).symm
      split_ifs <;> rfl
  · have hnone : (decodeQuadrant2 i regs pc).target = none := by
      unfold decodeQuadrant2
      dsimp only
      split
      · split_ifs <;> rfl
      · rfl
      · exact absurd ‹_› h4
      · rfl
      · rfl
    rw [hnone]
    split
    · exact absurd ‹_› h4
    · rfl

theorem link_target_iff (regs : Reg → Word) (pc : Word) (r : Reg) :
    writeReg 1#5 (pc + 2#32) regs r = pc ↔ regs r = pc ∧ r ≠ 1#5 := by
  -- the link has overwritten the target
  by_cases h1 : r = 1#5
  · subst h1
    simp [writeReg]
  · simp [writeReg, h1]

theorem decodeQuadrant1_target_iff (i : Word) (regs : Reg → Word) (pc : Word) :
    (decodeQuadrant1 i regs pc).target = some pc ↔
      match ((i >>> 13) &&& 0x7#32).toNat with
      | 1 | 5 => offsetCJ i = 0
      | 6 => regs (rs1C i) = 0 ∧ offsetCB i = 0
      | 7 => regs (rs1C i) ≠ 0 ∧ offsetCB i = 0
      | _ => False := by
  rw [decodeQuadrant1_target]
  split <;> simp

theorem decodeQuadrant2_target_iff (i : Word) (regs : Reg → Word) (pc : Word) :
    (decodeQuadrant2 i regs pc).target = some pc ↔
      match ((i >>> 13) &&& 0x7#32).toNat with
      | 4 =>
        rs2CR i = 0 ∧ rdCI i ≠ 0 ∧ regs (rdCI i) = pc ∧
          ((i >>> 12) &&& 0xf#32 = 0x8#32 ∨ rdCI i ≠ 1)
      | _ => False := by
  rw [decodeQuadrant2_target]
  split
  · by_cases hjr : (i >>> 12) &&& 0xf#32 = 0x8#32
    · simp [hjr, and_assoc]
    · simp [hjr, link_target_iff, and_assoc]
  · simp

theorem decodeCompressed_target_iff (insn : BitVec 16) (regs : Reg → Word) (pc : Word) :
    (decodeCompressed insn regs pc).target = some pc ↔ JumpsToSelf insn regs pc := by
  have hq := toNat_and_lt (insn.setWidth 32) 3 (by decide)
  unfold decodeCompressed JumpsToSelf
  dsimp only
  generalize (insn.setWidth 32 &&& 3#32).toNat = q at hq ⊢
  interval_cases q
  · simp [decodeQuadrant0_target]
  · exact decodeQuadrant1_target_iff _ _ _
  · exact decodeQuadrant2_target_iff _ _ _
  · simp [Arm.target]

variable {δ : Type} (dev : Device δ)

/-- After a 16-bit instruction the pc is the target of the transfer it made, or the next
instruction. -/
def PcLaw (profiled : Bool) (s : State δ) : Prop :=
  (iteration dev profiled s).2.pc = (s.compressedArm dev).target.getD (s.pc + 2)

theorem pcLaw_iff (profiled : Bool) {s : State δ} (hret : (iteration dev profiled s).1 = true)
    (hc : IsCompressed (s.fetchedInsn dev)) :
    PcLaw dev profiled s ↔ ¬ JumpsToSelf ((s.fetchedInsn dev).setWidth 16) s.regs s.pc := by
  have hf : s.CanFetch := by
    by_contra hf
    rw [iteration_stop dev profiled hf] at hret
    exact Bool.false_ne_true hret
  rw [← decodeCompressed_target_iff, PcLaw, State.compressedArm]
  rcases iteration_compressed dev profiled hf hc with ⟨_, hstop⟩ | ⟨ha, p, hrun⟩
  · rw [hstop] at hret
    exact absurd hret Bool.false_ne_true
  · have hpc := Arm.run_pc dev s.pc (s.fetched dev).toCore ha
    rw [State.compressedArm] at hrun hpc
    rw [hrun]
    show (stepPast s.pc _).pc = _ ↔ _
    rw [stepPast, hpc]
    cases htarget : (decodeCompressed ((s.fetchedInsn dev).setWidth 16) s.regs s.pc).target with
    | none => simp
    | some t =>
      -- a transfer to itself is taken for a pc that has not moved
      by_cases ht : t = s.pc
      · simp [ht]
      · simp [ht, hpc, htarget]

theorem pcLaw_addi : PcLaw herveStubs false (State.holding 0x0405) :=
  (pcLaw_iff herveStubs false (by decide) (by decide)).2 id

/-- `c.j 0`, the compressed halt loop, falls through. -/
theorem not_pcLaw_j : ¬ ∀ profiled, PcLaw herveStubs profiled (State.holding 0xA001) := by
  intro h
  exact absurd (h false) (by unfold PcLaw; decide)

end Herve
