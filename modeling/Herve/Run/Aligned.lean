import Herve.Iss.Init
import Herve.Run.PcLaw
import Herve.Run.Reached
import Herve.Run.Stop

/-! Bit 0 of the pc. Branches, JAL, JALR and the entry to a handler clear it; the compressed
jumps to a register and MRET take the address as it is. -/

namespace Herve
open RiscV

variable {δ : Type} (dev : Device δ)

def Aligned (pc : Word) : Prop := pc.toNat % 2 = 0
  deriving Decidable

theorem aligned_iff (v : Word) : Aligned v ↔ v.getLsbD 0 = false := by
  rw [Aligned, BitVec.getLsbD, Nat.testBit_zero, decide_eq_false_iff_not]
  omega

theorem Aligned.add {a b : Word} (ha : Aligned a) (hb : Aligned b) : Aligned (a + b) := by
  unfold Aligned at ha hb ⊢
  rw [BitVec.toNat_add]
  omega

theorem signExtend_aligned_iff (v : Word) {n : ℕ} (hn : 0 < n) :
    Aligned (signExtend v n) ↔ Aligned v := by
  have hlt : 32 - n < 32 := by omega
  rw [aligned_iff, aligned_iff, signExtend, BitVec.getLsbD_sshiftRight, Nat.add_zero,
    BitVec.getLsbD_shiftLeft]
  simp [hlt]

theorem offsetCJ_aligned (i : Word) : Aligned (offsetCJ i) := by
  rw [offsetCJ, signExtend_aligned_iff _ (by decide), aligned_iff]
  simp

theorem offsetCB_aligned (i : Word) : Aligned (offsetCB i) := by
  rw [offsetCB, signExtend_aligned_iff _ (by decide), aligned_iff]
  simp

theorem immB_aligned (insn : Word) : Aligned (immB insn) := by
  rw [immB, signExtend_aligned_iff _ (by decide), aligned_iff]
  simp

theorem immJ_aligned (insn : Word) : Aligned (immJ insn) := by
  rw [immJ, signExtend_aligned_iff _ (by decide), aligned_iff]
  simp

theorem and_aligned (v : Word) {mask : Word} (h : Aligned mask) : Aligned (v &&& mask) := by
  rw [aligned_iff] at h ⊢
  rw [BitVec.getLsbD_and, h, Bool.and_false]

theorem handlerAddress_aligned (mtvec : Word) (c : ℕ) : Aligned (handlerAddress mtvec c) := by
  have hbase : Aligned (mtvec &&& ~~~0x3#32) := and_aligned mtvec (by decide)
  have hvector : Aligned (BitVec.ofNat 32 c * 4#32) := by
    rw [Aligned, BitVec.toNat_mul]
    show _ * 4 % 2 ^ 32 % 2 = 0
    omega
  unfold handlerAddress
  split_ifs
  · exact hbase.add hvector
  · exact hbase

/-! ## Transfers of control -/

/-- The arm transfers control, if at all, to an aligned address. -/
def Arm.TargetAligned (a : Arm) : Prop := ∀ t, a.target = some t → Aligned t

theorem Arm.targetAligned_of_none {a : Arm} (h : a.target = none) : a.TargetAligned := by
  intro t ht
  rw [h] at ht
  cases ht

theorem Arm.targetAligned_of_eq {a : Arm} {x : Word} (h : a.target = some x) (hx : Aligned x) :
    a.TargetAligned := by
  intro t ht
  rw [h] at ht
  exact Option.some.inj ht ▸ hx

theorem writeResult_target (rd : Reg) (value : Option Word) :
    (writeResult rd value).target = none := by
  cases value <;> rfl

theorem loadArm_target (f : Word) (rd : Reg) (addr : Word) : (loadArm f rd addr).target = none := by
  unfold loadArm
  split <;> rfl

theorem storeArm_target (f : Word) (rs2 : Reg) (addr : Word) :
    (storeArm f rs2 addr).target = none := by
  unfold storeArm
  split <;> rfl

theorem decodeInstruction_aligned (insn : Word) (regs : Reg → Word) {pc : Word}
    (hpc : Aligned pc) : (decodeInstruction insn regs pc).2.TargetAligned := by
  unfold decodeInstruction
  dsimp only
  split
  · split_ifs
    · exact Arm.targetAligned_of_none rfl
    · exact Arm.targetAligned_of_none rfl
    · exact Arm.targetAligned_of_none (writeResult_target _ _)
  · exact Arm.targetAligned_of_none (writeResult_target _ _)
  · exact Arm.targetAligned_of_none (loadArm_target _ _ _)
  · exact Arm.targetAligned_of_none (storeArm_target _ _ _)
  · split_ifs
    · exact Arm.targetAligned_of_eq rfl (hpc.add (immB_aligned insn))
    · exact Arm.targetAligned_of_none rfl
  · exact Arm.targetAligned_of_eq rfl (hpc.add (immJ_aligned insn))
  · exact Arm.targetAligned_of_eq rfl (and_aligned _ (by decide))
  all_goals exact Arm.targetAligned_of_none rfl

/-- C.JR and C.JALR of a register with bit 0 set, unless that register is the link C.JALR has
just written. -/
def JumpsOdd (insn : BitVec 16) (regs : Reg → Word) : Prop :=
  let i : Word := insn.setWidth 32
  match (i &&& 0x3#32).toNat with
  | 2 =>
    match ((i >>> 13) &&& 0x7#32).toNat with
    | 4 =>
      rs2CR i = 0 ∧ rdCI i ≠ 0 ∧ ¬ Aligned (regs (rdCI i)) ∧
        ((i >>> 12) &&& 0xf#32 = 0x8#32 ∨ rdCI i ≠ 1)
    | _ => False
  | _ => False

theorem decodeQuadrant1_aligned (i : Word) (regs : Reg → Word) {pc : Word} (hpc : Aligned pc) :
    (decodeQuadrant1 i regs pc).TargetAligned := by
  have hj := hpc.add (offsetCJ_aligned i)
  have hb := hpc.add (offsetCB_aligned i)
  intro t ht
  rw [decodeQuadrant1_target] at ht
  split at ht
  · exact Option.some.inj ht ▸ hj
  · exact Option.some.inj ht ▸ hj
  · split_ifs at ht
    exact Option.some.inj ht ▸ hb
  · split_ifs at ht
    exact Option.some.inj ht ▸ hb
  · cases ht

theorem link_aligned_iff {regs : Reg → Word} {pc : Word} (hpc : Aligned pc) (r : Reg) :
    ¬ Aligned (writeReg 1#5 (pc + 2#32) regs r) ↔ ¬ Aligned (regs r) ∧ r ≠ 1#5 := by
  by_cases h1 : r = 1#5
  · have h2 : Aligned (pc + 2#32) := hpc.add (by decide)
    subst h1
    simp [writeReg, h2]
  · simp [writeReg, h1]

theorem decodeQuadrant2_odd_iff {i : Word} {regs : Reg → Word} {pc : Word} (hpc : Aligned pc) :
    (∃ t, (decodeQuadrant2 i regs pc).target = some t ∧ ¬ Aligned t) ↔
      match ((i >>> 13) &&& 0x7#32).toNat with
      | 4 =>
        rs2CR i = 0 ∧ rdCI i ≠ 0 ∧ ¬ Aligned (regs (rdCI i)) ∧
          ((i >>> 12) &&& 0xf#32 = 0x8#32 ∨ rdCI i ≠ 1)
      | _ => False := by
  simp only [decodeQuadrant2_target]
  generalize ((i >>> 13) &&& 0x7#32).toNat = f
  split
  · by_cases hjr : (i >>> 12) &&& 0xf#32 = 0x8#32
    · simp [hjr, and_assoc]
    · simp [hjr, link_aligned_iff hpc, and_assoc]
  · simp

theorem decodeCompressed_odd_iff (insn : BitVec 16) (regs : Reg → Word) {pc : Word}
    (hpc : Aligned pc) :
    (∃ t, (decodeCompressed insn regs pc).target = some t ∧ ¬ Aligned t) ↔
      JumpsOdd insn regs := by
  have hq := toNat_and_lt (insn.setWidth 32) 3 (by decide)
  unfold decodeCompressed JumpsOdd
  dsimp only
  generalize (insn.setWidth 32 &&& 3#32).toNat = q at hq ⊢
  interval_cases q
  · simp [decodeQuadrant0_target]
  · exact iff_of_false (fun ⟨t, ht, hodd⟩ => hodd (decodeQuadrant1_aligned _ _ hpc t ht)) id
  · exact decodeQuadrant2_odd_iff hpc
  · simp [Arm.target]

/-! ## Instructions -/

/-- The fetched instruction sends the pc to an odd address: a compressed jump through an odd
register, or MRET with an odd `mepc`. -/
def State.OddTransfer (s : State δ) : Prop :=
  s.CanFetch ∧
    if IsCompressed (s.fetchedInsn dev) then JumpsOdd ((s.fetchedInsn dev).setWidth 16) s.regs
    else s.fetchedInsn dev = 0x30200073#32 ∧ ¬ Aligned s.csrMepc

theorem retire_pc (s : State δ) (type : InsnType) (nextPc insn : Word) :
    (s.retire type nextPc insn).2.pc = nextPc := by
  obtain ⟨p, hp⟩ := retire_profiler s type nextPc insn
  rw [hp]

theorem executeInstruction_aligned_iff (insn : Word) {s : State δ} (hpc : Aligned s.pc) :
    Aligned (executeInstruction dev insn s).2.pc ↔
      ¬ (insn = 0x30200073#32 ∧ ¬ Aligned s.csrMepc) := by
  have hnext : Aligned (s.pc + 4) := hpc.add (by decide)
  by_cases hsys : opcode insn = 0x73#32
  · rw [executeInstruction, if_pos hsys, executeSystem]
    split_ifs with hf3 htrap hmret
    · have hne : insn ≠ 0x30200073#32 := by
        rcases htrap with rfl | rfl <;> decide
      exact iff_of_true hpc fun h => hne h.1
    · rw [hmret]
      exact ⟨fun h hodd => hodd.2 h, fun h => not_not.1 fun hodd => h ⟨rfl, hodd⟩⟩
    · rw [retire_pc]
      exact iff_of_true hnext fun h => hmret h.1
    · exact iff_of_true hpc fun h => hmret h.1
    · rw [retire_pc]
      exact iff_of_true hnext fun h => hf3 (by rw [h.1]; decide)
  · obtain ⟨p, hrun⟩ := executeInstruction_core dev hsys s
    have htarget := decodeInstruction_aligned insn s.regs hpc
    have hcore := Arm.run_pc dev (s.pc + 4) s.toCore (decodeInstruction_ne_fail insn s.regs s.pc)
    rw [hrun]
    refine iff_of_true ?_ fun h => hsys (by rw [h.1]; decide)
    show Aligned ((decodeInstruction insn s.regs s.pc).2.run dev (s.pc + 4) s.toCore).2.pc
    rw [hcore]
    cases ht : (decodeInstruction insn s.regs s.pc).2.target with
    | none => exact hnext
    | some t => exact htarget t ht

theorem stepPast_aligned_iff {a : Arm} (ha : a ≠ .fail) {c : Core δ} (hpc : Aligned c.pc) :
    Aligned (stepPast c.pc (a.run dev c.pc c).2).pc ↔
      ¬ ∃ t, a.target = some t ∧ ¬ Aligned t := by
  have hrun := Arm.run_pc dev c.pc c ha
  have hnext : Aligned (c.pc + 2) := hpc.add (by decide)
  unfold stepPast
  cases ht : a.target with
  | none =>
    rw [ht, Option.getD_none] at hrun
    rw [if_pos hrun, hrun]
    exact iff_of_true hnext (by simp)
  | some t =>
    rw [ht, Option.getD_some] at hrun
    have hodd : (∃ t', some t = some t' ∧ ¬ Aligned t') ↔ ¬ Aligned t := by simp
    rw [hodd, not_not]
    by_cases hself : t = c.pc
    · rw [if_pos (hrun.trans hself), hrun, hself]
      exact iff_of_true hnext hpc
    · rw [if_neg fun h => hself (hrun.symm.trans h), hrun]

theorem iteration_aligned_iff (profiled : Bool) {s : State δ} (hpc : Aligned s.pc) :
    Aligned (iteration dev profiled s).2.pc ↔ ¬ s.OddTransfer dev := by
  by_cases hf : s.CanFetch
  · have hiff : s.OddTransfer dev ↔ if IsCompressed (s.fetchedInsn dev)
        then JumpsOdd ((s.fetchedInsn dev).setWidth 16) s.regs
        else s.fetchedInsn dev = 0x30200073#32 ∧ ¬ Aligned s.csrMepc := and_iff_right hf
    rw [hiff]
    by_cases hc : IsCompressed (s.fetchedInsn dev)
    · rw [if_pos hc, ← decodeCompressed_odd_iff _ _ hpc]
      rcases iteration_compressed dev profiled hf hc with ⟨ha, hrun⟩ | ⟨ha, p, hrun⟩
      · rw [hrun]
        refine iff_of_true hpc fun ⟨t, ht, _⟩ => ?_
        have hnone : (s.compressedArm dev).target = some t := ht
        rw [ha] at hnone
        cases hnone
      · rw [hrun]
        exact stepPast_aligned_iff dev (c := (s.fetched dev).toCore) ha hpc
    · rw [if_neg hc, iteration_base dev profiled hf hc, stepBase]
      have hexec := executeInstruction_aligned_iff dev (s.fetchedInsn dev) (s := s.fetched dev) hpc
      dsimp only
      split_ifs <;> exact hexec
  · rw [iteration_stop dev profiled hf]
    exact iff_of_true hpc fun h => hf h.1

/-! ## Runs -/

/-- From a reset to an even address, the pc is even throughout a run exactly when no iteration
of it makes an odd transfer. -/
theorem aligned_iff_no_oddTransfer {s : State δ} {startPc : Word} (hinit : s.initialized = true)
    (hstart : Aligned startPc) (calls : List Call) :
    (∀ t, Reached dev calls (rvReset startPc s) t → Aligned t.pc) ↔
      ∀ t, Executed dev calls (rvReset startPc s) t → ¬ t.OddTransfer dev := by
  have hpc : Aligned (rvReset startPc s).pc := by
    rw [rvReset, if_pos hinit]
    exact hstart
  refine reached_iff_executed dev (I := fun t : State δ => Aligned t.pc) ?_ ?_ ?_ hpc calls
  · exact fun t mask ht => ht
  · exact fun t _ => handlerAddress_aligned _ _
  · exact fun u t _ ht => iteration_aligned_iff dev u.profiler.profilingEnabled ht

/-- A no-op in fresh RAM. -/
theorem aligned_nop :
    let s := rvInitFromBuffer (some (programBytes [0x13])) 64 (some fun _ => 0) (State.start ())
    ∀ t, Reached herveStubs [.step 1] (rvReset 0 s) t → Aligned t.pc := by
  intro s
  refine (aligned_iff_no_oddTransfer herveStubs (by decide) (by decide) [.step 1]).2 ?_
  intro t ht
  rw [executed_step_one herveStubs ht]
  rintro ⟨_, hodd⟩
  rw [if_neg (by decide)] at hodd
  exact absurd hodd.1 (by decide)

/-- `addi x1, x0, 5; c.jr x1`. -/
theorem not_aligned_jr :
    ¬ ∀ t, Reached herveStubs [.step 2] (State.booted [0x00500093, 0x8082]) t →
      Aligned t.pc := by
  intro h
  exact absurd (h _ (.inl ⟨[.step 2], List.prefix_rfl, rfl⟩)) (by decide)

end Herve
