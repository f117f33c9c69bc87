import Herve.Decode.Base
import Herve.Decode.Rvc
import Herve.Refine.Hart

/-! Which compressed instructions `execute_compressed` carries out as the instruction each
expands to: the memory instructions against `execute_instruction` on the expansion, the
others against the instruction set itself. -/

namespace Herve
open RiscV

variable {δ : Type} (dev : Device δ)

theorem creg_ne_zero (r : BitVec 3) : creg r ≠ 0 := by
  revert r
  decide

theorem get_creg (h : Hart) (r : BitVec 3) : h.get (creg r) = h.x (creg r) :=
  if_neg (creg_ne_zero r)

theorem get_zero (h : Hart) : h.get 0 = 0 := if_pos rfl

theorem executeCompressed_encode {c : CInstr} (hl : c.Legal) (s : Core δ) :
    executeCompressed dev c.encode s = (cArmOf s.regs s.pc c).run dev s.pc s := by
  rw [executeCompressed, decodeCompressed_encode _ _ hl]

/-! ## Memory instructions -/

/-- The halfword makes the access of the 32-bit expansion, with its address and its data
register, and leaves its registers, memory and devices. -/
structure SameAccess (c : CInstr) (s : State δ) : Prop where
  access : decodeCompressed c.encode s.regs s.pc = (decodeInstruction c.expand.encode s.regs s.pc).2
  ok : (executeCompressed dev c.encode s.toCore).1 = (executeInstruction dev c.expand.encode s).1
  regs : (executeCompressed dev c.encode s.toCore).2.regs =
    (executeInstruction dev c.expand.encode s).2.regs
  bus : (executeCompressed dev c.encode s.toCore).2.toBus =
    (executeInstruction dev c.expand.encode s).2.toBus

/-- The encodings whose offset and data register are decoded as they were encoded. -/
def OffsetFits (c : CInstr) : Prop :=
  match c with
  | .lw .. | .sw .. => c.encode.getLsbD 5 = false
  | .lwsp .. => c.encode.extractLsb' 2 5 = 0#5 ∨ c.encode.extractLsb' 2 5 = 31#5
  | .swsp .. => c.encode = 0xC002#16
  | _ => True

theorem clOffset_eq_iff (imm : BitVec 5) :
    clOffset imm = ((imm ++ 0#2).setWidth 12).signExtend 32 ↔ imm.getLsbD 4 = false := by
  revert imm
  decide

theorem clType_getLsbD_five (f3 : BitVec 3) (imm : BitVec 5) (r1 r : BitVec 3) :
    (clType f3 (imm ++ 0#2) r1 r).getLsbD 5 = imm.getLsbD 4 := by
  simp only [clType, BitVec.getLsbD_append, BitVec.getLsbD_extractLsb']
  simp

theorem lwspOffset_eq_iff (imm : BitVec 6) (r : Reg) :
    lwspOffset imm = ((imm ++ 0#2).setWidth 12).signExtend 32 ↔
      (ciLwspType (imm ++ 0#2) r).extractLsb' 2 5 = 0#5 ∨
        (ciLwspType (imm ++ 0#2) r).extractLsb' 2 5 = 31#5 := by
  have hbits : (ciLwspType (imm ++ 0#2) r).extractLsb' 2 5 =
      imm.extractLsb' 0 3 ++ imm.extractLsb' 4 2 := by
    apply BitVec.eq_of_getLsbD_eq
    intro i hi
    simp only [ciLwspType, BitVec.getLsbD_extractLsb', BitVec.getLsbD_append]
    interval_cases i <;> simp
  rw [hbits]
  clear hbits
  revert imm
  decide

/-- The register field of C.SWSP reaches into the offset field, so only zeros agree. -/
theorem swsp_eq_iff (imm : BitVec 6) (r : Reg) :
    (swspReg imm = r ∧ swspOffset r imm = ((imm ++ 0#2).setWidth 12).signExtend 32) ↔
      cssType (imm ++ 0#2) r = 0xC002#16 := by
  revert imm r
  decide +kernel

theorem cArmOf_memory_iff {c : CInstr} (hm : c.IsMemory) (regs : Reg → Word) (pc : Word) :
    cArmOf regs pc c = armOf regs pc c.expand ↔ OffsetFits c := by
  cases c with
  | lw rd' rs1' imm =>
    simp only [cArmOf, CInstr.expand, armOf, OffsetFits, CInstr.encode, clType_getLsbD_five,
      ← clOffset_eq_iff, Arm.load.injEq, true_and, add_right_inj]
  | sw rs2' rs1' imm =>
    simp only [cArmOf, CInstr.expand, armOf, OffsetFits, CInstr.encode, clType_getLsbD_five,
      ← clOffset_eq_iff, Arm.store.injEq, true_and, add_right_inj]
  | lwsp rd imm =>
    simp only [cArmOf, CInstr.expand, armOf, OffsetFits, CInstr.encode, ← lwspOffset_eq_iff,
      Arm.load.injEq, true_and, add_right_inj]
  | swsp rs2 imm =>
    simp only [cArmOf, CInstr.expand, armOf, OffsetFits, CInstr.encode, ← swsp_eq_iff,
      Arm.store.injEq, true_and, add_right_inj]
  | _ => exact hm.elim

theorem Arm.run_nextPc {a : Arm} (ha : a.access ≠ none) (pc pc' : Word) (s : Core δ) :
    (a.run dev pc s).1 = (a.run dev pc' s).1 ∧
      (a.run dev pc s).2.regs = (a.run dev pc' s).2.regs ∧
      (a.run dev pc s).2.toBus = (a.run dev pc' s).2.toBus := by
  cases a with
  | load op rd addr => exact ⟨rfl, rfl, rfl⟩
  | store op rs2 addr => exact ⟨rfl, rfl, rfl⟩
  | _ => exact absurd rfl ha

theorem sameAccess_iff {c : CInstr} (hl : c.Legal) (hm : c.IsMemory) (s : State δ) :
    SameAccess dev c s ↔ OffsetFits c := by
  have harm : decodeCompressed c.encode s.regs s.pc =
      (decodeInstruction c.expand.encode s.regs s.pc).2 ↔ OffsetFits c := by
    rw [decodeCompressed_encode _ _ hl, decodeInstruction_encode, cArmOf_memory_iff hm]
  refine ⟨fun h => harm.1 h.access, fun h => ?_⟩
  have heq := harm.2 h
  have hacc : (decodeCompressed c.encode s.regs s.pc).access ≠ none := by
    rw [decodeCompressed_encode _ _ hl]
    cases c <;> first | exact hm.elim | exact Option.some_ne_none _
  obtain ⟨p, hrun⟩ := executeCore_arm dev c.expand.encode s
  have hexec : executeInstruction dev c.expand.encode s =
      (((decodeCompressed c.encode s.regs s.pc).run dev (s.pc + 4) s.toCore).1,
        { s with
          toCore := ((decodeCompressed c.encode s.regs s.pc).run dev (s.pc + 4) s.toCore).2
          profiler := p }) := by
    rw [executeInstruction, if_neg (opcode_encode_ne_system _), hrun, heq]
  obtain ⟨hok, hregs, hbus⟩ := Arm.run_nextPc dev hacc s.pc (s.pc + 4) s.toCore
  constructor
  · exact heq
  · rw [hexec]
    exact hok
  · rw [hexec]
    exact hregs
  · rw [hexec]
    exact hbus

theorem sameAccess_lw : SameAccess herveStubs (.lw 0 1 15) (State.start ()) :=
  (sameAccess_iff (c := .lw 0 1 15) herveStubs trivial trivial _).2 rfl

/-- `c.lw x8, 64(x8)` reads from offset 2. -/
theorem not_sameAccess_lw : ¬ SameAccess herveStubs (.lw 0 0 16) (State.start ()) := by
  intro h
  exact absurd h.access (by decide)

/-! ## Control transfers -/

/-- The halfword transfers control as its expansion does; a branch not taken leaves the pc
to the caller. -/
structure SameTransfer (c : CInstr) (s : Core δ) : Prop where
  ok : (executeCompressed dev c.encode s).1 = true
  regs : (executeCompressed dev c.encode s).2.regs = (c.expand.exec 2 s.hart).x
  pc : (executeCompressed dev c.encode s).2.pc =
    if c.expand.transfers s.hart then (c.expand.exec 2 s.hart).pc else s.pc
  bus : (executeCompressed dev c.encode s).2.toBus = s.toBus

/-- The transfers that reach the target of their expansion. -/
def TargetFits (c : CInstr) (s : Core δ) : Prop :=
  match c with
  | .beqz rs1' _ => c.encode.getLsbD 6 = false ∨ s.regs (creg rs1') ≠ 0
  | .bnez rs1' _ => c.encode.getLsbD 6 = false ∨ s.regs (creg rs1') = 0
  | .jr rs1 => (s.regs rs1).getLsbD 0 = false
  | .jalr rs1 =>
    if rs1 = 1 then s.regs 1 &&& ~~~1#32 = s.pc + 2 else (s.regs rs1).getLsbD 0 = false
  | _ => True

theorem cbOffset_eq_iff (imm : BitVec 8) :
    cbOffset imm = (imm.signExtend 12 ++ 0#1).signExtend 32 ↔ imm.getLsbD 6 = false := by
  revert imm
  decide +kernel

theorem cbType_getLsbD_six (f3 : BitVec 3) (imm : BitVec 8) (r1 : BitVec 3) :
    (cbType f3 (imm ++ 0#1) r1).getLsbD 6 = imm.getLsbD 6 := by
  simp only [cbType, BitVec.getLsbD_append, BitVec.getLsbD_extractLsb']
  simp

theorem cjOffset_eq (imm : BitVec 11) :
    (imm.signExtend 20 ++ 0#1).signExtend 32 = (imm ++ 0#1).signExtend 32 := by
  have hwide : (imm.signExtend 20 ++ 0#1).toInt = (imm ++ 0#1).toInt := by
    rw [BitVec.toInt_append_zero, BitVec.toInt_append_zero,
      BitVec.toInt_signExtend_of_le (by decide)]
  exact congrArg (BitVec.ofInt 32) hwide

theorem eq_and_not_one_iff (v : Word) : v = v &&& ~~~1#32 ↔ v.getLsbD 0 = false := by
  constructor
  · intro h
    rw [h]
    simp
  · intro h
    apply BitVec.eq_of_getLsbD_eq
    intro i hi
    rw [BitVec.getLsbD_and, BitVec.getLsbD_not]
    rcases i with _ | i
    · rw [h, Bool.false_and]
    · simp [hi]

theorem writeReg_eq_set (h : Hart) (r : Reg) (v : Word) : writeReg r v h.x = (h.set r v).x := by
  unfold writeReg Hart.set
  by_cases hr : r = 0
  · rw [if_neg (not_not_intro hr), if_pos hr]
  · rw [if_pos hr, if_neg hr]

theorem control_frame {c : CInstr} (hc : c.IsControl) (s : Core δ) :
    ((cArmOf s.regs s.pc c).run dev s.pc s).1 = true ∧
      ((cArmOf s.regs s.pc c).run dev s.pc s).2.regs = (c.expand.exec 2 s.hart).x ∧
      ((cArmOf s.regs s.pc c).run dev s.pc s).2.toBus = s.toBus := by
  cases c with
  | j imm => exact ⟨rfl, rfl, rfl⟩
  | jal imm => exact ⟨rfl, writeReg_eq_set s.hart 1 (s.pc + 2), rfl⟩
  | jr rs1 => exact ⟨rfl, rfl, rfl⟩
  | jalr rs1 => exact ⟨rfl, writeReg_eq_set s.hart 1 (s.pc + 2), rfl⟩
  | beqz rs1' imm =>
    rw [cArmOf]
    split_ifs <;> exact ⟨rfl, rfl, rfl⟩
  | bnez rs1' imm =>
    rw [cArmOf]
    split_ifs <;> exact ⟨rfl, rfl, rfl⟩
  | _ => exact hc.elim

theorem branch_zero (s : Core δ) (op : Branch) (r : BitVec 3) (imm : BitVec 12) :
    (Instr.branch op (creg r) 0 imm).transfers s.hart = op.taken (s.regs (creg r)) 0 ∧
      ((Instr.branch op (creg r) 0 imm).exec 2 s.hart).pc =
        if op.taken (s.regs (creg r)) 0 then s.pc + (imm ++ 0#1).signExtend 32 else s.pc + 2 := by
  rw [Instr.transfers, Instr.exec, get_creg, get_zero]
  exact ⟨rfl, rfl⟩

theorem control_pc_iff {c : CInstr} (hl : c.Legal) (hc : c.IsControl) (s : Core δ) :
    ((cArmOf s.regs s.pc c).run dev s.pc s).2.pc =
        (if c.expand.transfers s.hart then (c.expand.exec 2 s.hart).pc else s.pc) ↔
      TargetFits c s := by
  cases c with
  | j imm =>
    refine iff_of_true ?_ trivial
    exact congrArg (s.pc + ·) (cjOffset_eq imm).symm
  | jal imm =>
    refine iff_of_true ?_ trivial
    exact congrArg (s.pc + ·) (cjOffset_eq imm).symm
  | jr rs1 =>
    have hget : s.hart.get rs1 = s.regs rs1 := if_neg hl
    simp only [cArmOf, Arm.run, CInstr.expand, Instr.transfers, Instr.exec, Hart.goto, hget,
      TargetFits, if_true]
    simpa using eq_and_not_one_iff (s.regs rs1)
  | jalr rs1 =>
    have hget : s.hart.get rs1 = s.regs rs1 := if_neg hl
    simp only [cArmOf, Arm.run, CInstr.expand, Instr.transfers, Instr.exec, Hart.goto, hget,
      TargetFits, if_true]
    -- the source reads the target after it has written the link
    by_cases h1 : rs1 = 1#5
    · subst h1
      simp [writeReg, eq_comm]
    · simpa [writeReg, h1] using eq_and_not_one_iff (s.regs rs1)
  | beqz rs1' imm =>
    obtain ⟨htaken, hpc⟩ := branch_zero s .beq rs1' (imm.signExtend 12)
    rw [CInstr.expand, htaken, hpc]
    by_cases h0 : s.regs (creg rs1') = 0#32
    · simp [cArmOf, Arm.run, h0, TargetFits, CInstr.encode, Branch.taken, cbOffset_eq_iff,
        -BitVec.getLsbD_eq_getElem, cbType_getLsbD_six]
    · simp [cArmOf, Arm.run, h0, TargetFits, Branch.taken]
  | bnez rs1' imm =>
    obtain ⟨htaken, hpc⟩ := branch_zero s .bne rs1' (imm.signExtend 12)
    rw [CInstr.expand, htaken, hpc]
    by_cases h0 : s.regs (creg rs1') = 0#32
    · simp [cArmOf, Arm.run, h0, TargetFits, Branch.taken]
    · simp [cArmOf, Arm.run, h0, TargetFits, CInstr.encode, Branch.taken, cbOffset_eq_iff,
        -BitVec.getLsbD_eq_getElem, cbType_getLsbD_six]
  | _ => exact hc.elim

theorem sameTransfer_iff {c : CInstr} (hl : c.Legal) (hc : c.IsControl) (s : Core δ) :
    SameTransfer dev c s ↔ TargetFits c s := by
  obtain ⟨hok, hregs, hbus⟩ := control_frame dev hc s
  rw [← control_pc_iff dev hl hc s, ← executeCompressed_encode dev hl s]
  rw [← executeCompressed_encode dev hl s] at hok hregs hbus
  exact ⟨fun h => h.pc, fun h => ⟨hok, hregs, h, hbus⟩⟩

theorem sameTransfer_beqz : SameTransfer herveStubs (.beqz 0 0) (State.start ()).toCore :=
  (sameTransfer_iff (c := .beqz 0 0) herveStubs trivial trivial _).2 (.inl rfl)

/-- A taken `c.beqz x8, 128` stays where it is. -/
theorem not_sameTransfer_beqz :
    ¬ SameTransfer herveStubs (.beqz 0 64) (State.start ()).toCore := by
  intro h
  exact absurd h.pc (by decide)

/-! ## Computation -/

/-- The halfword writes the registers its expansion writes, and nothing else. -/
def SameResult (c : CInstr) (s : Core δ) : Prop :=
  executeCompressed dev c.encode s = (true, { s with regs := (c.expand.exec 2 s.hart).x })

/-- C.ADDI16SP permutes its immediate, which shows unless the permuted bits are all alike. -/
def ImmediateFits (c : CInstr) : Prop :=
  match c with
  | .addi16sp _ => c.encode.extractLsb' 2 5 = 0#5 ∨ c.encode.extractLsb' 2 5 = 31#5
  | _ => True

theorem addi16spImm_eq_iff (imm : BitVec 6) :
    addi16spImm imm = ((imm ++ 0#4).signExtend 12).signExtend 32 ↔
      (ci16spType (imm ++ 0#4)).extractLsb' 2 5 = 0#5 ∨
        (ci16spType (imm ++ 0#4)).extractLsb' 2 5 = 31#5 := by
  revert imm
  decide +kernel

theorem compute_immediates :
    (∀ imm : BitVec 8, ((imm ++ 0#2).setWidth 12).signExtend 32 = (imm ++ 0#2).setWidth 32) ∧
    (∀ imm : BitVec 6, (imm.signExtend 12).signExtend 32 = imm.signExtend 32) ∧
    ∀ imm : BitVec 6, imm.signExtend 20 ++ 0#12 = imm.signExtend 32 <<< 12 := by
  decide +kernel

theorem run_writeReg (s : Core δ) (r : Reg) {v v' : Word} (h : r ≠ 0 → v = v') :
    (Arm.writeReg r v).run dev s.pc s = (true, { s with regs := (s.hart.set r v').x }) := by
  have hw : writeReg r v s.regs = (s.hart.set r v).x := writeReg_eq_set s.hart r v
  rw [Arm.run, hw]
  by_cases hr : r = 0
  · rw [Hart.set, Hart.set, if_pos hr, if_pos hr]
  · rw [h hr]

/-- A skipped instruction is a hint, or would have written back what the register held. -/
theorem run_skip (s : Core δ) (r : Reg) {v : Word} (h : r ≠ 0 → v = s.regs r) :
    Arm.skip.run dev s.pc s = (true, { s with regs := (s.hart.set r v).x }) := by
  rw [Arm.run, Hart.set]
  split_ifs with hr
  · rfl
  · rw [h hr]
    exact congrArg (fun x => (true, { s with regs := x })) (Function.update_eq_self r s.regs).symm

theorem get_of_ne {h : Hart} {r : Reg} (hr : r ≠ 0) : h.get r = h.x r := if_neg hr

theorem compute_run {c : CInstr} (hl : c.Legal) (hc : c.IsCompute) (hfit : ImmediateFits c)
    (s : Core δ) : (cArmOf s.regs s.pc c).run dev s.pc s =
      (true, { s with regs := (c.expand.exec 2 s.hart).x }) := by
  obtain ⟨him8, him6, hlui⟩ := compute_immediates
  cases c with
  | addi4spn rd' imm =>
    refine run_writeReg dev s (creg rd') fun _ => ?_
    rw [him8 imm, get_of_ne (by decide)]
    rfl
  | addi rd imm =>
    rw [cArmOf]
    split_ifs with hr
    · exact run_skip dev s rd fun h => absurd hr h
    · refine run_writeReg dev s rd fun _ => ?_
      rw [him6 imm, get_of_ne hr]
      rfl
  | li rd imm =>
    refine run_writeReg dev s rd fun _ => ?_
    rw [him6 imm, get_zero]
    exact (BitVec.zero_add _).symm
  | addi16sp imm =>
    refine run_writeReg dev s 2 fun _ => ?_
    rw [(addi16spImm_eq_iff imm).2 hfit, get_of_ne (by decide)]
    rfl
  | lui rd imm =>
    rw [cArmOf]
    split_ifs with hr
    · exact run_skip dev s rd fun h => absurd hr h
    · exact run_writeReg dev s rd fun _ => (hlui imm).symm
  | srli rd' shamt =>
    rw [cArmOf]
    split_ifs with h0
    · refine run_skip dev s (creg rd') fun _ => ?_
      rw [get_creg, h0]
      exact BitVec.ushiftRight_zero _
    · refine run_writeReg dev s (creg rd') fun _ => ?_
      rw [get_creg]
      rfl
  | srai rd' shamt =>
    rw [cArmOf]
    split_ifs with h0
    · refine run_skip dev s (creg rd') fun _ => ?_
      rw [get_creg, h0]
      exact BitVec.sshiftRight_zero
    · refine run_writeReg dev s (creg rd') fun _ => ?_
      rw [get_creg]
      rfl
  | andi rd' imm =>
    refine run_writeReg dev s (creg rd') fun _ => ?_
    rw [him6 imm, get_creg]
    rfl
  | sub rd' rs2' | xor rd' rs2' | or rd' rs2' | and rd' rs2' =>
    refine run_writeReg dev s (creg rd') fun _ => ?_
    rw [get_creg, get_creg]
    rfl
  | slli rd shamt =>
    rw [cArmOf]
    split_ifs with h0
    · refine run_skip dev s rd fun hr => ?_
      rw [get_of_ne hr, h0]
      exact BitVec.shiftLeft_zero _
    · refine run_writeReg dev s rd fun hr => ?_
      rw [get_of_ne hr]
      rfl
  | mv rd rs2 =>
    refine run_writeReg dev s rd fun _ => ?_
    rw [get_zero, get_of_ne hl]
    exact (BitVec.zero_add _).symm
  | add rd rs2 =>
    refine run_writeReg dev s rd fun hr => ?_
    rw [get_of_ne hr, get_of_ne hl]
    rfl
  | lw | sw | lwsp | swsp => exact absurd trivial hc.1
  | jal | j | beqz | bnez | jr | jalr => exact absurd trivial hc.2

/-- A wrong immediate of C.ADDI16SP shows in `sp`, whatever `sp` was. -/
theorem imm_of_sameResult (imm : BitVec 6) (s : Core δ)
    (h : (cArmOf s.regs s.pc (.addi16sp imm)).run dev s.pc s =
      (true, { s with regs := ((CInstr.addi16sp imm).expand.exec 2 s.hart).x })) :
    ImmediateFits (.addi16sp imm) := by
  have hsp : writeReg 2 (s.regs 2 + addi16spImm imm) s.regs 2 =
      ((CInstr.addi16sp imm).expand.exec 2 s.hart).x 2 :=
    congrArg (fun r : Bool × Core δ => r.2.regs 2) h
  have hspec : ((CInstr.addi16sp imm).expand.exec 2 s.hart).x 2 =
      s.regs 2 + ((imm ++ 0#4).signExtend 12).signExtend 32 := rfl
  rw [hspec] at hsp
  exact (addi16spImm_eq_iff imm).1 (add_left_cancel hsp)

theorem sameResult_iff {c : CInstr} (hl : c.Legal) (hc : c.IsCompute) (s : Core δ) :
    SameResult dev c s ↔ ImmediateFits c := by
  rw [SameResult, executeCompressed_encode dev hl]
  refine ⟨fun h => ?_, fun hfit => compute_run dev hl hc hfit s⟩
  cases c with
  | addi16sp imm => exact imm_of_sameResult dev imm s h
  | _ => trivial

theorem sameResult_addi16sp : SameResult herveStubs (.addi16sp 31) (State.start ()).toCore :=
  (sameResult_iff (c := .addi16sp 31) herveStubs (by decide) ⟨id, id⟩ _).2 (.inr rfl)

/-- `c.addi16sp sp, 16` adds 256. -/
theorem not_sameResult_addi16sp :
    ¬ SameResult herveStubs (.addi16sp 1) (State.start ()).toCore := by
  intro h
  have hsp := congrArg (fun r : Bool × Core Unit => r.2.regs 2) h
  exact absurd hsp (by decide)

end Herve
