import Herve.RiscV.Zicsr
import Herve.Decode.Fields
import Herve.Iss.Execute

/-! The CSR instructions against Zicsr. The register forms are right; the immediate forms
take their operand from the `rd` field, and are right only where that cannot be told. -/

namespace Herve
open RiscV

variable {δ : Type} (dev : Device δ)

/-- The value of each CSR address; `mip` shows one bit of the interrupt mask and an
unimplemented CSR is zero. -/
def State.csrFile (s : State δ) (csr : BitVec 12) : Word :=
  if csr = 0x300#12 then s.csrMstatus
  else if csr = 0x304#12 then s.csrMie
  else if csr = 0x305#12 then s.csrMtvec
  else if csr = 0x341#12 then s.csrMepc
  else if csr = 0x342#12 then s.csrMcause
  else if csr = 0x344#12 then (if s.irqMask &&& 0x80#32 ≠ 0 then 0x80#32 else 0)
  else if csr = 0xB00#12 ∨ csr = 0xB02#12 then s.csrMcycle.setWidth 32
  else if csr = 0xF12#12 then 1
  else 0

def IsWritable (csr : BitVec 12) : Prop :=
  csr = 0x300#12 ∨ csr = 0x304#12 ∨ csr = 0x305#12 ∨ csr = 0x341#12 ∨ csr = 0x342#12
  deriving Decidable

/-- What Zicsr asks of a CSR instruction: the old value in `rd`, the new one in the
addressed CSR if that is writable, and no other change. -/
structure ZicsrStep (i : CsrInstr) (s t : State δ) : Prop where
  regs : ∀ r, t.regs r = if r = i.rd ∧ r ≠ 0 then s.csrFile i.csr else s.regs r
  csr : ∀ a, t.csrFile a =
    if a = i.csr ∧ IsWritable a then i.op.eval (s.csrFile a) (i.src s.regs) else s.csrFile a
  mcycle : t.csrMcycle = s.csrMcycle
  bus : t.toBus = s.toBus

/-- The immediate operand cannot be told from the `rd` field: it is not used, it is the same
number, or the bits where they differ do not show in the result. -/
def OperandFits (i : CsrInstr) (s : State δ) : Prop :=
  i.immediate = true → IsWritable i.csr →
    match i.op with
    | .rw => i.rd = i.field
    | .rs => (i.field ^^^ i.rd).setWidth 32 &&& ~~~(s.csrFile i.csr) = 0
    | .rc => (i.field ^^^ i.rd).setWidth 32 &&& s.csrFile i.csr = 0

/-! ## The read and write switches -/

/-- The switches compare numbers. -/
theorem toNat_csr (a : BitVec 12) {n : ℕ} (hn : n < 4096) :
    (a.setWidth 32).toNat = n ↔ a = BitVec.ofNat 12 n := by
  rw [BitVec.toNat_setWidth, Nat.mod_eq_of_lt (by omega), ← BitVec.toNat_inj, BitVec.toNat_ofNat,
    Nat.mod_eq_of_lt hn]

theorem csrRead_setWidth (s : State δ) (a : BitVec 12) :
    s.csrRead (a.setWidth 32) = s.csrFile a := by
  unfold State.csrRead
  split
  case h_12 h300 h304 h305 h341 h342 h344 hB00 hB02 hF11 hF12 hF14 =>
    rw [toNat_csr a (by decide)] at h300 h304 h305 h341 h342 h344 hB00 hB02 hF12
    rw [State.csrFile, if_neg h300, if_neg h304, if_neg h305, if_neg h341, if_neg h342,
      if_neg h344, if_neg (not_or_intro hB00 hB02), if_neg hF12]
  all_goals
    rename_i h
    rw [(toNat_csr a (by decide)).1 h]
    rfl

theorem csrFile_csrWrite (s : State δ) (a b : BitVec 12) (v : Word) :
    (s.csrWrite (a.setWidth 32) v).csrFile b =
      if b = a ∧ IsWritable b then v else s.csrFile b := by
  unfold State.csrWrite
  split
  case h_6 h300 h304 h305 h341 h342 =>
    rw [toNat_csr a (by decide)] at h300 h304 h305 h341 h342
    rw [if_neg]
    rintro ⟨rfl, h | h | h | h | h⟩
    exacts [h300 h, h304 h, h305 h, h341 h, h342 h]
  all_goals
    rename_i h
    have ha := (toNat_csr a (by decide)).1 h
    by_cases hb : b = a
    · rw [hb, ha]
      simp [State.csrFile, IsWritable]
    · rw [if_neg fun h => hb h.1]
      rw [ha] at hb
      simp [State.csrFile, hb]

theorem csrAddr_iType (imm : BitVec 12) (r1 : Reg) (f3 : BitVec 3) (r : Reg) (op : BitVec 7) :
    csrAddr (iType imm r1 f3 r op) = imm.setWidth 32 := by
  apply BitVec.eq_of_getLsbD_eq
  intro i hi
  simp only [csrAddr, iType, BitVec.getLsbD_setWidth, BitVec.getLsbD_and,
    BitVec.getLsbD_ushiftRight, BitVec.getLsbD_append]
  interval_cases i <;> simp

/-- The operand the source uses. -/
def codeSrc (i : CsrInstr) (x : Reg → Word) : Word :=
  if i.immediate then i.rd.setWidth 32 else x i.field

/-! ## One instruction -/

theorem csrNewValue_eval (op : CsrOp) (b : Bool) (old src : Word) :
    csrNewValue ((BitVec.ofBool b ++ op.funct2).setWidth 32) old src = op.eval old src := by
  cases op <;> cases b <;> simp [csrNewValue, CsrOp.funct2, CsrOp.eval]

theorem funct3_csr (op : CsrOp) (b : Bool) :
    (BitVec.ofBool b ++ op.funct2).setWidth 32 ≠ 0#32 ∧
      ((BitVec.ofBool b ++ op.funct2).setWidth 32 &&& 0x4#32 ≠ 0#32 ↔ b = true) := by
  cases op <;> cases b <;> decide

theorem executeCsr_encode (i : CsrInstr) (s : State δ) :
    executeCsr i.encode s =
      { s.csrWrite (i.csr.setWidth 32) (i.op.eval (s.csrFile i.csr) (codeSrc i s.regs)) with
        regs := writeReg i.rd (s.csrFile i.csr) s.regs } := by
  have hsrc : (if (BitVec.ofBool i.immediate ++ i.op.funct2).setWidth 32 &&& 0x4#32 ≠ 0#32
      then i.rd.setWidth 32 else s.regs i.field) = codeSrc i s.regs := by
    unfold codeSrc
    simp only [(funct3_csr i.op i.immediate).2]
  have hregs : ∀ addr v, (s.csrWrite addr v).regs = s.regs := fun addr v =>
    congrArg Core.regs (csrWrite_frame s addr v).1
  unfold executeCsr
  simp only [CsrInstr.encode, iType_fields, csrAddr_iType, csrRead_setWidth, csrNewValue_eval,
    hregs]
  rw [← hsrc]
  rfl

theorem executeInstruction_csr (i : CsrInstr) (s : State δ) :
    ∃ p, executeInstruction dev i.encode s =
      (true, { s.csrWrite (i.csr.setWidth 32) (i.op.eval (s.csrFile i.csr) (codeSrc i s.regs)) with
        regs := writeReg i.rd (s.csrFile i.csr) s.regs
        pc := s.pc + 4
        profiler := p }) := by
  have hop : opcode i.encode = 0x73#32 := (iType_fields _ _ _ _ _).1
  have hf3 : funct3 i.encode ≠ 0 := by
    rw [CsrInstr.encode, (iType_fields _ _ _ _ _).2.2.1]
    exact (funct3_csr i.op i.immediate).1
  rw [executeInstruction, if_pos hop, executeSystem, if_neg hf3, executeCsr_encode, State.retire]
  obtain ⟨p, hp⟩ := recordInsn_profiler
    { s.csrWrite (i.csr.setWidth 32) (i.op.eval (s.csrFile i.csr) (codeSrc i s.regs)) with
      regs := writeReg i.rd (s.csrFile i.csr) s.regs
      pc := s.pc + 4 } .csr
    (s.csrWrite (i.csr.setWidth 32) (i.op.eval (s.csrFile i.csr) (codeSrc i s.regs))).pc i.encode
  exact ⟨p, congrArg (Prod.mk true) hp⟩

/-! ## When the operand shows -/

theorem or_eq_or_iff (a b c : Word) : a ||| b = a ||| c ↔ (c ^^^ b) &&& ~~~a = 0 := by
  simp only [BitVec.eq_of_getLsbD_eq_iff]
  refine forall₂_congr fun i hi => ?_
  simp only [BitVec.getLsbD_or, BitVec.getLsbD_and, BitVec.getLsbD_xor, BitVec.getLsbD_not, hi]
  cases a.getLsbD i <;> cases b.getLsbD i <;> cases c.getLsbD i <;> simp

theorem and_not_eq_iff (a b c : Word) : a &&& ~~~b = a &&& ~~~c ↔ (c ^^^ b) &&& a = 0 := by
  simp only [BitVec.eq_of_getLsbD_eq_iff]
  refine forall₂_congr fun i hi => ?_
  simp only [BitVec.getLsbD_and, BitVec.getLsbD_xor, BitVec.getLsbD_not, hi]
  cases a.getLsbD i <;> cases b.getLsbD i <;> cases c.getLsbD i <;> simp

theorem eval_codeSrc_iff (i : CsrInstr) (s : State δ) :
    (IsWritable i.csr → i.op.eval (s.csrFile i.csr) (codeSrc i s.regs) =
      i.op.eval (s.csrFile i.csr) (i.src s.regs)) ↔ OperandFits i s := by
  unfold OperandFits codeSrc CsrInstr.src
  cases i.immediate with
  | false => simp
  | true =>
    simp only [if_true, forall_const]
    refine imp_congr_right fun _ => ?_
    -- a write shows the operand itself, a set or clear only its bits that make a difference
    cases i.op with
    | rw =>
      show i.rd.setWidth 32 = i.field.setWidth 32 ↔ i.rd = i.field
      generalize i.rd = r, i.field = f
      revert r f
      decide +kernel
    | rs =>
      rw [BitVec.setWidth_xor]
      exact or_eq_or_iff _ _ _
    | rc =>
      rw [BitVec.setWidth_xor]
      exact and_not_eq_iff _ _ _

theorem writeReg_apply (r : Reg) (v : Word) (regs : Reg → Word) (r' : Reg) :
    writeReg r v regs r' = if r' = r ∧ r' ≠ 0 then v else regs r' := by
  unfold writeReg
  by_cases hr : r = 0
  · rw [if_neg (not_not_intro hr), if_neg]
    rintro ⟨rfl, h0⟩
    exact h0 hr
  · rw [if_pos hr, Function.update_apply]
    by_cases hr' : r' = r
    · rw [if_pos hr', if_pos ⟨hr', hr' ▸ hr⟩]
    · rw [if_neg hr', if_neg fun h => hr' h.1]

theorem zicsrStep_iff (i : CsrInstr) (s : State δ) :
    ZicsrStep i s (executeInstruction dev i.encode s).2 ↔ OperandFits i s := by
  obtain ⟨p, hrun⟩ := executeInstruction_csr dev i s
  obtain ⟨hcore, hcycle⟩ := csrWrite_frame s (i.csr.setWidth 32)
    (i.op.eval (s.csrFile i.csr) (codeSrc i s.regs))
  have hbus : (s.csrWrite (i.csr.setWidth 32)
      (i.op.eval (s.csrFile i.csr) (codeSrc i s.regs))).toBus = s.toBus := congrArg Core.toBus hcore
  have hfile : ∀ a, (executeInstruction dev i.encode s).2.csrFile a =
      if a = i.csr ∧ IsWritable a then i.op.eval (s.csrFile i.csr) (codeSrc i s.regs)
      else s.csrFile a := by
    intro a
    rw [hrun]
    exact csrFile_csrWrite s i.csr a _
  rw [← eval_codeSrc_iff]
  constructor
  · intro h hw
    have hcsr := h.csr i.csr
    rw [hfile, if_pos ⟨rfl, hw⟩, if_pos ⟨rfl, hw⟩] at hcsr
    exact hcsr
  · intro h
    constructor
    · intro r
      rw [hrun]
      exact writeReg_apply i.rd (s.csrFile i.csr) s.regs r
    · intro a
      rw [hfile]
      split_ifs with ha
      · rw [ha.1, h (ha.1 ▸ ha.2)]
      · rfl
    · rw [hrun]
      exact hcycle
    · rw [hrun]
      exact hbus

/-- `csrrwi x1, mstatus, 8` writes 1. -/
theorem not_zicsrStep_csrrwi :
    ¬ ZicsrStep ⟨.rw, true, 1, 8, 0x300⟩ (State.start ())
      (executeInstruction herveStubs (CsrInstr.encode ⟨.rw, true, 1, 8, 0x300⟩)
        (State.start ())).2 := by
  intro h
  exact absurd (h.csr 0x300) (by decide)

end Herve
