import Herve.RiscV.Machine
import Herve.Lib.Paths
import Herve.Refine.Base
import Herve.Refine.MulDiv
import Herve.Refine.Rvc
import Herve.Run.Accounting

/-! `rv_step` carries out RV32IMC programs: as long as each instruction on the way is one the
emulator decodes as the manual does, a call executes the run of the hart it implements. -/

namespace Herve
open RiscV Paths

variable {δ : Type} (dev : Device δ)

/-! ## What the emulator carries out -/

/-- The immediates, the registers and the target of the instruction are decoded as they were
encoded, and a compressed transfer does not lead back to itself. -/
def DecodesAlike (s : Core δ) : Insn → Prop
  | .compressed c => OffsetFits c ∧ ImmediateFits c ∧ TargetFits c s ∧
      (c.expand.exec 2 s.hart).pc ≠ s.pc
  | _ => True

/-- The fetch of four bytes and the data access stay in RAM, and the decoders agree. -/
structure Carries (s : Core δ) (i : Insn) : Prop where
  fetch : s.RamAccess s.pc 4
  data : ∀ addr w, i.access s.hart = some (addr, w) → s.RamAccess addr w
  decodes : DecodesAlike s i

theorem targetFits_congr {s s' : Core δ} (hhart : s'.hart = s.hart) {c : CInstr}
    (h : TargetFits c s) : TargetFits c s' := by
  have hx : s'.regs = s.regs := congrArg Hart.x hhart
  have hpc : s'.pc = s.pc := congrArg Hart.pc hhart
  cases c with
  | beqz | bnez | jr | jalr =>
    unfold TargetFits at h ⊢
    rwa [hx, hpc] at *
  | _ => trivial

theorem Bus.RamAccess.congr {b b' : Bus δ} (hbase : b'.memoryBase = b.memoryBase)
    (hsize : b'.memorySize = b.memorySize) {addr : Word} {w : ℕ} (h : b.RamAccess addr w) :
    b'.RamAccess addr w where
  not_htif := h.not_htif
  not_mmio := h.not_mmio
  base_le := hbase ▸ h.base_le
  lt_size := by
    rw [hbase, hsize]
    exact h.lt_size

/-- What is carried out depends on the hart and on where RAM lies. -/
theorem Carries.congr {s s' : Core δ} (hhart : s'.hart = s.hart)
    (hbase : s'.memoryBase = s.memoryBase) (hsize : s'.memorySize = s.memorySize) {i : Insn}
    (h : Carries s i) : Carries s' i where
  fetch := by
    have hpc : s'.pc = s.pc := congrArg Hart.pc hhart
    rw [hpc]
    exact h.fetch.congr hbase hsize
  data := by
    rw [hhart]
    exact fun addr w ha => (h.data addr w ha).congr hbase hsize
  decodes := by
    have hpc : s'.pc = s.pc := congrArg Hart.pc hhart
    cases i with
    | compressed c =>
      obtain ⟨hoffset, himmediate, htarget, hmoves⟩ := h.decodes
      refine ⟨hoffset, himmediate, targetFits_congr hhart htarget, ?_⟩
      rwa [hhart, hpc]
    | _ => trivial

/-! ## One instruction -/

/-- A state without the hart, the cycle count, the log and the profiler's figures. -/
def State.system (s : State δ) : State δ :=
  { s with
    memory := fun _ => 0
    regs := fun _ => 0
    pc := 0
    csrMcycle := 0
    trace := []
    profiler := (State.start s.device).profiler }

theorem system_toCore (s : State δ) {c : Core δ} (h : SameBus s.toBus c.toBus) (p : Profiler) :
    { s with toCore := c, profiler := p }.system = s.system := by
  obtain ⟨h1, h2, h3, h4, h5, h6, h7, h8, h9, h10, h11⟩ := h
  simp only [State.system, h1, h2, h3, h4, h5, h6, h7, h8, h9, h10, h11]

/-- The arm of a 32-bit instruction. -/
def Insn.arm (regs : Reg → Word) (pc : Word) : Insn → Arm
  | .base i => armOf regs pc i
  | .mulDiv op rd rs1 rs2 => .writeReg rd (op.eval (regs rs1) (regs rs2))
  | .compressed c => cArmOf regs pc c

theorem stepBase_carried {s : State δ} {insn : Word} {a : Arm} {h : Hart}
    (hsys : opcode insn ≠ 0x73#32) (ha : (decodeInstruction insn s.regs s.pc).2 = a)
    (hfail : a ≠ .fail) (hacc : ∀ addr w, a.access = some (addr, w) → s.RamAccess addr w)
    (hexec : a.exec (s.pc + 4) s.hart = h) :
    (stepBase dev insn s).1 = true ∧ (stepBase dev insn s).2.hart = h ∧
      (stepBase dev insn s).2.system = s.system := by
  obtain ⟨hok, hhart, hbus⟩ := Arm.run_hart dev (s.pc + 4) hfail hacc
  obtain ⟨p, hrun⟩ := executeCore_arm dev insn s
  rw [ha, hok] at hrun
  rw [stepBase, executeInstruction, if_neg hsys, hrun]
  exact ⟨rfl, hhart.trans hexec, system_toCore s hbus p⟩

/-! ## Compressed instructions -/

theorem exec_pc_of_not_transfers {i : Instr} {h : Hart} (ht : i.transfers h = false) (len : Word) :
    (i.exec len h).pc = h.pc + len := by
  cases i with
  | jal rd imm => exact Bool.noConfusion ht
  | jalr rd rs1 imm => exact Bool.noConfusion ht
  | branch op rs1 rs2 imm =>
    rw [Instr.transfers] at ht
    rw [Instr.exec, ht]
    rfl
  | _ => rfl

theorem set_mem (h : Hart) (r : Reg) (v : Word) : (h.set r v).mem = h.mem := by
  unfold Hart.set
  split_ifs <;> rfl

theorem exec_mem_of_not_memory {c : CInstr} (hm : ¬ c.IsMemory) (h : Hart) (len : Word) :
    (c.expand.exec len h).mem = h.mem := by
  cases c with
  | lw | sw | lwsp | swsp => exact absurd trivial hm
  | beqz | bnez => rfl
  | _ => exact set_mem h _ _

theorem expand_transfers_of_not_control {c : CInstr} (hc : ¬ c.IsControl) (h : Hart) :
    c.expand.transfers h = false := by
  cases c with
  | jal | j | beqz | bnez | jr | jalr => exact absurd trivial hc
  | _ => rfl

theorem stepPast_hart {pc : Word} {c : Core δ} {h : Hart} (hx : c.regs = h.x)
    (hmem : c.hart.mem = h.mem) (hpc : (if c.pc = pc then pc + 2 else c.pc) = h.pc) :
    (stepPast pc c).hart = h := by
  obtain ⟨hpc', x, mem⟩ := h
  dsimp only at hx hmem hpc
  subst hx hmem hpc
  unfold stepPast
  split_ifs with heq
  · rw [← heq]
    rfl
  · rfl

theorem armOf_expand_exec {c : CInstr} (hm : c.IsMemory) {h : Hart} (h0 : h.x 0 = 0)
    (nextPc : Word) :
    (armOf h.x h.pc c.expand).exec nextPc h = (c.expand.exec 2 h).goto nextPc := by
  cases c with
  | lw | lwsp =>
    rw [CInstr.expand, armOf, Arm.exec, Instr.exec, get_eq h0]
    rfl
  | sw | swsp =>
    rw [CInstr.expand, armOf, Arm.exec, Instr.exec, get_eq h0, get_eq h0]
    rfl
  | _ => exact hm.elim

/-- What `execute_compressed` leaves to the `pc += 2` of the loops. -/
structure CompressedCarried (c : CInstr) (s s' : Core δ) : Prop where
  regs : s'.regs = (c.expand.exec 2 s.hart).x
  mem : s'.hart.mem = (c.expand.exec 2 s.hart).mem
  pc : s'.pc = if c.expand.transfers s.hart then (c.expand.exec 2 s.hart).pc else s.pc
  bus : SameBus s.toBus s'.toBus

theorem memory_carried {c : CInstr} (hm : c.IsMemory) {s : Core δ} (h0 : s.regs 0 = 0)
    (hfit : OffsetFits c)
    (hacc : ∀ addr w, c.expand.access s.hart = some (addr, w) → s.RamAccess addr w) :
    ((cArmOf s.regs s.pc c).run dev s.pc s).1 = true ∧
      CompressedCarried c s ((cArmOf s.regs s.pc c).run dev s.pc s).2 := by
  rw [(cArmOf_memory_iff hm s.regs s.pc).2 hfit]
  have haccess : ∀ addr w, (armOf s.regs s.pc c.expand).access = some (addr, w) →
      s.RamAccess addr w := fun addr w ha => hacc addr w (armOf_access (h := s.hart) h0 _ ▸ ha)
  have hcontrol : ¬ c.IsControl := fun hc => by cases c <;> first | exact hm | exact hc
  obtain ⟨hok, hhart, hbus⟩ :=
    Arm.run_hart dev s.pc (armOf_ne_fail s.regs s.pc c.expand) haccess
  have hexec := hhart.trans (armOf_expand_exec (h := s.hart) hm h0 s.pc)
  refine ⟨hok, (congrArg Hart.x hexec).trans rfl, (congrArg Hart.mem hexec).trans rfl, ?_, hbus⟩
  rw [expand_transfers_of_not_control hcontrol]
  exact congrArg Hart.pc hexec

theorem control_carried {c : CInstr} (hl : c.Legal) (hc : c.IsControl) {s : Core δ}
    (hfit : TargetFits c s) :
    ((cArmOf s.regs s.pc c).run dev s.pc s).1 = true ∧
      CompressedCarried c s ((cArmOf s.regs s.pc c).run dev s.pc s).2 := by
  obtain ⟨hok, hregs, hbus⟩ := control_frame dev hc s
  have hmemory : ¬ c.IsMemory := fun hm => by cases c <;> first | exact hm | exact hc
  refine ⟨hok, hregs, ?_, (control_pc_iff dev hl hc s).2 hfit, hbus ▸ .refl _⟩
  rw [exec_mem_of_not_memory hmemory, Core.hart, hbus]
  rfl

theorem compute_carried {c : CInstr} (hl : c.Legal) (hc : c.IsCompute) {s : Core δ}
    (hfit : ImmediateFits c) :
    ((cArmOf s.regs s.pc c).run dev s.pc s).1 = true ∧
      CompressedCarried c s ((cArmOf s.regs s.pc c).run dev s.pc s).2 := by
  rw [compute_run dev hl hc hfit]
  refine ⟨rfl, rfl, (exec_mem_of_not_memory hc.1 s.hart 2).symm, ?_, .refl _⟩
  rw [expand_transfers_of_not_control hc.2]
  rfl

theorem executeCompressed_carried {c : CInstr} (hl : c.Legal) {s : Core δ} (h0 : s.regs 0 = 0)
    (hs : Carries s (.compressed c)) :
    (executeCompressed dev c.encode s).1 = true ∧
      CompressedCarried c s (executeCompressed dev c.encode s).2 := by
  obtain ⟨hoffset, himmediate, htarget, -⟩ := hs.decodes
  rw [executeCompressed_encode dev hl]
  by_cases hm : c.IsMemory
  · exact memory_carried dev hm h0 hoffset hs.data
  by_cases hc : c.IsControl
  · exact control_carried dev hl hc htarget
  · exact compute_carried dev hl ⟨hm, hc⟩ himmediate

theorem stepCompressed_carried {c : CInstr} (hl : c.Legal) {s : State δ} (h0 : s.regs 0 = 0)
    (hs : Carries s.toCore (.compressed c)) (profiled : Bool) :
    (stepCompressed dev profiled c.encode s).1 = true ∧
      (stepCompressed dev profiled c.encode s).2.hart = c.expand.exec 2 s.hart ∧
      (stepCompressed dev profiled c.encode s).2.system = s.system := by
  obtain ⟨hok, hregs, hmem, hpc, hbus⟩ := executeCompressed_carried dev hl h0 hs
  obtain ⟨-, -, -, hmoves⟩ := hs.decodes
  have hhart : (stepPast s.pc (executeCompressed dev c.encode s.toCore).2).hart =
      c.expand.exec 2 s.hart := by
    refine stepPast_hart hregs hmem ?_
    rw [hpc]
    cases ht : c.expand.transfers s.hart with
    | true => exact if_neg hmoves
    | false => exact (if_pos rfl).trans (exec_pc_of_not_transfers ht 2).symm
  have hstep : SameBus s.toBus
      (stepPast s.pc (executeCompressed dev c.encode s.toCore).2).toBus := by
    rw [stepPast_toBus]
    exact hbus
  have hrun : ∃ p, stepCompressed dev profiled c.encode s =
      (true, { s with
        toCore := stepPast s.pc (executeCompressed dev c.encode s.toCore).2
        profiler := p }.count (c.encode.setWidth 32)) := by
    rw [stepCompressed]
    simp only [hok]
    exact ⟨_, rfl⟩
  obtain ⟨p, hrun⟩ := hrun
  rw [hrun]
  exact ⟨rfl, hhart, system_toCore s hstep p⟩

/-! ## One iteration -/

theorem fetch_carried {s : State δ} (hrunning : s.htifHalted = false)
    (h : s.RamAccess s.pc 4) :
    s.CanFetch ∧ s.fetchedInsn dev = s.hart.load 4 s.pc ∧ ∃ e, s.fetched dev = s.log e := by
  have hv : s.validMemoryAccess s.pc 4 = true := h.valid (by decide)
  obtain ⟨hinsn, hfetched⟩ := fetched_ram dev hv h.not_htif h.not_mmio
  exact ⟨⟨hrunning, hv⟩, hinsn.trans (s.memcpyFrom_hart h (by decide)), _, hfetched⟩

theorem iteration_carried {s : State δ} {i : Insn} (hrunning : s.htifHalted = false)
    (h0 : s.regs 0 = 0) (hi : i.StandsAt s.hart) (hs : Carries s.toCore i) (profiled : Bool) :
    (iteration dev profiled s).1 = true ∧ (iteration dev profiled s).2.hart = i.exec s.hart ∧
      (iteration dev profiled s).2.system = s.system := by
  obtain ⟨hf, hinsn, e, hfetched⟩ := fetch_carried dev hrunning hs.fetch
  have hlog : (s.log e).system = s.system := rfl
  replace hs := @Carries.congr δ s.toCore (s.log e).toCore rfl rfl rfl i hs
  rw [iteration_parcel dev profiled hf, hfetched, hinsn, ← hlog]
  cases i with
  | base i =>
    have hbits : s.hart.load 4 s.pc = i.encode := hi.bits
    have hacc : ∀ addr w, (armOf s.regs s.pc i).access = some (addr, w) →
        (s.log e).RamAccess addr w :=
      fun addr w ha => hs.data addr w ((armOf_access (h := s.hart) h0 i).symm.trans ha)
    rw [hbits, parcelOf, if_neg (not_isCompressed_encode i)]
    exact stepBase_carried dev (opcode_encode_ne_system i) (decodeInstruction_encode _ _ i)
      (armOf_ne_fail _ _ i) hacc (armOf_exec (h := s.hart) h0 i)
  | mulDiv op r r1 r2 =>
    have hbits : s.hart.load 4 s.pc = op.encode r r1 r2 := hi.bits
    have hsys : opcode (op.encode r r1 r2) ≠ 0x73#32 := by simp [MulDiv.encode]
    have hexec : (Arm.writeReg r (op.eval (s.regs r1) (s.regs r2))).exec (s.pc + 4) s.hart =
        (Insn.mulDiv op r r1 r2).exec s.hart := by
      rw [Arm.exec, Insn.exec, get_eq h0, get_eq h0]
      rfl
    rw [hbits, parcelOf, if_neg (not_isCompressed_mulDiv op r r1 r2)]
    exact stepBase_carried dev hsys (congrArg Prod.snd (decodeInstruction_mulDiv op r r1 r2 _ _))
      Arm.noConfusion (fun _ _ ha => absurd ha (Option.some_ne_none _).symm) hexec
  | compressed c =>
    have hhalf : s.hart.load 2 s.pc = c.encode.setWidth 32 := hi.bits
    have hlow : IsCompressed (s.hart.load 4 s.pc) := by
      refine (isCompressed_fromBytes 3 _).2 ((isCompressed_fromBytes 1 _).1 ?_)
      show IsCompressed (s.hart.load 2 s.pc)
      rw [hhalf]
      exact isCompressed_encode c
    have hbits : (s.hart.load 4 s.pc).setWidth 16 = c.encode := by
      refine (setWidth_fromBytes _).trans ((congrArg (·.setWidth 16) hhalf).trans ?_)
      exact BitVec.setWidth_setWidth_of_le c.encode (by decide)
    rw [parcelOf, if_pos hlow, hbits]
    exact stepCompressed_carried (s := s.log e) dev hi.legal h0 hs profiled

/-! ## Runs -/

/-- A hart in place of the emulator's own. -/
def Core.withHart (s : Core δ) (h : Hart) : Core δ :=
  { s with regs := h.x, pc := h.pc, memory := fun k => h.mem (s.memoryBase + BitVec.ofNat 32 k) }

theorem withHart_hart (s : Core δ) (h : Hart) : (s.withHart h).hart = h := by
  have hmem : (s.withHart h).hart.mem = h.mem := by
    funext a
    show h.mem (s.memoryBase + BitVec.ofNat 32 (a - s.memoryBase).toNat) = h.mem a
    rw [BitVec.ofNat_toNat, BitVec.setWidth_eq, add_sub_cancel]
  exact congrArg (fun m => { h with mem := m }) hmem

/-- One step of the machine that the emulator carries out in front of the RAM of `s`. -/
def CarriedStep (s : Core δ) (h h' : Hart) : Prop :=
  ∃ i : Insn, i.StandsAt h ∧ Carries (s.withHart h) i ∧ h' = i.exec h

/-- The emulator runs, implements the hart, and is as `s` in everything else. -/
structure Implements (s : State δ) (h : Hart) (t : State δ) : Prop where
  hart : t.hart = h
  x_zero : h.x 0 = 0
  system : t.system = s.system

theorem exec_x_zero (i : Insn) {h : Hart} (h0 : h.x 0 = 0) : (i.exec h).x 0 = 0 := by
  cases i with
  | base i => exact (Hart.exec_x_zero 4 h i).trans h0
  | mulDiv op r r1 r2 =>
    show (h.set r (op.eval (h.get r1) (h.get r2))).x 0 = 0
    unfold Hart.set
    split_ifs with hr
    · exact h0
    · exact (Function.update_of_ne (Ne.symm hr) _ _).trans h0
  | compressed c => exact (Hart.exec_x_zero 2 h c.expand).trans h0

theorem frame_of_system {s t : State δ} (h : t.system = s.system) :
    t.memoryBase = s.memoryBase ∧ t.memorySize = s.memorySize ∧ t.htifHalted = s.htifHalted := by
  have hbase : t.system.memoryBase = s.system.memoryBase := congrArg (·.memoryBase) h
  have hsize : t.system.memorySize = s.system.memorySize := congrArg (·.memorySize) h
  have hhalted : t.system.htifHalted = s.system.htifHalted := congrArg (·.htifHalted) h
  exact ⟨hbase, hsize, hhalted⟩

theorem iteration_implements {s t : State δ} {h h' : Hart} (hrunning : s.htifHalted = false)
    (ht : Implements s h t) (hstep : CarriedStep s.toCore h h') (profiled : Bool) :
    (iteration dev profiled t).1 = true ∧ Implements s h' (iteration dev profiled t).2 := by
  obtain ⟨rfl, h0, hsystem⟩ := ht
  obtain ⟨i, hi, hcarries, rfl⟩ := hstep
  obtain ⟨hbase, hsize, hhalted⟩ := frame_of_system hsystem
  have hs : Carries t.toCore i := hcarries.congr (withHart_hart _ _).symm hbase hsize
  obtain ⟨hok, hhart, hkeep⟩ := iteration_carried dev (hhalted.trans hrunning) h0 hi hs profiled
  exact ⟨hok, hhart, exec_x_zero i h0, hkeep.trans hsystem⟩

/-- EBREAK or ECALL comes next. -/
def StopsAt (s : Core δ) (h : Hart) : Prop :=
  s.RamAccess h.pc 4 ∧ (h.load 4 h.pc = 0x00100073#32 ∨ h.load 4 h.pc = 0x00000073#32)

theorem iteration_stopsAt {s t : State δ} {h : Hart} (hrunning : s.htifHalted = false)
    (ht : Implements s h t) (hstop : StopsAt s.toCore h) (profiled : Bool) :
    (iteration dev profiled t).1 = false ∧ Implements s h (iteration dev profiled t).2 := by
  obtain ⟨rfl, h0, hsystem⟩ := ht
  obtain ⟨hram, hinsn⟩ := hstop
  obtain ⟨hbase, hsize, hhalted⟩ := frame_of_system hsystem
  obtain ⟨hf, hfetch, e, hfetched⟩ :=
    fetch_carried dev (hhalted.trans hrunning) (hram.congr hbase hsize)
  have hrun : iteration dev profiled t = (false, t.log e) := by
    have hword : t.fetchedInsn dev = 0x00100073#32 ∨ t.fetchedInsn dev = 0x00000073#32 := by
      rw [hfetch]
      exact hinsn
    rw [iteration_parcel dev profiled hf, hfetched]
    rcases hword with h | h <;> rw [h] <;> rfl
  rw [hrun]
  exact ⟨rfl, rfl, h0, hsystem⟩

/-- A run of the machine that the emulator can carry out is carried out by one call, instruction
by instruction, and a call with instructions to spare stops where the program does. -/
theorem rvStep_carries {s : State δ} {n : ℕ} {h : Hart} (hinit : s.initialized = true)
    (hsleep : s.wfiSleep = false) (hint : ¬ s.Interrupted) (hrunning : s.htifHalted = false)
    (h0 : s.regs 0 = 0) (hrun : Path (CarriedStep s.toCore) n s.hart h) (m : ℕ)
    (hstop : m = 0 ∨ StopsAt s.toCore h) :
    (rvStep dev (n + m : ℕ) s).1 = n ∧ Implements s h (rvStep dev (n + m : ℕ) s).2 ∧
      (rvStep dev (n + m : ℕ) s).2.csrMcycle = s.csrMcycle + BitVec.ofNat 64 n := by
  have hd : ¬ s.Dispatches (n + m : ℕ) := fun hd => hint hd.2.2
  obtain ⟨t, ht, hloop⟩ := loop_path (R := Implements s)
    (fun _ _ _ ht hstep =>
      iteration_implements dev hrunning ht hstep s.profiler.profilingEnabled)
    hrun (s := s) ⟨rfl, h0, rfl⟩ m
  have hend : (rvStep dev (n + m : ℕ) s).1 = n ∧ Implements s h (rvStep dev (n + m : ℕ) s).2 := by
    rw [rvStep_loop dev (n + m) hinit hsleep hint, hloop]
    rcases Nat.eq_zero_or_pos m with rfl | hm
    · exact ⟨rfl, ht⟩
    · obtain ⟨k, rfl⟩ := Nat.exists_eq_succ_of_ne_zero hm.ne'
      obtain ⟨hfalse, hkeep⟩ := iteration_stopsAt dev hrunning ht
        (hstop.resolve_left hm.ne') s.profiler.profilingEnabled
      rw [BreakLoop.loop_succ_false hfalse]
      exact ⟨rfl, hkeep⟩
  obtain ⟨⟨_, hmcycle⟩, _⟩ := rvStep_retires dev hd
  rw [hend.1] at hmcycle
  exact ⟨hend.1, hend.2, hmcycle⟩

/-- `addi x1, x0, 6`, `c.addi x1, 1`, `c.mv x2, x1`, `mul x3, x1, x2`, `ebreak`. -/
def State.squares : State Unit :=
  State.booted [0x00600093, 0x81060085, 0x022081b3, 0x00100073]

theorem squares_path : Path (CarriedStep State.squares.toCore) 4 State.squares.hart
    ((Insn.mulDiv .mul 3 1 2).exec ((Insn.compressed (.mv 2 1)).exec
      ((Insn.compressed (.addi 1 1)).exec
        ((Insn.base (.opImm .addi 1 0 6)).exec State.squares.hart)))) := by
  refine
    .head ⟨.base (.opImm .addi 1 0 6), ⟨trivial, by decide⟩, ⟨?_, nofun, trivial⟩, rfl⟩ <|
    .head ⟨.compressed (.addi 1 1), ⟨trivial, by decide⟩,
      ⟨?_, nofun, trivial, trivial, trivial, by decide⟩, rfl⟩ <|
    .head ⟨.compressed (.mv 2 1), ⟨by decide, by decide⟩,
      ⟨?_, nofun, trivial, trivial, trivial, by decide⟩, rfl⟩ <|
    .head ⟨.mulDiv .mul 3 1 2, ⟨trivial, by decide⟩, ⟨?_, nofun, trivial⟩, rfl⟩ .refl
  all_goals constructor <;> decide

theorem rvStep_carries_squares :
    (rvStep herveStubs 10 State.squares).1 = 4 ∧
      (rvStep herveStubs 10 State.squares).2.regs 3 = 49 := by
  obtain ⟨hcount, ⟨hhart, -, -⟩, -⟩ := rvStep_carries herveStubs rfl rfl (by decide) rfl rfl
    squares_path 6 (.inr ⟨by constructor <;> decide, by decide⟩)
  refine ⟨hcount, ?_⟩
  have hx := congrArg (Hart.x · 3) hhart
  exact hx.trans (by decide)

end Herve
