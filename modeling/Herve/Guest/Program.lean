import Herve.Lib.Paths
import Herve.Refine.Base
import Herve.Run.Fetch
import Herve.Trap.Csr

/-! Programs on the bare machine: 32-bit instructions from address zero on that keep their data in
registers and devices. Such a program can tell apart only part of the emulator, and an
instruction does the same to that part whatever the rest is. -/

namespace Herve
open RiscV

variable {δ : Type} (dev : Device δ)

/-- What the program can tell apart. -/
structure Guest (δ : Type) where
  regs : Reg → Word
  pc : Word
  irqMask : Word
  csrMstatus : Word
  csrMtvec : Word
  csrMepc : Word
  csrMcause : Word
  csrMie : Word
  wfiSleep : Bool
  device : δ

def State.guest (s : State δ) : Guest δ where
  regs := s.regs
  pc := s.pc
  irqMask := s.irqMask
  csrMstatus := s.csrMstatus
  csrMtvec := s.csrMtvec
  csrMepc := s.csrMepc
  csrMcause := s.csrMcause
  csrMie := s.csrMie
  wfiSleep := s.wfiSleep
  device := s.device

/-- The program lies in RAM, below both windows, in front of an emulator that is up. -/
structure State.RunsProgram (s : State δ) (program : List Word) : Prop where
  initialized : s.initialized = true
  running : s.htifHalted = false
  memoryBase : s.memoryBase = 0
  program_le : 4 * program.length ≤ s.memorySize.toNat
  memorySize_le : s.memorySize.toNat ≤ 0x10000000
  memory : ∀ k < 4 * program.length, s.memory k = (programBytes program).getD k 0

namespace Guest

/-- The instruction is the one at the pc. -/
def At (program : List Word) (g : Guest δ) (insn : Word) : Prop :=
  ∃ i, program[i]? = some insn ∧ g.pc = BitVec.ofNat 32 (4 * i)

/-- An emulator that has the guest and nothing else. -/
def blank (g : Guest δ) : State δ :=
  { State.start g.device with
    regs := g.regs
    pc := g.pc
    irqMask := g.irqMask
    csrMstatus := g.csrMstatus
    csrMtvec := g.csrMtvec
    csrMepc := g.csrMepc
    csrMcause := g.csrMcause
    csrMie := g.csrMie
    wfiSleep := g.wfiSleep }

/-- The instruction neither reads `mcycle` nor touches RAM. -/
def IsBare (g : Guest δ) (insn : Word) : Prop :=
  if opcode insn = 0x73#32 then csrAddr insn ≠ 0xB00#32 ∧ csrAddr insn ≠ 0xB02#32
  else ∀ a ∈ (decodeInstruction insn g.regs g.pc).2.access, isMmioAddress a.1 = true

/-- The guest executes the instruction at its pc and goes on. -/
inductive Step (program : List Word) (g : Guest δ) : Guest δ → Prop
  | mk {insn : Word} {t : State δ} (hat : g.At program insn) (h32 : ¬ IsCompressed insn)
      (hbare : g.IsBare insn) (hrun : executeInstruction dev insn g.blank = (true, t)) :
      Step program g t.guest

end Guest

/-! ## Loading -/

theorem programBytes_length (program : List Word) :
    (programBytes program).length = 4 * program.length := by
  induction program with
  | nil => rfl
  | cons insn program ih =>
    have hbytes : programBytes (insn :: program) =
        (List.range 4).map (byteOf insn) ++ programBytes program := rfl
    rw [hbytes, List.length_append, ih, List.length_map, List.length_range, List.length_cons]
    omega

theorem rvInit_runsProgram {program : List Word} {ramSize : ℕ} (hpos : 0 < ramSize)
    (hlength : 4 * program.length ≤ ramSize) (hsize : ramSize ≤ 0x10000000)
    (block : ℕ → Byte) {s : State δ} (hrunning : s.htifHalted = false) :
    (rvReset 0 (rvInit (some (programBytes program)) ramSize (some block) s)).RunsProgram
      program := by
  have hnat : (BitVec.ofNat 32 ramSize).toNat = ramSize := by
    rw [BitVec.toNat_ofNat, Nat.mod_eq_of_lt (by omega)]
  have htake : (programBytes program).take ramSize = programBytes program :=
    List.take_of_length_le (by rw [programBytes_length]; exact hlength)
  rw [rvInit, if_neg hpos.ne']
  dsimp only [State.allocated]
  rw [hnat, htake]
  refine ⟨rfl, hrunning, rfl, hnat.symm ▸ hlength, hnat.symm ▸ hsize, fun k hk => ?_⟩
  have hcopy : k < 0 + (programBytes program).length := by
    rw [programBytes_length]
    omega
  exact if_pos ⟨Nat.zero_le k, hcopy⟩

/-! ## The fetch -/

theorem State.RunsProgram.fetch {s : State δ} {program : List Word} (h : s.RunsProgram program)
    {insn : Word} (hat : s.guest.At program insn) :
    s.CanFetch ∧ s.fetchedInsn dev = insn ∧ ∃ e, s.fetched dev = s.log e := by
  obtain ⟨i, hinsn, hpc⟩ := hat
  obtain ⟨hi, rfl⟩ := List.getElem?_eq_some_iff.1 hinsn
  have hle := h.program_le
  have hsize := h.memorySize_le
  replace hpc : s.pc = BitVec.ofNat 32 (4 * i) := hpc
  have haddr : s.pc.toNat = 4 * i := by
    rw [hpc, BitVec.toNat_ofNat, Nat.mod_eq_of_lt (by omega)]
  have hvalid : s.validMemoryAccess s.pc 4 = true := by
    rw [Bus.validMemoryAccess_eq_true, h.memoryBase]
    constructor <;> bv_omega
  have hhtif : isHtifAddress s.pc = false := by
    rw [← Bool.not_eq_true, isHtifAddress_iff]
    omega
  have hmmio : isMmioAddress s.pc = false := by
    rw [← Bool.not_eq_true, isMmioAddress_iff]
    omega
  have hread : s.readU32 dev s.pc = s.memcpyFrom true s.pc 4 := by
    rw [Bus.readU32, hhtif, hmmio, hvalid, h.memoryBase]
    exact congrArg (s.memcpyFrom true · 4) (BitVec.sub_zero s.pc)
  have hword : fromBytes 4 (fun k => s.memory (s.pc.toNat + k)) = program[i] := by
    rw [← fromBytes_byteOf program[i]]
    refine fromBytes_congr fun k hk => ?_
    rw [haddr, h.memory _ (by omega), programBytes_getD hi hk]
  refine ⟨⟨h.running, hvalid⟩, ?_, .host true s.pc.toNat 4, ?_⟩
  · rw [State.fetchedInsn, hread]
    exact hword
  · rw [State.fetched, hread]
    rfl

/-! ## What the rest of the emulator is for -/

def Bus.ram (b : Bus δ) : Bool × Word × Word × (ℕ → Byte) :=
  (b.htifHalted, b.memoryBase, b.memorySize, b.memory)

/-- What the program's place in RAM depends on. -/
def State.rom (s : State δ) : Bool × Bool × Word × Word × (ℕ → Byte) := (s.initialized, s.ram)

theorem State.RunsProgram.congr {s t : State δ} {program : List Word} (h : s.RunsProgram program)
    (hrom : t.rom = s.rom) : t.RunsProgram program := by
  simp only [State.rom, Bus.ram, Prod.mk.injEq] at hrom
  obtain ⟨hinit, hhalted, hbase, hsize, hmemory⟩ := hrom
  exact ⟨hinit ▸ h.initialized, hhalted ▸ h.running, hbase ▸ h.memoryBase,
    hsize ▸ h.program_le, hsize ▸ h.memorySize_le, hmemory ▸ h.memory⟩

/-- A device access gives the same to every bus that has the device and its interrupts. -/
theorem loadData_device {addr : Word} (hm : isMmioAddress addr = true) (op : Load) {b b' : Bus δ}
    (hdevice : b'.device = b.device) (hirq : b'.irqMask = b.irqMask) :
    (loadData dev op addr b').1 = (loadData dev op addr b).1 ∧
      (loadData dev op addr b').2.device = (loadData dev op addr b).2.device ∧
      (loadData dev op addr b').2.irqMask = (loadData dev op addr b).2.irqMask ∧
      (loadData dev op addr b).2.ram = b.ram := by
  have hh := isHtifAddress_of_mmio hm
  cases op <;>
  · simp only [loadData, Bus.readU8, Bus.readU16, Bus.readU32, hh, hm, Bus.dpiMmioRead, hdevice,
      hirq]
    exact ⟨rfl, rfl, rfl, rfl⟩

theorem storeData_device {addr : Word} (hm : isMmioAddress addr = true) (op : Store) (v : Word)
    {b b' : Bus δ} (hdevice : b'.device = b.device) (hirq : b'.irqMask = b.irqMask) :
    (storeData dev op addr v b').device = (storeData dev op addr v b).device ∧
      (storeData dev op addr v b').irqMask = (storeData dev op addr v b).irqMask ∧
      (storeData dev op addr v b).ram = b.ram := by
  have hh := isHtifAddress_of_mmio hm
  cases op <;>
  · simp only [storeData, Bus.writeU8, Bus.writeU16, Bus.writeU32, hh, hm, Bus.mmioMerge,
      Bus.dpiMmioRead, Bus.dpiMmioWrite, hdevice, hirq]
    exact ⟨rfl, rfl, rfl⟩

/-- The instruction goes on from `s` and from its guest alike, and leaves the program alone. -/
structure SameOnGuest (s t : State δ) (r : Bool × State δ) : Prop where
  ok : r.1 = true
  guest : r.2.guest = t.guest
  rom : r.2.rom = s.rom

theorem executeCore_guest {insn : Word} {s t : State δ} (hsys : opcode insn ≠ 0x73#32)
    (hbare : s.guest.IsBare insn)
    (hrun : executeInstruction dev insn s.guest.blank = (true, t)) :
    SameOnGuest s t (executeInstruction dev insn s) := by
  have hacc : ∀ a ∈ (decodeInstruction insn s.regs s.pc).2.access, isMmioAddress a.1 = true := by
    rw [Guest.IsBare, if_neg hsys] at hbare
    exact hbare
  obtain ⟨p, hblank⟩ := executeCore_arm dev insn s.guest.blank
  have hdecode : decodeInstruction insn s.guest.blank.regs s.guest.blank.pc =
      decodeInstruction insn s.regs s.pc := rfl
  obtain ⟨q, hs⟩ := executeCore_arm dev insn s
  rw [executeInstruction, if_neg hsys, hblank, hdecode] at hrun
  rw [executeInstruction, if_neg hsys, hs]
  generalize (decodeInstruction insn s.regs s.pc).2 = a at hrun hacc ⊢
  obtain ⟨hok, rfl⟩ := Prod.mk.inj hrun
  cases a with
  | fail => exact Bool.noConfusion hok
  | skip | writeReg | setPc | link => exact ⟨rfl, rfl, rfl⟩
  | load op r addr =>
    obtain ⟨hv, hdevice, hirq, hram⟩ := loadData_device dev (hacc _ rfl) op
      (show s.guest.blank.toBus.device = s.toBus.device from rfl) rfl
    dsimp only [Arm.run]
    generalize loadData dev op addr s.guest.blank.toBus = x at hv hdevice hirq ⊢
    generalize loadData dev op addr s.toBus = y at hv hdevice hirq hram ⊢
    refine ⟨rfl, ?_, congrArg (Prod.mk s.initialized) hram⟩
    simp only [State.guest, hv, hdevice, hirq]
    rfl
  | store op r addr =>
    obtain ⟨hdevice, hirq, hram⟩ := storeData_device dev (hacc _ rfl) op (s.regs r)
      (show s.guest.blank.toBus.device = s.toBus.device from rfl) rfl
    have hdata : s.guest.blank.regs r = s.regs r := rfl
    dsimp only [Arm.run]
    rw [hdata]
    generalize storeData dev op addr (s.regs r) s.guest.blank.toBus = x at hdevice hirq ⊢
    generalize storeData dev op addr (s.regs r) s.toBus = y at hdevice hirq hram ⊢
    refine ⟨rfl, ?_, congrArg (Prod.mk s.initialized) hram⟩
    simp only [State.guest, hdevice, hirq]
    rfl

theorem retire_guest {s t u : State δ} {type : InsnType} {nextPc insn : Word}
    (hguest : s.guest = u.guest) (hrun : u.retire type nextPc insn = (true, t)) :
    SameOnGuest s t (s.retire type nextPc insn) := by
  obtain ⟨p, hp⟩ := retire_profiler s type nextPc insn
  obtain ⟨q, hq⟩ := retire_profiler u type nextPc insn
  obtain ⟨-, rfl⟩ := Prod.mk.inj (hq.symm.trans hrun)
  rw [hp]
  exact ⟨rfl, congrArg (fun g => { g with pc := nextPc }) hguest, rfl⟩

theorem executeCsr_guest {insn : Word} (s : State δ) (h00 : csrAddr insn ≠ 0xB00#32)
    (h02 : csrAddr insn ≠ 0xB02#32) :
    (executeCsr insn s).guest = (executeCsr insn s.guest.blank).guest ∧
      (executeCsr insn s).rom = s.rom := by
  have hread : s.guest.blank.csrRead (csrAddr insn) = s.csrRead (csrAddr insn) := by
    unfold State.csrRead
    split
    case h_7 h => exact absurd (BitVec.eq_of_toNat_eq h) h00
    case h_8 h => exact absurd (BitVec.eq_of_toNat_eq h) h02
    all_goals rfl
  have hregs : s.guest.blank.regs = s.regs := rfl
  dsimp only [executeCsr]
  rw [hread, hregs]
  generalize csrNewValue _ _ _ = v
  unfold State.csrWrite
  split <;> exact ⟨rfl, rfl⟩

theorem executeSystem_guest {insn : Word} {s t : State δ} (hsys : opcode insn = 0x73#32)
    (hbare : s.guest.IsBare insn)
    (hrun : executeInstruction dev insn s.guest.blank = (true, t)) :
    SameOnGuest s t (executeInstruction dev insn s) := by
  rw [Guest.IsBare, if_pos hsys] at hbare
  rw [executeInstruction, if_pos hsys] at hrun ⊢
  unfold executeSystem at hrun ⊢
  by_cases hf3 : funct3 insn = 0
  · rw [if_pos hf3] at hrun ⊢
    by_cases hcall : insn = 0x00100073#32 ∨ insn = 0x00000073#32
    · rw [if_pos hcall] at hrun
      cases hrun
    rw [if_neg hcall] at hrun ⊢
    by_cases hmret : insn = 0x30200073#32
    · rw [if_pos hmret] at hrun ⊢
      cases hrun
      exact ⟨rfl, rfl, rfl⟩
    rw [if_neg hmret] at hrun ⊢
    by_cases hwfi : s.csrMstatus &&& 0x8#32 ≠ 0 ∧ s.irqMask ≠ 0
    · have hblank : s.guest.blank.csrMstatus &&& 0x8#32 ≠ 0 ∧ s.guest.blank.irqMask ≠ 0 := hwfi
      rw [if_pos hblank] at hrun
      rw [if_pos hwfi]
      exact retire_guest (u := s.guest.blank) rfl hrun
    · have hblank : ¬ (s.guest.blank.csrMstatus &&& 0x8#32 ≠ 0 ∧ s.guest.blank.irqMask ≠ 0) :=
        hwfi
      rw [if_neg hblank] at hrun
      cases hrun
  · rw [if_neg hf3] at hrun ⊢
    obtain ⟨hguest, hrom⟩ := executeCsr_guest s hbare.1 hbare.2
    have hretire := retire_guest hguest hrun
    exact ⟨hretire.ok, hretire.guest, hretire.rom.trans hrom⟩

/-! ## Steps -/

namespace Guest
variable {dev} {program : List Word} {g : Guest δ}

theorem Step.iteration {s : State δ} {g' : Guest δ} (h : s.RunsProgram program)
    (hstep : s.guest.Step dev program g') (profiled : Bool) :
    (iteration dev profiled s).1 = true ∧ (iteration dev profiled s).2.guest = g' ∧
      (iteration dev profiled s).2.RunsProgram program := by
  obtain @⟨insn, t, hat, h32, hbare, hrun⟩ := hstep
  obtain ⟨hf, hinsn, e, hfetched⟩ := h.fetch dev hat
  have hsame : SameOnGuest (s.log e) t (executeInstruction dev insn (s.log e)) := by
    by_cases hsys : opcode (s.fetchedInsn dev) = 0x73#32
    · exact executeSystem_guest dev (hinsn ▸ hsys) hbare hrun
    · exact executeCore_guest dev (hinsn ▸ hsys) hbare hrun
  rw [iteration_base dev profiled hf (hinsn ▸ h32), hinsn, hfetched, stepBase]
  dsimp only
  rw [if_pos hsame.ok]
  exact ⟨rfl, hsame.guest, h.congr hsame.rom⟩

/-- The guest after the emulator has moved on to the core `c`. -/
def withCore (g : Guest δ) (c : Core δ) : Guest δ :=
  { g with regs := c.regs, pc := c.pc, irqMask := c.irqMask, device := c.device }

theorem step_base {i : Instr} (hat : g.At program i.encode)
    (hacc : ∀ a ∈ (armOf g.regs g.pc i).access, isMmioAddress a.1 = true) :
    g.Step dev program
      (g.withCore ((armOf g.regs g.pc i).run dev (g.pc + 4) g.blank.toCore).2) := by
  have hsys := opcode_encode_ne_system i
  have hdecode : (decodeInstruction i.encode g.blank.regs g.blank.pc).2 = armOf g.regs g.pc i :=
    decodeInstruction_encode _ _ i
  obtain ⟨p, hp⟩ := executeCore_arm dev i.encode g.blank
  have hok : ((armOf g.regs g.pc i).run dev (g.blank.pc + 4) g.blank.toCore).1 = true := by
    cases h : armOf g.regs g.pc i <;> first | exact absurd h (armOf_ne_fail _ _ i) | rfl
  rw [hdecode, hok] at hp
  have hbare : g.IsBare i.encode := by
    rw [IsBare, if_neg hsys]
    exact hdecode.symm ▸ hacc
  have hcore : executeInstruction dev i.encode g.blank = executeCore dev i.encode g.blank :=
    if_neg hsys
  exact Step.mk hat (not_isCompressed_encode i) hbare (hcore.trans hp)

/-- On the next instruction. -/
def next (g : Guest δ) : Guest δ := { g with pc := g.pc + 4 }

def setReg (g : Guest δ) (r : Reg) (v : Word) : Guest δ := { g with regs := writeReg r v g.regs }

/-- After an access that left the device in state `d` and passed `irq` to `rv_set_irq`. -/
def accessed (g : Guest δ) (d : δ) (irq : Option Word) : Guest δ :=
  { g with device := d, irqMask := irq.getD g.irqMask }

def setCsr (g : Guest δ) (csr : BitVec 12) (v : Word) : Guest δ :=
  { (g.blank.csrWrite (csr.setWidth 32) v).guest with regs := g.regs, pc := g.pc }

theorem step_writeReg {i : Instr} {r : Reg} {v : Word} (hat : g.At program i.encode)
    (harm : armOf g.regs g.pc i = .writeReg r v) :
    g.Step dev program (g.setReg r v).next := by
  have hstep : g.Step dev program _ := step_base hat (by rw [harm]; exact nofun)
  rw [harm] at hstep
  exact hstep

section
variable {r r1 r2 : Reg} {x y v a : Word}

theorem step_lui {imm : BitVec 20} (hat : g.At program (Instr.lui r imm).encode)
    (hv : imm ++ 0#12 = v) : g.Step dev program (g.setReg r v).next :=
  step_writeReg hat (congrArg (Arm.writeReg r) hv)

theorem step_opImm {op : AluImm} {imm : BitVec 12}
    (hat : g.At program (Instr.opImm op r r1 imm).encode) (hx : g.regs r1 = x)
    (hv : op.alu.eval x (imm.signExtend 32) = v) : g.Step dev program (g.setReg r v).next := by
  subst hx
  exact step_writeReg hat (congrArg (Arm.writeReg r) hv)

theorem step_opReg {op : Alu} (hat : g.At program (Instr.opReg op r r1 r2).encode)
    (hx : g.regs r1 = x) (hy : g.regs r2 = y) (hv : op.eval x y = v) :
    g.Step dev program (g.setReg r v).next := by
  subst hx hy
  exact step_writeReg hat (congrArg (Arm.writeReg r) hv)

theorem step_taken {op : Branch} {imm : BitVec 12}
    (hat : g.At program (Instr.branch op r1 r2 imm).encode) (hx : g.regs r1 = x)
    (hy : g.regs r2 = y) (htaken : op.taken x y = true)
    (ha : g.pc + (imm ++ 0#1).signExtend 32 = a) : g.Step dev program { g with pc := a } := by
  subst hx hy ha
  have harm : armOf g.regs g.pc (.branch op r1 r2 imm) =
      .setPc (g.pc + (imm ++ 0#1).signExtend 32) := if_pos htaken
  have hstep : g.Step dev program _ := step_base hat (by rw [harm]; exact nofun)
  rw [harm] at hstep
  exact hstep

theorem step_untaken {op : Branch} {imm : BitVec 12}
    (hat : g.At program (Instr.branch op r1 r2 imm).encode) (hx : g.regs r1 = x)
    (hy : g.regs r2 = y) (htaken : op.taken x y = false) : g.Step dev program g.next := by
  subst hx hy
  have harm : armOf g.regs g.pc (.branch op r1 r2 imm) = .skip :=
    if_neg (ne_true_of_eq_false htaken)
  have hstep : g.Step dev program _ := step_base hat (by rw [harm]; exact nofun)
  rw [harm] at hstep
  exact hstep

/-- A jump that links nothing. -/
theorem step_jump {imm : BitVec 20} (hat : g.At program (Instr.jal 0 imm).encode)
    (ha : g.pc + (imm ++ 0#1).signExtend 32 = a) : g.Step dev program { g with pc := a } := by
  subst ha
  have hstep : g.Step dev program _ := step_base hat nofun
  exact hstep

theorem step_lw {imm : BitVec 12} {d : δ} {irq : Option Word}
    (hat : g.At program (Instr.load .lw r r1 imm).encode) (hx : g.regs r1 = x)
    (ha : x + imm.signExtend 32 = a) (hm : isMmioAddress a = true)
    (hread : dev.read g.device a = (v, d, irq)) :
    g.Step dev program ((g.accessed d irq).setReg r v).next := by
  subst hx
  have harm : armOf g.regs g.pc (.load .lw r r1 imm) = .load .lw r a := by rw [armOf, ha]
  have hload : loadData dev .lw a g.blank.toBus = g.blank.toBus.dpiMmioRead dev a := by
    rw [loadData, Bus.readU32, isHtifAddress_of_mmio hm, hm]
    rfl
  have hvalue : dev.read g.blank.device a = (v, d, irq) := hread
  have hstep : g.Step dev program _ := step_base hat (by rw [harm]; rintro _ ⟨⟩; exact hm)
  rw [harm, Arm.run, hload, Bus.dpiMmioRead, hvalue] at hstep
  exact hstep

theorem step_sw {imm : BitVec 12} {d : δ} {irq : Option Word}
    (hat : g.At program (Instr.store .sw r2 r1 imm).encode) (hx : g.regs r1 = x)
    (hy : g.regs r2 = y) (ha : x + imm.signExtend 32 = a) (hm : isMmioAddress a = true)
    (hwrite : dev.write g.device a y = (d, irq)) :
    g.Step dev program (g.accessed d irq).next := by
  subst hx hy
  have harm : armOf g.regs g.pc (.store .sw r2 r1 imm) = .store .sw r2 a := by rw [armOf, ha]
  have hstore : storeData dev .sw a (g.blank.regs r2) g.blank.toBus =
      g.blank.toBus.dpiMmioWrite dev a (g.blank.regs r2) := by
    rw [storeData, Bus.writeU32, isHtifAddress_of_mmio hm, hm]
    rfl
  have hvalue : dev.write g.blank.device a (g.blank.regs r2) = (d, irq) := hwrite
  have hstep : g.Step dev program _ := step_base hat (by rw [harm]; rintro _ ⟨⟩; exact hm)
  rw [harm, Arm.run, hstore, Bus.dpiMmioWrite, hvalue] at hstep
  exact hstep

/-- A CSR instruction with a register operand that keeps nothing of the old value. -/
theorem step_csr {op : CsrOp} {csr : BitVec 12}
    (hat : g.At program (CsrInstr.mk op false 0 r1 csr).encode) (hB00 : csr ≠ 0xB00#12)
    (hB02 : csr ≠ 0xB02#12) (hx : g.regs r1 = x) (hy : g.blank.csrFile csr = y)
    (hv : op.eval y x = v) : g.Step dev program (g.setCsr csr v).next := by
  subst hx hy hv
  obtain ⟨p, hp⟩ := executeInstruction_csr dev (CsrInstr.mk op false 0 r1 csr) g.blank
  have hop : opcode (CsrInstr.mk op false 0 r1 csr).encode = 0x73#32 :=
    (iType_fields _ _ _ _ _).1
  have haddr : ∀ n < 4096, csr ≠ BitVec.ofNat 12 n →
      csrAddr (CsrInstr.mk op false 0 r1 csr).encode ≠ BitVec.ofNat 32 n := by
    intro n hn hne h
    rw [CsrInstr.encode, csrAddr_iType] at h
    have hnat := congrArg BitVec.toNat h
    rw [BitVec.toNat_ofNat, Nat.mod_eq_of_lt (by omega)] at hnat
    exact hne ((toNat_csr csr hn).1 hnat)
  have hbare : g.IsBare (CsrInstr.mk op false 0 r1 csr).encode := by
    rw [IsBare, if_pos hop]
    exact ⟨haddr 0xB00 (by decide) hB00, haddr 0xB02 (by decide) hB02⟩
  have hzero : writeReg 0 (g.blank.csrFile csr) g.blank.regs = g.blank.regs :=
    if_neg (not_not_intro rfl)
  have hstep := Step.mk hat (not_isCompressed_csr _) hbare hp
  dsimp only at hstep
  rw [hzero] at hstep
  exact hstep

theorem step_mret (hat : g.At program 0x30200073#32) (hx : g.csrMepc = x)
    (hy : g.csrMstatus = y) (hv : y ||| 0x8#32 = v) :
    g.Step dev program { g with pc := x, csrMstatus := v } := by
  subst hx hy hv
  exact Step.mk hat (by decide) ⟨by decide, by decide⟩ rfl

end

end Guest
end Herve
