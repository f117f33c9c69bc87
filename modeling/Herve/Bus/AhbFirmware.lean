import Herve.Bus.AhbTestbench
import Herve.Guest.Calls

/-! `firmware_ahb.S` under the phases of `rv32_dpi_ahb_tb.cpp`: for which number of instructions
a phase the interrupt test passes. -/

namespace Herve
open RiscV Paths Guest

/-- `firmware_ahb.bin`. -/
def firmwareAhb : List Word :=
  [ -- _start
    (Instr.lui 5 0x10000).encode,
    (Instr.opImm .addi 6 0 0x100).encode,
    (CsrInstr.mk .rw false 0 6 0x305).encode,
    (Instr.opImm .addi 6 0 0x8).encode,
    (CsrInstr.mk .rs false 0 6 0x300).encode,
    (Instr.opImm .addi 6 0 1).encode,
    (Instr.store .sw 6 5 0x4).encode,
    (Instr.opImm .addi 6 0 1).encode,
    (Instr.store .sw 6 5 0x0).encode,
    -- wait_loop
    (Instr.load .lw 7 5 0x0).encode,
    (Instr.branch .bne 7 0 0xffe).encode,
    (Instr.opImm .addi 6 0 1).encode,
    (Instr.store .sw 6 5 0x100).encode,
    0x00100073#32 ] ++
  -- .org 0x100
  List.replicate 50 0 ++
  [ -- interrupt_handler
    (Instr.load .lw 6 5 0x8).encode,
    (Instr.store .sw 0 5 0x0).encode,
    0x30200073#32 ]

/-! ## Start-up -/

def ahbBootGuest : Guest AhbRegisters where
  regs := fun _ => 0
  pc := 0
  irqMask := 0
  csrMstatus := 0
  csrMtvec := 0
  csrMepc := 0
  csrMcause := 0
  csrMie := 0xFFFFFFFF#32
  wfiSleep := false
  device := ⟨.reset, 0⟩

/-- Awake, with the interrupt line low and no verdict yet. -/
structure Calm (g : Guest AhbRegisters) : Prop where
  irqMask : g.irqMask = 0
  wfiSleep : g.wfiSleep = false
  line : g.device.gpio.irqMask = 0
  lastIndicator : g.device.lastIndicator = 0

def CalmStep (g g' : Guest AhbRegisters) : Prop := g.Step ahbRegisters firmwareAhb g' ∧ Calm g'

/-- In the polling loop with the interrupt line high; `loaded` says at which of its two
instructions. -/
structure PollsAt (loaded : Bool) (g : Guest AhbRegisters) : Prop where
  zero : g.regs 0 = 0
  base : g.regs 5 = 0x10000000#32
  pc : g.pc = if loaded then 0x28#32 else 0x24#32
  polled : loaded = true → g.regs 7 = 1
  irqMask : g.irqMask = 1
  csrMstatus : g.csrMstatus = 0x8#32
  csrMtvec : g.csrMtvec = 0x100#32
  csrMie : g.csrMie = 0xFFFFFFFF#32
  wfiSleep : g.wfiSleep = false
  device : g.device = ⟨⟨1, 1⟩, 0⟩

theorem ahbBoot_path :
    ∃ g g', Path CalmStep 8 ahbBootGuest g ∧ g.Step ahbRegisters firmwareAhb g' ∧
      PollsAt false g' := by
  refine ⟨_, _,
    .head ⟨step_lui (v := 0x10000000#32) ⟨0, rfl, rfl⟩ rfl, ⟨rfl, rfl, rfl, rfl⟩⟩ <|
    .head ⟨step_opImm (x := 0#32) (v := 0x100#32) ⟨1, rfl, rfl⟩ rfl rfl, ⟨rfl, rfl, rfl, rfl⟩⟩ <|
    .head ⟨step_csr (x := 0x100#32) (y := 0#32) ⟨2, rfl, rfl⟩ (by decide) (by decide) rfl rfl rfl,
      ⟨rfl, rfl, rfl, rfl⟩⟩ <|
    .head ⟨step_opImm (x := 0#32) (v := 0x8#32) ⟨3, rfl, rfl⟩ rfl rfl, ⟨rfl, rfl, rfl, rfl⟩⟩ <|
    .head ⟨step_csr (x := 0x8#32) (y := 0#32) (v := 0x8#32) ⟨4, rfl, rfl⟩ (by decide) (by decide)
      rfl rfl rfl, ⟨rfl, rfl, rfl, rfl⟩⟩ <|
    .head ⟨step_opImm (x := 0#32) (v := 1#32) ⟨5, rfl, rfl⟩ rfl rfl, ⟨rfl, rfl, rfl, rfl⟩⟩ <|
    .head ⟨step_sw (x := 0x10000000#32) (y := 1#32) ⟨6, rfl, rfl⟩ rfl rfl rfl rfl rfl,
      ⟨rfl, rfl, rfl, rfl⟩⟩ <|
    .head ⟨step_opImm (x := 0#32) (v := 1#32) ⟨7, rfl, rfl⟩ rfl rfl, ⟨rfl, rfl, rfl, rfl⟩⟩ .refl,
    step_sw (x := 0x10000000#32) (y := 1#32) ⟨8, rfl, rfl⟩ rfl rfl rfl rfl rfl,
    ⟨rfl, rfl, rfl, nofun, rfl, rfl, rfl, rfl, rfl, rfl⟩⟩

/-! ## The polling loop -/

theorem branch_target : 0x28#32 + (0xffe#12 ++ 0#1).signExtend 32 = 0x24#32 := by decide

theorem pollsAt_step {loaded : Bool} {g : Guest AhbRegisters} (h : PollsAt loaded g) :
    ∃ g', g.Step ahbRegisters firmwareAhb g' ∧ PollsAt (!loaded) g' := by
  obtain ⟨regs, pc, irqMask, mstatus, mtvec, mepc, mcause, mie, wfiSleep, device⟩ := g
  obtain ⟨hzero, hbase, hpc, hpolled, hirq, hmstatus, hmtvec, hmie, hawake, hdevice⟩ := h
  dsimp only at hzero hbase hpc hpolled hirq hmstatus hmtvec hmie hawake hdevice
  subst hirq hmstatus hmtvec hmie hawake hdevice
  cases loaded with
  | false =>
    replace hpc : pc = 0x24#32 := hpc
    subst hpc
    have hread : ahbRegisters.read ⟨⟨1, 1⟩, 0⟩ gpioOutAddr = (1#32, ⟨⟨1, 1⟩, 0⟩, some 1#32) := rfl
    exact ⟨_, step_lw (x := 0x10000000#32) ⟨9, rfl, rfl⟩ hbase rfl rfl hread,
      ⟨hzero, hbase, rfl, fun _ => rfl, rfl, rfl, rfl, rfl, rfl, rfl⟩⟩
  | true =>
    replace hpc : pc = 0x28#32 := hpc
    subst hpc
    exact ⟨_, step_taken (x := 1#32) (y := 0#32) ⟨10, rfl, rfl⟩ (hpolled rfl) hzero rfl
      branch_target, ⟨hzero, hbase, rfl, nofun, rfl, rfl, rfl, rfl, rfl, rfl⟩⟩

theorem pollsAt_path {loaded : Bool} {g : Guest AhbRegisters} (h : PollsAt loaded g) (n : ℕ) :
    ∃ g', Path (Guest.Step ahbRegisters firmwareAhb) n g g' ∧ PollsAt (not^[n] loaded) g' := by
  induction n generalizing loaded g with
  | zero => exact ⟨g, .refl, h⟩
  | succ n ih =>
    obtain ⟨g₁, hstep, h₁⟩ := pollsAt_step h
    obtain ⟨g', hpath, h'⟩ := ih h₁
    exact ⟨g', .head hstep hpath, h'⟩

/-! ## The interrupt -/

/-- In the handler of an interrupt taken in the polling loop. -/
structure Handles (loaded : Bool) (g : Guest AhbRegisters) : Prop where
  zero : g.regs 0 = 0
  base : g.regs 5 = 0x10000000#32
  polled : loaded = true → g.regs 7 = 1
  pc : g.pc = 0x100#32
  csrMstatus : g.csrMstatus = 0
  csrMepc : g.csrMepc = if loaded then 0x28#32 else 0x24#32
  wfiSleep : g.wfiSleep = false
  device : g.device = ⟨⟨1, 1⟩, 0⟩

theorem PollsAt.dispatch {loaded : Bool} {g : Guest AhbRegisters} (h : PollsAt loaded g) :
    g.Interrupted ∧ Handles loaded g.dispatch := by
  obtain ⟨regs, pc, irqMask, mstatus, mtvec, mepc, mcause, mie, wfiSleep, device⟩ := g
  obtain ⟨hzero, hbase, hpc, hpolled, hirq, hmstatus, hmtvec, hmie, hawake, hdevice⟩ := h
  dsimp only at hzero hbase hpc hpolled hirq hmstatus hmtvec hmie hawake hdevice
  subst hirq hmstatus hmtvec hmie hawake hdevice
  refine ⟨⟨?_, ?_⟩, hzero, hbase, hpolled, ?_, ?_, hpc, rfl, rfl⟩ <;>
    dsimp only [Guest.dispatch] <;> decide

/-- Past the handler, with the interrupt line low and no verdict yet. -/
def PendingStep (g g' : Guest AhbRegisters) : Prop :=
  g.Step ahbRegisters firmwareAhb g' ∧ g'.device.lastIndicator = 0

/-- At the EBREAK behind the verdict. -/
structure Passed (g : Guest AhbRegisters) : Prop where
  halts : g.Halts firmwareAhb
  irqMask : g.irqMask = 0
  wfiSleep : g.wfiSleep = false
  device : g.device = ⟨⟨0, 1⟩, 1⟩

/-- The polling loop left. -/
theorem leaves_path {g : Guest AhbRegisters} (hzero : g.regs 0 = 0)
    (hbase : g.regs 5 = 0x10000000#32) (hpc : g.pc = 0x24#32) (hawake : g.wfiSleep = false)
    (hdevice : g.device = ⟨⟨0, 1⟩, 0⟩) :
    ∃ g₁ g₂, Path PendingStep 3 g g₁ ∧ g₁.Step ahbRegisters firmwareAhb g₂ ∧ Passed g₂ := by
  obtain ⟨regs, pc, irqMask, mstatus, mtvec, mepc, mcause, mie, wfiSleep, device⟩ := g
  dsimp only at hzero hbase hpc hawake hdevice
  subst hpc hawake hdevice
  have hread : ahbRegisters.read ⟨⟨0, 1⟩, 0⟩ gpioOutAddr = (0#32, ⟨⟨0, 1⟩, 0⟩, some 0#32) := rfl
  have hwrite : ahbRegisters.write ⟨⟨0, 1⟩, 0⟩ passIndicator 1#32 = (⟨⟨0, 1⟩, 1⟩, some 0#32) := rfl
  exact ⟨_, _,
    .head ⟨step_lw (x := 0x10000000#32) ⟨9, rfl, rfl⟩ hbase rfl rfl hread, rfl⟩ <|
    .head ⟨step_untaken (x := 0#32) (y := 0#32) ⟨10, rfl, rfl⟩ rfl hzero rfl, rfl⟩ <|
    .head ⟨step_opImm (x := 0#32) (v := 1#32) ⟨11, rfl, rfl⟩ hzero rfl, rfl⟩ .refl,
    step_sw (x := 0x10000000#32) (y := 1#32) ⟨12, rfl, rfl⟩ hbase rfl rfl rfl hwrite,
    ⟨⟨13, rfl, rfl⟩, rfl, rfl, rfl⟩⟩

/-- From the handler to the verdict: seven instructions, or eight if the branch of the polling loop
still has to be taken once. -/
theorem handles_path {loaded : Bool} {g : Guest AhbRegisters} (h : Handles loaded g) :
    ∃ g₁ g₂, Path PendingStep (if loaded then 7 else 6) g g₁ ∧
      g₁.Step ahbRegisters firmwareAhb g₂ ∧ Passed g₂ := by
  obtain ⟨regs, pc, irqMask, mstatus, mtvec, mepc, mcause, mie, wfiSleep, device⟩ := g
  obtain ⟨hzero, hbase, hpolled, hpc, hmstatus, hmepc, hawake, hdevice⟩ := h
  dsimp only at hzero hbase hpolled hpc hmstatus hmepc hawake hdevice
  subst hpc hmstatus hawake hdevice
  have hread : ahbRegisters.read ⟨⟨1, 1⟩, 0⟩ gpioStatusAddr = (1#32, ⟨⟨1, 1⟩, 0⟩, some 1#32) := rfl
  have hwrite : ahbRegisters.write ⟨⟨1, 1⟩, 0⟩ gpioOutAddr 0#32 = (⟨⟨0, 1⟩, 0⟩, some 0#32) := rfl
  -- the handler
  obtain ⟨g₁, hhandler, hzero₁, hbase₁, hpolled₁, hpc₁, hawake₁, hdevice₁⟩ :
      ∃ g₁ : Guest AhbRegisters,
        Path PendingStep 3 ⟨regs, 0x100#32, irqMask, 0, mtvec, mepc, mcause, mie, false,
          ⟨⟨1, 1⟩, 0⟩⟩ g₁ ∧
        g₁.regs 0 = 0 ∧ g₁.regs 5 = 0x10000000#32 ∧ g₁.regs 7 = regs 7 ∧ g₁.pc = mepc ∧
        g₁.wfiSleep = false ∧ g₁.device = ⟨⟨0, 1⟩, 0⟩ :=
    ⟨_,
      .head ⟨step_lw (x := 0x10000000#32) ⟨64, rfl, rfl⟩ hbase rfl rfl hread, rfl⟩ <|
      .head ⟨step_sw (x := 0x10000000#32) (y := 0#32) ⟨65, rfl, rfl⟩ hbase hzero rfl rfl hwrite,
        rfl⟩ <|
      .head ⟨step_mret (x := mepc) (y := 0#32) (v := 0x8#32) ⟨66, rfl, rfl⟩ rfl rfl rfl, rfl⟩ .refl,
      hzero, hbase, rfl, rfl, rfl, rfl⟩
  cases loaded with
  | false =>
    obtain ⟨g₂, g₃, hleaves, hlast, hpassed⟩ :=
      leaves_path hzero₁ hbase₁ (hpc₁.trans hmepc) hawake₁ hdevice₁
    exact ⟨g₂, g₃, hhandler.trans hleaves, hlast, hpassed⟩
  | true =>
    have hat : g₁.At firmwareAhb (Instr.branch .bne 7 0 0xffe).encode :=
      ⟨10, rfl, hpc₁.trans hmepc⟩
    have htarget : g₁.pc + (0xffe#12 ++ 0#1).signExtend 32 = 0x24#32 := by
      rw [hpc₁, hmepc]
      exact branch_target
    have hbranch : g₁.Step ahbRegisters firmwareAhb { g₁ with pc := 0x24#32 } :=
      step_taken (x := 1#32) (y := 0#32) hat (hpolled₁.trans (hpolled rfl)) hzero₁ rfl htarget
    obtain ⟨g₂, g₃, hleaves, hlast, hpassed⟩ :=
      leaves_path (g := { g₁ with pc := 0x24#32 }) hzero₁ hbase₁ rfl hawake₁ hdevice₁
    have hpending : g₁.device.lastIndicator = 0 := by rw [hdevice₁]
    exact ⟨g₂, g₃, hhandler.trans (.head ⟨hbranch, hpending⟩ hleaves), hlast, hpassed⟩

/-! ## Calls -/

/-- A call of `m` instructions turns the guest `g` into `g'`. -/
def Calls (m : ℕ) (g g' : Guest AhbRegisters) : Prop :=
  ∀ s : State AhbRegisters, s.Hosts firmwareAhb g →
    (rvStep ahbRegisters m s).2.Hosts firmwareAhb g'

/-- After two clock cycles. -/
def settled (g : Guest AhbRegisters) : Guest AhbRegisters :=
  { g with irqMask := g.device.gpio.irqMask }

theorem settled_of_line {g : Guest AhbRegisters} (h : g.irqMask = g.device.gpio.irqMask) :
    settled g = g := by
  rw [settled, ← h]

/-- Calm, and so for `k` instructions more. -/
structure CalmFor (k : ℕ) (g : Guest AhbRegisters) : Prop where
  calm : Calm g
  rises : ∃ g₁ g₂, Path CalmStep k g g₁ ∧ g₁.Step ahbRegisters firmwareAhb g₂ ∧ PollsAt false g₂

section
variable {k m : ℕ} {loaded : Bool} {g : Guest AhbRegisters}

theorem Calm.quiet (h : Calm g) : ¬ g.Interrupted := fun hint =>
  hint.1 (by rw [h.irqMask]; exact BitVec.zero_and)

theorem calls_path (hawake : g.wfiSleep = false) (hquiet : ¬ g.Interrupted)
    {g' : Guest AhbRegisters} (hpath : Path (Guest.Step ahbRegisters firmwareAhb) m g g') :
    Calls m g g' := fun _ hs => (hs.rvStep_path _ hawake hquiet hpath).2

theorem CalmFor.calls (h : CalmFor (m + k) g) :
    ∃ g', Calls m g g' ∧ settled g' = g' ∧ CalmFor k g' := by
  obtain ⟨hcalm, g₁, g₂, hpath, hstep, hpolls⟩ := h
  obtain ⟨g', hfirst, hrest⟩ := hpath.split
  have hcalm' : Calm g' := hfirst.keeps (fun _ _ h => h.2) hcalm
  exact ⟨g', calls_path hcalm.wfiSleep hcalm.quiet (hfirst.mono fun _ _ h => h.1),
    settled_of_line (hcalm'.irqMask.trans hcalm'.line.symm), hcalm', g₁, g₂, hrest, hstep, hpolls⟩

theorem CalmFor.rising (h : CalmFor k g) (j : ℕ) :
    ∃ g', Calls (k + 1 + j) g g' ∧ settled g' = g' ∧ PollsAt (not^[j] false) g' := by
  obtain ⟨hcalm, g₁, g₂, hpath, hstep, hpolls⟩ := h
  obtain ⟨g', hloop, hpolls'⟩ := pollsAt_path hpolls j
  have hline : g'.irqMask = g'.device.gpio.irqMask := by
    rw [hpolls'.irqMask, hpolls'.device]
    rfl
  exact ⟨g', calls_path hcalm.wfiSleep hcalm.quiet
    (((hpath.mono fun _ _ h => h.1).trans (.head hstep .refl)).trans hloop),
    settled_of_line hline, hpolls'⟩

theorem PollsAt.calls (h : PollsAt loaded g) (hm : 0 < m) :
    Calls m g g.dispatch ∧ Handles loaded (settled g.dispatch) := by
  obtain ⟨hint, hzero, hbase, hpolled, hpc, hmstatus, hmepc, hawake, hdevice⟩ := h.dispatch
  exact ⟨fun _ hs => (hs.rvStep_interrupted _ hint (by omega)).2, hzero, hbase, hpolled, hpc,
    hmstatus, hmepc, hawake, hdevice⟩

theorem Handles.quiet (h : Handles loaded g) : ¬ g.Interrupted := fun hint =>
  hint.2 (by rw [h.csrMstatus]; exact BitVec.zero_and)

/-- A call that is long enough passes. -/
theorem Handles.calls_passes (h : Handles loaded g) (hm : (if loaded then 8 else 7) ≤ m) :
    ∃ g', Calls m g g' ∧ Passed g' := by
  obtain ⟨g₁, g₂, hpath, hlast, hpassed⟩ := handles_path h
  refine ⟨g₂, fun _ hs => (hs.rvStep_until_ebreak _ h.wfiSleep h.quiet
    ((hpath.mono fun _ _ h => h.1).trans (.head hlast .refl)) hpassed.halts ?_).2, hpassed⟩
  cases loaded <;> exact hm

/-- A call that is not leaves the verdict open. -/
theorem Handles.calls_pending (h : Handles loaded g) (hm : m < if loaded then 8 else 7) :
    ∃ g', Calls m g g' ∧ g'.device.lastIndicator = 0 := by
  obtain ⟨g₁, g₂, hpath, -, -⟩ := handles_path h
  obtain ⟨n, hn⟩ : ∃ n, (if loaded then 7 else 6) = m + n := by
    refine Nat.exists_eq_add_of_le (Nat.le_of_lt_succ (hm.trans_eq ?_))
    cases loaded <;> rfl
  rw [hn] at hpath
  obtain ⟨g', hfirst, -⟩ := hpath.split
  refine ⟨g', calls_path h.wfiSleep h.quiet (hfirst.mono fun _ _ h => h.1), ?_⟩
  exact hfirst.keeps (P := fun g => g.device.lastIndicator = 0) (fun _ _ h => h.2)
    (by rw [h.device])

theorem Passed.calls (h : Passed g) (m : ℕ) : settled g = g ∧ Calls m g g := by
  have hline : g.irqMask = g.device.gpio.irqMask := by
    rw [h.irqMask, h.device]
    rfl
  have hquiet : ¬ g.Interrupted := fun hint =>
    hint.1 (by rw [h.irqMask]; exact BitVec.zero_and)
  exact ⟨settled_of_line hline, fun _ hs =>
    (hs.rvStep_until_ebreak _ h.wfiSleep hquiet .refl h.halts (Nat.zero_le m)).2⟩

end

/-! ## The phases -/

theorem ahbBoot_calmFor : CalmFor 8 ahbBootGuest := by
  obtain ⟨g, g', hpath, hstep, hpolls⟩ := ahbBoot_path
  exact ⟨⟨rfl, rfl, rfl, rfl⟩, g, g', hpath, hstep, hpolls⟩

theorem State.Hosts.settle {s : State AhbRegisters} {g : Guest AhbRegisters}
    (h : s.Hosts firmwareAhb g) : (State.ahbCycle^[2] s).Hosts firmwareAhb (settled g) := by
  obtain ⟨rfl, hprogram⟩ := h
  exact ⟨rfl, hprogram.congr rfl⟩

theorem ahbRegistersBoot_hosts (block : ℕ → Byte) (gpio : AhbGpio) :
    (ahbRegistersBoot (some (programBytes firmwareAhb)) block gpio).Hosts firmwareAhb
      ahbBootGuest := by
  have hinit : (rvReset 0 (rvInit (some (programBytes firmwareAhb)) (1 <<< 20) (some block)
      (State.start (AhbRegisters.mk gpio 0)))).Hosts firmwareAhb
        { ahbBootGuest with device := AhbRegisters.mk gpio 0 } :=
    ⟨rfl, rvInit_runsProgram (by decide) (by decide) (by decide) block rfl⟩
  have hreset : ∀ s : State AhbRegisters,
      s.Hosts firmwareAhb { ahbBootGuest with device := AhbRegisters.mk gpio 0 } →
      (rvSetIrq gpio.irqMask { s with device := AhbRegisters.mk .reset 0 }).Hosts firmwareAhb
        { ahbBootGuest with irqMask := gpio.irqMask } := fun s hs =>
    ⟨congrArg (fun g : Guest AhbRegisters =>
      { g with irqMask := gpio.irqMask, device := AhbRegisters.mk .reset 0 }) hs.guest,
      hs.program.congr rfl⟩
  have hline : AhbGpio.reset.irqMask = 0 := by decide
  have hsettled : settled { ahbBootGuest with irqMask := gpio.irqMask } = ahbBootGuest :=
    congrArg (fun mask => { ahbBootGuest with irqMask := mask }) hline
  exact hsettled ▸ (hreset _ hinit).settle

/-- The verdict on four calls of `m` instructions. -/
structure Verdict (m : ℕ) (g : Guest AhbRegisters) : Prop where
  calls : ∃ g₁ g₂ g₃, Calls m ahbBootGuest g₁ ∧ Calls m (settled g₁) g₂ ∧
    Calls m (settled g₂) g₃ ∧ Calls m (settled g₃) g

theorem Verdict.device {m : ℕ} {g : Guest AhbRegisters} (h : Verdict m g) (block : ℕ → Byte)
    (gpio : AhbGpio) :
    (ahbRegistersRun (ahbPhases m)
      (ahbRegistersBoot (some (programBytes firmwareAhb)) block gpio)).2.device = g.device := by
  obtain ⟨g₁, g₂, g₃, h₁, h₂, h₃, h₄⟩ := h
  have hrun := h₄ _ (h₃ _ (h₂ _ (h₁ _ (ahbRegistersBoot_hosts block gpio)).settle).settle).settle
  exact congrArg Guest.device hrun.guest

/-- The verdict depends on where the interrupt finds the emulator. Four phases of fewer than eight
instructions are over before the handler and what follows it are. -/
theorem verdict_exists (m : ℕ) :
    ∃ g, Verdict m g ∧ (AhbRegisters.pass g.device = true ↔ 8 ≤ m) := by
  have hpending : ∀ g : Guest AhbRegisters, g.device.lastIndicator = 0 →
      AhbRegisters.pass g.device = false := by
    intro g hg
    rw [AhbRegisters.pass, hg]
    exact Bool.and_false _
  have hpassed : ∀ g : Guest AhbRegisters, Passed g → AhbRegisters.pass g.device = true := by
    intro g hg
    rw [hg.device]
    rfl
  rcases Nat.lt_or_ge m 3 with h3 | h3
  · -- the interrupt line stays low
    obtain ⟨k, hk⟩ : ∃ k, 8 = m + (m + (m + (m + k))) := ⟨8 - 4 * m, by omega⟩
    have hboot := ahbBoot_calmFor
    rw [hk] at hboot
    obtain ⟨g₁, h₁, hset₁, hcalm₁⟩ := hboot.calls
    obtain ⟨g₂, h₂, hset₂, hcalm₂⟩ := hcalm₁.calls
    obtain ⟨g₃, h₃, hset₃, hcalm₃⟩ := hcalm₂.calls
    obtain ⟨g₄, h₄, -, hcalm₄⟩ := hcalm₃.calls
    refine ⟨g₄, ⟨g₁, g₂, g₃, h₁, hset₁.symm ▸ h₂, hset₂.symm ▸ h₃, hset₃.symm ▸ h₄⟩, ?_⟩
    rw [hpending g₄ hcalm₄.calm.lastIndicator]
    exact iff_of_false Bool.false_ne_true (by omega)
  rcases Nat.lt_or_ge m 5 with h5 | h5
  · -- it rises in the third phase, and the fourth only takes the interrupt
    obtain ⟨k, hk⟩ : ∃ k, 8 = m + (m + k) := ⟨8 - 2 * m, by omega⟩
    obtain ⟨j, hj⟩ : ∃ j, m = k + 1 + j := ⟨m - k - 1, by omega⟩
    have hboot := ahbBoot_calmFor
    rw [hk] at hboot
    obtain ⟨g₁, h₁, hset₁, hcalm₁⟩ := hboot.calls
    obtain ⟨g₂, h₂, hset₂, hcalm₂⟩ := hcalm₁.calls
    obtain ⟨g₃, h₃, hset₃, hpolls⟩ := hcalm₂.rising j
    rw [← hj] at h₃
    have h₄ : Calls m (settled g₃) g₃.dispatch := by
      rw [hset₃]
      exact (hpolls.calls (by omega)).1
    refine ⟨g₃.dispatch, ⟨g₁, g₂, g₃, h₁, hset₁.symm ▸ h₂, hset₂.symm ▸ h₃, h₄⟩, ?_⟩
    have hdevice : g₃.dispatch.device.lastIndicator = 0 := by
      rw [hpolls.dispatch.2.device]
    rw [hpending _ hdevice]
    exact iff_of_false Bool.false_ne_true (by omega)
  rcases Nat.lt_or_ge m 9 with h9 | h9
  · -- it rises in the second phase, the third takes the interrupt
    obtain ⟨k, hk⟩ : ∃ k, 8 = m + k := ⟨8 - m, by omega⟩
    obtain ⟨j, hj⟩ : ∃ j, m = k + 1 + j := ⟨m - k - 1, by omega⟩
    have hodd : not^[j] false = true := by
      obtain rfl | rfl | rfl | rfl : j = 1 ∨ j = 3 ∨ j = 5 ∨ j = 7 := by omega
      all_goals rfl
    have hboot := ahbBoot_calmFor
    rw [hk] at hboot
    obtain ⟨g₁, h₁, hset₁, hcalm₁⟩ := hboot.calls
    obtain ⟨g₂, h₂, hset₂, hpolls⟩ := hcalm₁.rising j
    rw [← hj] at h₂
    rw [hodd] at hpolls
    obtain ⟨h₃, hhandles⟩ := hpolls.calls (m := m) (by omega)
    rcases Nat.lt_or_ge m 8 with h8 | h8
    · obtain ⟨g₄, h₄, hindicator⟩ := hhandles.calls_pending (m := m) h8
      refine ⟨g₄, ⟨g₁, g₂, _, h₁, hset₁.symm ▸ h₂, hset₂.symm ▸ h₃, h₄⟩, ?_⟩
      rw [hpending g₄ hindicator]
      exact iff_of_false Bool.false_ne_true (by omega)
    · obtain ⟨g₄, h₄, hpass⟩ := hhandles.calls_passes (m := m) h8
      exact ⟨g₄, ⟨g₁, g₂, _, h₁, hset₁.symm ▸ h₂, hset₂.symm ▸ h₃, h₄⟩,
        iff_of_true (hpassed g₄ hpass) h8⟩
  · -- it rises in the first phase, and the third runs on to the EBREAK
    obtain ⟨j, hj⟩ : ∃ j, m = 8 + 1 + j := Nat.exists_eq_add_of_le h9
    obtain ⟨g₁, h₁, hset₁, hpolls⟩ := ahbBoot_calmFor.rising j
    rw [← hj] at h₁
    obtain ⟨h₂, hhandles⟩ := hpolls.calls (m := m) (by omega)
    obtain ⟨g₃, h₃, hpass⟩ := hhandles.calls_passes (m := m) (by split_ifs <;> omega)
    obtain ⟨hset₃, h₄⟩ := hpass.calls m
    exact ⟨g₃, ⟨g₁, _, g₃, h₁, hset₁.symm ▸ h₂, h₃, hset₃.symm ▸ h₄⟩,
      iff_of_true (hpassed g₃ hpass) (by omega)⟩

/-- The self-test passes on the module exactly when a phase has at least eight instructions,
whatever the module powers up to. -/
theorem ahbSelfTest_pass_iff (block : ℕ → Byte) (top : TbTopAhb) (stepBatch : ℤ) :
    (ahbTbRun (ahbPhases stepBatch)
      (ahbBoot (some (programBytes firmwareAhb)) block top)).2.device.pass = true ↔
        8 ≤ stepBatch := by
  have hshows := (ahbBoot_shows (some (programBytes firmwareAhb)) block top).runPhases
    (ahbPhases stepBatch)
  have hpass : ∀ (r : AhbRegisters) (t : AhbTb), t.Shows r → t.pass = r.pass := by
    intro r t h
    rw [AhbTb.pass, h.gpio, h.lastIndicator]
    rfl
  -- a count below zero does what a count of zero does
  obtain ⟨m, hm, hrun⟩ : ∃ m : ℕ, (8 ≤ m ↔ 8 ≤ stepBatch) ∧ ∀ s,
      ahbRegistersRun (ahbPhases stepBatch) s = ahbRegistersRun (ahbPhases m) s := by
    rcases le_or_gt stepBatch 0 with h0 | h0
    · refine ⟨0, by omega, fun s => ?_⟩
      simp only [ahbRegistersRun, ahbPhases, runPhases, rvStep_nonpos ahbRegisters h0,
        rvStep_nonpos ahbRegisters (n := (0 : ℕ)) le_rfl]
    · obtain ⟨m, rfl⟩ := Int.eq_ofNat_of_zero_le h0.le
      exact ⟨m, Nat.cast_le.symm, fun s => rfl⟩
  obtain ⟨g, hverdict, hiff⟩ := verdict_exists m
  rw [hpass _ _ hshows.2.device, hrun, hverdict.device block top.gpio, hiff, hm]

end Herve
