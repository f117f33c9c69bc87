import Herve.Guest.Calls
import Herve.Zephyr.Testbench

/-! `firmware_timer.S`: what its start-up code and its interrupt handler do to the registers and
the timer, between one WFI and the next. -/

namespace Herve
open RiscV Paths Guest

/-- `firmware_timer.bin`; each `li` of 50000 is two instructions. -/
def firmwareTimer : List Word :=
  [ -- _start
    (Instr.lui 5 0x10000).encode,
    (Instr.lui 6 0xc).encode,
    (Instr.opImm .addi 6 6 0x350).encode,
    (Instr.store .sw 6 5 0x18).encode,
    (Instr.store .sw 0 5 0x1c).encode,
    (Instr.opImm .addi 6 0 0x80).encode,
    (CsrInstr.mk .rw false 0 6 0x304).encode,
    (Instr.opImm .addi 6 0 0x100).encode,
    (CsrInstr.mk .rw false 0 6 0x305).encode,
    (Instr.opImm .addi 6 0 0x8).encode,
    (CsrInstr.mk .rs false 0 6 0x300).encode,
    -- main_loop
    0x10500073#32,
    (Instr.jal 0 0xffffe).encode ] ++
  -- .org 0x100
  List.replicate 51 0 ++
  [ -- interrupt_handler
    (Instr.load .lw 7 5 0x0).encode,
    (Instr.opImm .xori 7 7 1).encode,
    (Instr.store .sw 7 5 0x0).encode,
    (Instr.load .lw 7 5 0x10).encode,
    (Instr.lui 28 0xc).encode,
    (Instr.opImm .addi 28 28 0x350).encode,
    (Instr.opReg .add 7 7 28).encode,
    (Instr.store .sw 7 5 0x18).encode,
    0x30200073#32 ]

variable (gpioOut : TbTopZephyr → Word)

/-- The guest that the reset leaves. -/
def bootGuest (tb : TbTopZephyr) : Guest TbTopZephyr where
  regs := fun _ => 0
  pc := 0
  irqMask := 0
  csrMstatus := 0
  csrMtvec := 0
  csrMepc := 0
  csrMcause := 0
  csrMie := 0xFFFFFFFF#32
  wfiSleep := false
  device := tb

/-- The guest at the WFI of the main loop, set up for the timer interrupt alone. -/
structure AtMainLoop (g : Guest TbTopZephyr) (tb : TbTopZephyr) : Prop where
  base : g.regs 5 = 0x10000000#32
  pc : g.pc = 0x2c#32
  csrMstatus : g.csrMstatus = 0x8#32
  csrMtvec : g.csrMtvec = 0x100#32
  csrMie : g.csrMie = 0x80#32
  device : g.device = tb

theorem boot_path (tb : TbTopZephyr) :
    ∃ g, Path (Guest.Step (zephyrDevice gpioOut) firmwareTimer) 11 (bootGuest tb) g ∧
      AtMainLoop g { tb with mtimecmpLo := 50000, mtimecmpHi := 0 } ∧ g.irqMask = 0 ∧
      g.wfiSleep = false := by
  refine ⟨_,
    .head (step_lui (v := 0x10000000#32) ⟨0, rfl, rfl⟩ rfl) <|
    .head (step_lui (v := 0xc000#32) ⟨1, rfl, rfl⟩ rfl) <|
    .head (step_opImm (x := 0xc000#32) (v := 50000#32) ⟨2, rfl, rfl⟩ rfl rfl) <|
    .head (step_sw (x := 0x10000000#32) (y := 50000#32) ⟨3, rfl, rfl⟩ rfl rfl rfl rfl
      (write_mtimecmpLo _ _ _)) <|
    .head (step_sw (x := 0x10000000#32) (y := 0#32) ⟨4, rfl, rfl⟩ rfl rfl rfl rfl
      (write_mtimecmpHi _ _ _)) <|
    .head (step_opImm (x := 0#32) (v := 0x80#32) ⟨5, rfl, rfl⟩ rfl rfl) <|
    .head (step_csr (x := 0x80#32) (y := 0xFFFFFFFF#32) ⟨6, rfl, rfl⟩ (by decide) (by decide) rfl
      rfl rfl) <|
    .head (step_opImm (x := 0#32) (v := 0x100#32) ⟨7, rfl, rfl⟩ rfl rfl) <|
    .head (step_csr (x := 0x100#32) (y := 0#32) ⟨8, rfl, rfl⟩ (by decide) (by decide) rfl rfl
      rfl) <|
    .head (step_opImm (x := 0#32) (v := 0x8#32) ⟨9, rfl, rfl⟩ rfl rfl) <|
    .head (step_csr (x := 0x8#32) (y := 0#32) (v := 0x8#32) ⟨10, rfl, rfl⟩ (by decide) (by decide)
      rfl rfl rfl) .refl,
    ⟨rfl, rfl, rfl, rfl, rfl, rfl⟩, rfl, rfl⟩

/-- The guest in the handler of the timer interrupt that found it in the main loop. -/
structure InHandler (g : Guest TbTopZephyr) (tb : TbTopZephyr) : Prop where
  base : g.regs 5 = 0x10000000#32
  pc : g.pc = 0x100#32
  csrMstatus : g.csrMstatus = 0
  csrMtvec : g.csrMtvec = 0x100#32
  csrMepc : g.csrMepc = 0x2c#32
  csrMie : g.csrMie = 0x80#32
  device : g.device = tb

/-- What the handler makes of the ports. -/
def TbTopZephyr.handled (tb : TbTopZephyr) : TbTopZephyr :=
  { tb with memWrite := gpioOut tb ^^^ 1, mtimecmpLo := tb.mtimeLo + 50000 }

theorem handler_path {g : Guest TbTopZephyr} {tb : TbTopZephyr} (h : InHandler g tb)
    (hawake : g.wfiSleep = false) :
    ∃ g', Path (Guest.Step (zephyrDevice gpioOut) firmwareTimer) 9 g g' ∧
      AtMainLoop g' (tb.handled gpioOut) ∧ g'.irqMask = g.irqMask ∧ g'.wfiSleep = false := by
  obtain ⟨regs, pc, irqMask, mstatus, mtvec, mepc, mcause, mie, wfiSleep, device⟩ := g
  obtain ⟨hbase, hpc, hmstatus, hmtvec, hmepc, hmie, hdevice⟩ := h
  dsimp only at hbase hpc hmstatus hmtvec hmepc hmie hdevice hawake
  subst hpc hmstatus hmtvec hmepc hmie hdevice hawake
  refine ⟨_,
    .head (step_lw (x := 0x10000000#32) ⟨64, rfl, rfl⟩ hbase rfl rfl (read_gpioOut _ _)) <|
    .head (step_opImm (x := gpioOut device) (v := gpioOut device ^^^ 1#32) ⟨65, rfl, rfl⟩ rfl
      rfl) <|
    .head (step_sw (x := 0x10000000#32) (y := gpioOut device ^^^ 1#32) ⟨66, rfl, rfl⟩ hbase rfl rfl
      rfl (write_gpioOut _ _ _)) <|
    .head (step_lw (x := 0x10000000#32) ⟨67, rfl, rfl⟩ hbase rfl rfl (read_mtimeLo _ _)) <|
    .head (step_lui (v := 0xc000#32) ⟨68, rfl, rfl⟩ rfl) <|
    .head (step_opImm (x := 0xc000#32) (v := 50000#32) ⟨69, rfl, rfl⟩ rfl rfl) <|
    .head (step_opReg (x := device.mtimeLo) (y := 50000#32) (v := device.mtimeLo + 50000#32)
      ⟨70, rfl, rfl⟩ rfl rfl rfl) <|
    .head (step_sw (x := 0x10000000#32) (y := device.mtimeLo + 50000#32) ⟨71, rfl, rfl⟩ hbase rfl
      rfl rfl (write_mtimecmpLo _ _ _)) <|
    .head (step_mret (x := 0x2c#32) (y := 0#32) (v := 0x8#32) ⟨72, rfl, rfl⟩ rfl rfl rfl) .refl,
    ⟨hbase, rfl, rfl, rfl, rfl, rfl⟩, rfl, rfl⟩

end Herve
