import Herve.Iss.Init
import Herve.Iss.Step

/-! `tb_top_zephyr.sv`, the device that a C++ harness puts between it and the emulator, and the
harnesses `rv32_dpi_zephyr_tb.cpp` and the one that `build_blinky_demo.py` writes. -/

namespace Herve
open RiscV (Byte Word)

/-! ## The module -/

/-- The ports and the timer of `tb_top_zephyr`. -/
structure TbTopZephyr where
  memRead : Word
  irq : Bool
  memWrite : Word
  mtime : BitVec 64
  mtimecmpLo : Word
  mtimecmpHi : Word

namespace TbTopZephyr

def mtimeLo (tb : TbTopZephyr) : Word := tb.mtime.extractLsb' 0 32

def mtimeHi (tb : TbTopZephyr) : Word := tb.mtime.extractLsb' 32 32

def mtimecmp (tb : TbTopZephyr) : BitVec 64 := tb.mtimecmpHi ++ tb.mtimecmpLo

def mtimeGeMtimecmp (tb : TbTopZephyr) : Bool := tb.mtimecmp ≤ tb.mtime

/-- What the module passes to `rv_set_irq` at a rising edge: the timer is compared before it
counts. -/
def irqMask (rstn : Bool) (tb : TbTopZephyr) : Word :=
  if !rstn then 0
  else 0#24 ++ BitVec.ofBool tb.mtimeGeMtimecmp ++ 0#6 ++ BitVec.ofBool tb.irq

def posedge (rstn : Bool) (tb : TbTopZephyr) : TbTopZephyr :=
  if !rstn then { tb with mtime := 0 } else { tb with mtime := tb.mtime + 1 }

end TbTopZephyr

/-- A rising edge of `clk` in front of the emulator. -/
def clockEdge (rstn : Bool) (s : State TbTopZephyr) : State TbTopZephyr :=
  rvSetIrq (s.device.irqMask rstn) { s with device := s.device.posedge rstn }

/-! ## The device -/

/-- `dpi_mmio_read` and `dpi_mmio_write` of the harnesses, which differ in what a read of
`GPIO_OUT` gives. -/
def zephyrDevice (gpioOut : TbTopZephyr → Word) : Device TbTopZephyr where
  read tb addr :=
    (match addr.toNat with
      | 0x10000000 => gpioOut tb
      | 0x10000010 => tb.mtimeLo
      | 0x10000014 => tb.mtimeHi
      | 0x10000018 => tb.mtimecmpLo
      | 0x1000001C => tb.mtimecmpHi
      | _ => 0,
      tb, none)
  write tb addr data :=
    (match addr.toNat with
      | 0x10000000 => { tb with memWrite := data }
      | 0x10000018 => { tb with mtimecmpLo := data }
      | 0x1000001C => { tb with mtimecmpHi := data }
      | _ => tb,
      none)

/-- In `rv32_dpi_zephyr_tb.cpp` a read of `GPIO_OUT` gives the port `mem_read`. -/
abbrev timerTestDevice : Device TbTopZephyr := zephyrDevice TbTopZephyr.memRead

/-- In the demo it gives what was written last. -/
abbrev blinkyDevice : Device TbTopZephyr := zephyrDevice TbTopZephyr.memWrite

section
variable (gpioOut : TbTopZephyr → Word) (tb : TbTopZephyr)

theorem read_gpioOut : (zephyrDevice gpioOut).read tb 0x10000000#32 = (gpioOut tb, tb, none) := rfl

theorem read_mtimeLo : (zephyrDevice gpioOut).read tb 0x10000010#32 = (tb.mtimeLo, tb, none) := rfl

theorem write_gpioOut (data : Word) : (zephyrDevice gpioOut).write tb 0x10000000#32 data =
    ({ tb with memWrite := data }, none) := rfl

theorem write_mtimecmpLo (data : Word) : (zephyrDevice gpioOut).write tb 0x10000018#32 data =
    ({ tb with mtimecmpLo := data }, none) := rfl

theorem write_mtimecmpHi (data : Word) : (zephyrDevice gpioOut).write tb 0x1000001C#32 data =
    ({ tb with mtimecmpHi := data }, none) := rfl

end

/-! ## The harnesses -/

/-- Up to the loop over the clock ticks: initialisation, the ports, `edges` rising edges in reset
and the first call of the emulator. `block` is what `malloc` returned, `mtime` what the timer
held. -/
def harnessBoot (dev : Device TbTopZephyr) (firmware : List Byte) (block : ℕ → Byte)
    (mtime : BitVec 64) (edges step : ℕ) : State TbTopZephyr :=
  let tb : TbTopZephyr :=
    { memRead := 0, irq := false, memWrite := 0, mtime := mtime
      mtimecmpLo := 0xFFFFFFFF#32, mtimecmpHi := 0xFFFFFFFF#32 }
  let s := rvReset 0 (rvInit (some firmware) (1 <<< 20) (some block) (State.start tb))
  (rvStep dev step ((clockEdge false)^[edges] s)).2

variable (dev : Device TbTopZephyr) (step : ℕ)

def serviceCall (s : State TbTopZephyr) : Bool × State TbTopZephyr :=
  let (executed, s) := rvStep dev step s
  (executed ≠ 0, s)

/-- `rv_step` until it returns zero, at most five times. -/
def serviceLoop (s : State TbTopZephyr) : State TbTopZephyr :=
  (BreakLoop.loop (serviceCall dev step) 5 s).2

/-- One pass of the loops over the clock ticks, without what they look at afterwards. -/
def harnessTick (s : State TbTopZephyr) : State TbTopZephyr :=
  serviceLoop dev step (clockEdge true s)

/-- `main` of the demo: its locals beside the emulator. -/
structure BlinkyDemo where
  state : State TbTopZephyr
  toggles : ℕ
  last : Word

namespace BlinkyDemo

def tick (m : BlinkyDemo) : BlinkyDemo :=
  let s := harnessTick dev step m.state
  let curr := s.device.memWrite &&& 1
  if curr ≠ m.last then { state := s, toggles := m.toggles + 1, last := curr }
  else { m with state := s }

def run (s : State TbTopZephyr) (ticks : ℕ) : BlinkyDemo :=
  (tick dev step)^[ticks] { state := s, toggles := 0, last := 0 }

/-- `STATUS: PASS` -/
def pass (m : BlinkyDemo) : Bool := 4 ≤ m.toggles

end BlinkyDemo

/-- `main` of the timer test: zero stands for "not seen". -/
structure ZephyrTb where
  state : State TbTopZephyr
  timerFiredAt : ℕ
  secondFireAt : ℕ

namespace ZephyrTb

/-- The pass of tick `tc`; it says whether the loop goes on. -/
def tick (tc : ℕ) (m : ZephyrTb) : Bool × ZephyrTb :=
  let s := harnessTick dev step m.state
  let timerFiredAt :=
    if m.timerFiredAt = 0 ∧ s.device.memWrite = 1 then tc else m.timerFiredAt
  let secondFireAt :=
    if timerFiredAt ≠ 0 ∧ s.device.memWrite = 0 then tc else m.secondFireAt
  (secondFireAt = 0, ⟨s, timerFiredAt, secondFireAt⟩)

/-- The passes from tick `tc` on, `n` at most. -/
def loop (tc : ℕ) : ℕ → ZephyrTb → ZephyrTb
  | 0, m => m
  | n + 1, m =>
    let (goOn, m) := tick dev step tc m
    if goOn then loop (tc + 1) n m else m

def run (s : State TbTopZephyr) (ticks : ℕ) : ZephyrTb :=
  loop dev step 1 ticks { state := s, timerFiredAt := 0, secondFireAt := 0 }

/-- The last line it prints is PASS. -/
def pass (m : ZephyrTb) : Bool := m.timerFiredAt ≠ 0

end ZephyrTb
end Herve
