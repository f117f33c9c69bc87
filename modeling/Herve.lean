import Herve.Refine.Base
import Herve.Refine.Rvc
import Herve.Iss.Init
import Herve.Run.Halt
import Herve.Run.PcLaw
import Herve.Run.Sandbox
import Herve.Run.Twin
import Herve.Trap.Csr
import Herve.Trap.Delivery
import Herve.Run.Stop
import Herve.Trap.Preempt
import Herve.Elf.Safety
import Herve.Bench.Exit
import Herve.Bus.Transfers
import Herve.Refine.MulDiv
import Herve.Trap.Asleep
import Herve.Run.ZeroRegister
import Herve.Mem.ByteArray
import Herve.Run.Accounting
import Herve.Elf.Init
import Herve.Elf.Load
import Herve.Elf.InitSafety
import Herve.Mem.SubWord
import Herve.Profile.Interrupt
import Herve.Profile.RoundTrip
import Herve.Run.Aligned
import Herve.Run.Batch
import Herve.Run.History
import Herve.Run.Illegal
import Herve.Trap.Wfi
import Herve.Run.Console
import Herve.Bus.Timer
import Herve.Elf.Symbols
import Herve.Bench.Cli
import Herve.Profile.Classify
import Herve.Profile.Hierarchy
import Herve.Softfloat.Mul
import Herve.Softfloat.Sub
import Herve.Softfloat.Div
import Herve.Softfloat.Special
import Herve.Softfloat.Symmetry
import Herve.Softfloat.Compare
import Herve.Softfloat.Integer
import Herve.Softfloat.Single
import Herve.Visualizer.Squarify
import Herve.Softfloat.Carry
import Herve.Visualizer.Icicle
import Herve.Refine.Machine
import Herve.Refine.Privileged
import Herve.Zephyr.Blinky
import Herve.Bus.AhbFirmware
import Herve.Bus.MmioRegs
import Herve.Bench.RiscvTests
import Herve.Visualizer.Page
import Herve.Irq.Test
