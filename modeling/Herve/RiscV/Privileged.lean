import Herve.RiscV.Machine
import Herve.RiscV.Zicsr

/-! RV32IMC with Zicsr and machine-mode interrupts as a labelled machine. Which interrupts are up
comes from outside, and an interrupt that is up and enabled may be taken between any two
instructions. Of the trap stack the machine has the one bit `MIE`, `mcause` holds the bare number,
taking an interrupt acknowledges it, and a hart that sleeps stands at its WFI. -/

namespace RiscV

structure Csrs where
  mstatus : Word
  mie : Word
  mtvec : Word
  mepc : Word
  mcause : Word
  mcycle : BitVec 64

namespace Csrs

/-- The CSR instructions write five of them. -/
def write (c : Csrs) (a : BitVec 12) (v : Word) : Csrs :=
  if a = 0x300#12 then { c with mstatus := v }
  else if a = 0x304#12 then { c with mie := v }
  else if a = 0x305#12 then { c with mtvec := v }
  else if a = 0x341#12 then { c with mepc := v }
  else if a = 0x342#12 then { c with mcause := v }
  else c

def tick (c : Csrs) : Csrs := { c with mcycle := c.mcycle + 1 }

def enabled (c : Csrs) : Bool := c.mstatus.getLsbD 3

/-- The handler of interrupt `cause`; the mode is in the low bits of `mtvec`. -/
def handler (c : Csrs) (cause : ℕ) : Word :=
  if c.mtvec &&& 3 = 0 then c.mtvec else (c.mtvec &&& ~~~3) + 4 * BitVec.ofNat 32 cause

def trap (c : Csrs) (pc : Word) (cause : ℕ) : Csrs :=
  { c with mstatus := c.mstatus &&& ~~~8, mepc := pc, mcause := BitVec.ofNat 32 cause }

end Csrs

structure Machine where
  hart : Hart
  csrs : Csrs
  lines : Word
  asleep : Bool

/-- An instruction of the machine. -/
inductive PInsn
  | user (i : Insn)
  | csr (i : CsrInstr)
  | mret
  | wfi
  deriving DecidableEq, Repr

namespace PInsn

/-- The instruction is the one the hart executes next. -/
def StandsAt (h : Hart) : PInsn → Prop
  | user i => i.StandsAt h
  | csr i => h.load 4 h.pc = i.encode
  | mret => h.load 4 h.pc = 0x30200073#32
  | wfi => h.load 4 h.pc = 0x10500073#32

end PInsn

namespace Machine

def csr (m : Machine) (a : BitVec 12) : Word :=
  if a = 0x300#12 then m.csrs.mstatus
  else if a = 0x304#12 then m.csrs.mie
  else if a = 0x305#12 then m.csrs.mtvec
  else if a = 0x341#12 then m.csrs.mepc
  else if a = 0x342#12 then m.csrs.mcause
  -- the timer is the one interrupt that shows in `mip`
  else if a = 0x344#12 then (if m.lines.getLsbD 7 then 0x80#32 else 0)
  else if a = 0xB00#12 ∨ a = 0xB02#12 then m.csrs.mcycle.setWidth 32
  else if a = 0xF12#12 then 1
  else 0

/-- What an instruction that retires does. -/
def retire (m : Machine) : PInsn → Machine
  | .user i => { m with hart := i.exec m.hart, csrs := m.csrs.tick }
  | .csr i =>
    { m with
      hart := (m.hart.set i.rd (m.csr i.csr)).goto (m.hart.pc + 4)
      csrs := (m.csrs.write i.csr (i.op.eval (m.csr i.csr) (i.src m.hart.get))).tick }
  | .mret =>
    { m with
      hart := m.hart.goto m.csrs.mepc
      csrs := { m.csrs with mstatus := m.csrs.mstatus ||| 8 }.tick }
  | .wfi => { m with hart := m.hart.goto (m.hart.pc + 4), csrs := m.csrs.tick }

def take (m : Machine) (cause : ℕ) : Machine where
  hart := m.hart.goto (m.csrs.handler cause)
  csrs := m.csrs.trap m.hart.pc cause
  lines := m.lines &&& ~~~(1#32 <<< cause)
  asleep := false

inductive Label
  | lines (mask : Word)
  | retire (i : PInsn)
  | sleep
  | take (cause : ℕ)

/-- The labels that `rv_step` counts. -/
def Label.counts : Label → Bool
  | retire _ | take _ => true
  | lines _ | sleep => false

/-- What comes from outside. -/
def Label.input : Label → Option Word
  | lines mask => some mask
  | _ => none

/-- WFI does not wait while interrupts are on and one is up, masked or not. -/
def Waits (m : Machine) : Prop := ¬ (m.csrs.enabled = true ∧ m.lines ≠ 0)

inductive Step : Machine → Label → Machine → Prop
  | lines (m : Machine) (mask : Word) : Step m (.lines mask) { m with lines := mask }
  | retire {m : Machine} {i : PInsn} : m.asleep = false → i.StandsAt m.hart →
      (i = .wfi → ¬ m.Waits) → Step m (.retire i) (m.retire i)
  | sleep {m : Machine} : m.asleep = false → PInsn.wfi.StandsAt m.hart → m.Waits →
      Step m .sleep { m with asleep := true }
  | take {m : Machine} {cause : ℕ} : m.csrs.enabled = true →
      IsLeast {i | (m.lines &&& m.csrs.mie).getLsbD i = true} cause →
      Step m (.take cause) (m.take cause)

end Machine
end RiscV
