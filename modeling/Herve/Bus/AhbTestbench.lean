import Herve.Bus.Registers
import Herve.Iss.Init
import Herve.Refine.Device

/-! `rv32_dpi_ahb_tb.cpp` in front of `tb_top_ahb.sv`: every device access of the emulator is a
transaction on the bus, with the clock driven from inside the access and `rv_set_irq` called at
each of its rising edges. To the emulator all that is a pair of registers and a level on the
interrupt line. -/

namespace Herve
open RiscV (Byte Word)

/-! ## The harness -/

/-- The inputs and the state of the module, and the harness's own variables; `timeouts` counts
the lines `[AHB] TIMEOUT` it has printed. -/
structure AhbTb where
  clk : Bool
  rstn : Bool
  req : AhbRequest
  top : TbTopAhb
  lastIndicator : Word
  timeouts : ℕ

def passIndicator : Word := 0x10000100#32

/-- What the `always` block of `tb_top_ahb` passes to `rv_set_irq`. -/
def AhbGpio.irqMask (g : AhbGpio) : Word := if g.gpioOut.getLsbD 0 then 0x1#32 else 0x0#32

namespace AhbTb

/-- `tick`, with the mask passed to `rv_set_irq` if the edge was a rising one. -/
def tick (t : AhbTb) : Option Word × AhbTb :=
  if t.clk then (none, { t with clk := false })
  else (some t.top.gpio.irqMask, { t with clk := true, top := t.top.posedge t.rstn t.req })

/-- A tick during an access, which keeps the last mask. -/
def accessTick (p : Option Word × AhbTb) : Option Word × AhbTb :=
  let (irq, t) := p.2.tick
  (irq.or p.1, t)

/-- The loop that ticks until `ahb_req_ready`, with what is left of `timeout`. -/
def untilReady : ℕ → Option Word × AhbTb → ℕ × Option Word × AhbTb
  | 0, p => (0, p)
  | timeout + 1, p =>
    if (accessTick p).2.top.bfm.reqReady then (timeout + 1, accessTick p)
    else untilReady timeout (accessTick p)

/-- `ahb_transaction`: the data read, the last mask, and the harness afterwards. -/
def ahbTransaction (addr : Word) (write : Bool) (wdata : Word) (t : AhbTb) :
    Word × Option Word × AhbTb :=
  let (timeout, irq, t) := untilReady 100 (none, { t with req := ⟨true, addr, write, wdata⟩ })
  let rdata := t.top.bfm.reqRdata
  let (irq, t) := accessTick^[4] (irq, { t with req := { t.req with valid := false } })
  (rdata, irq, if timeout = 0 then { t with timeouts := t.timeouts + 1 } else t)

end AhbTb

/-- `dpi_mmio_read` and `dpi_mmio_write`. A write of the pass indicator goes over the bus too. -/
def ahbTestbench : Device AhbTb where
  read t addr :=
    if addr = passIndicator then (t.lastIndicator, t, none)
    else
      let (rdata, irq, t) := t.ahbTransaction addr false 0
      (rdata, t, irq)
  write t addr data :=
    let t := if addr = passIndicator then { t with lastIndicator := data } else t
    let (_, irq, t) := t.ahbTransaction addr true data
    (t, irq)

/-! ## The registers -/

structure AhbRegisters where
  gpio : AhbGpio
  lastIndicator : Word

def AhbGpio.readRegister (addr : Word) (g : AhbGpio) : Word :=
  if addr = gpioOutAddr then g.gpioOut
  else if addr = gpioIeAddr then g.gpioIe
  else if addr = gpioStatusAddr then (BitVec.ofBool (g.gpioOut.getLsbD 0)).setWidth 32
  else 0

def AhbGpio.writeRegister (addr data : Word) (g : AhbGpio) : AhbGpio :=
  ⟨if addr = gpioOutAddr then data else g.gpioOut, if addr = gpioIeAddr then data else g.gpioIe⟩

/-- What an access is for: a register read or written at once, and the interrupt line after it. -/
def ahbRegisters : Device AhbRegisters where
  read r addr :=
    if addr = passIndicator then (r.lastIndicator, r, none)
    else (r.gpio.readRegister addr, r, some r.gpio.irqMask)
  write r addr data :=
    let gpio := r.gpio.writeRegister addr data
    (⟨gpio, if addr = passIndicator then data else r.lastIndicator⟩, some gpio.irqMask)

/-! ## One transaction -/

theorem AhbLiteBfm.posedge_done {b : AhbLiteBfm} {req : AhbRequest} (hready : Bool) (hrdata : Word)
    (h : b.state = .done) (hv : req.valid = false) :
    b.posedge true hready hrdata req = { b with reqReady := false, state := .idle } := by
  rw [AhbLiteBfm.posedge, h, hv]
  rfl

/-- No request is on the lines or in the BFM, and the slave is not addressed. -/
structure TbTopAhb.Quiet (s : TbTopAhb) : Prop where
  idle : s.bfm.state = .idle
  reqReady : s.bfm.reqReady = false
  htrans : s.bfm.htrans = 0b00#2

/-- The BFM is in `state` with the request `req`, which brings the registers to `g`. -/
structure TbTopAhb.Serves (req : AhbRequest) (g : AhbGpio) (state : BfmState) (reqReady : Bool)
    (s : TbTopAhb) : Prop where
  drives : s.bfm.Drives req
  state_eq : s.bfm.state = state
  reqReady_eq : s.bfm.reqReady = reqReady
  gpio : s.gpio.posedge true s.bfm.hselGpio s.bfm.toAhbMaster = g

def AhbRequest.effect (req : AhbRequest) (g : AhbGpio) : AhbGpio :=
  if req.write then g.writeRegister req.addr req.wdata else g

namespace TbTopAhb
variable {req lines : AhbRequest} {g : AhbGpio} {s : TbTopAhb}

theorem Quiet.posedge (h : s.Quiet) (hreq : req.valid = false) :
    (s.posedge true req).Quiet ∧ (s.posedge true req).gpio = s.gpio := by
  have hbfm : (s.posedge true req).bfm = { s.bfm with reqReady := false, htrans := 0b00#2 } :=
    AhbLiteBfm.posedge_idle _ _ h.idle hreq
  refine ⟨⟨?_, ?_, ?_⟩, AhbGpio.posedge_inactive _ _ h.htrans⟩ <;> rw [hbfm]
  exact h.idle

theorem Quiet.takes (h : s.Quiet) (hreq : req.valid = true) :
    (s.posedge true req).Serves req (req.effect s.gpio) .addr false ∧
      (s.posedge true req).gpio = s.gpio := by
  obtain ⟨hdrives, hstate, hready⟩ := AhbLiteBfm.posedge_takes (b := s.bfm) AhbGpio.hready
    (s.gpio.hrdata s.bfm.hselGpio s.extIrq s.bfm.toAhbMaster) h.idle hreq
  have hgpio : (s.posedge true req).gpio = s.gpio := AhbGpio.posedge_inactive _ _ h.htrans
  refine ⟨⟨hdrives, hstate, hready, ?_⟩, hgpio⟩
  rw [hgpio]
  refine (hdrives.posedge s.gpio).trans ?_
  rw [AhbRequest.effect]
  cases req.write with
  | false => simp
  | true => simp [AhbGpio.writeRegister]

/-- While the BFM is busy its lines stay, and the slave takes what they say. -/
theorem Serves.posedge {state : BfmState} {reqReady : Bool} (h : s.Serves req g state reqReady)
    (hbusy : state ≠ .idle) {b : AhbLiteBfm} (hb : (s.posedge true lines).bfm = b) :
    (s.posedge true lines).Serves req g b.state b.reqReady ∧
      (s.posedge true lines).gpio = g := by
  have hlines : (s.posedge true lines).bfm.toAhbMaster = s.bfm.toAhbMaster :=
    AhbLiteBfm.posedge_busy _ _ (h.state_eq.trans_ne hbusy)
  have hgpio : (s.posedge true lines).gpio = g := h.gpio
  refine ⟨⟨hlines ▸ h.drives, by rw [hb], by rw [hb], ?_⟩, hgpio⟩
  rw [hlines, hgpio, ← h.gpio]
  exact AhbGpio.posedge_again _ _ _

theorem Serves.addr (h : s.Serves req g .addr false) (lines : AhbRequest) :
    (s.posedge true lines).Serves req g .data false ∧ (s.posedge true lines).gpio = g := by
  have hbfm : (s.posedge true lines).bfm = _ := AhbLiteBfm.posedge_addr _ _ h.state_eq
  have hnext := h.posedge (by decide) hbfm
  rwa [h.reqReady_eq] at hnext

theorem Serves.data (h : s.Serves req g .data false) (hgpio : s.gpio = g) (lines : AhbRequest) :
    (s.posedge true lines).Serves req g .done true ∧ (s.posedge true lines).gpio = g ∧
      (req.write = false →
        (s.posedge true lines).bfm.reqRdata = g.readRegister req.addr) := by
  have hbfm : (s.posedge true lines).bfm = _ := AhbLiteBfm.posedge_data _ h.state_eq
  obtain ⟨hserves, hgpio'⟩ := h.posedge (by decide) hbfm
  refine ⟨hserves, hgpio', fun hread => ?_⟩
  rw [hbfm]
  dsimp only
  rw [h.drives.hwrite, hread, h.drives.hrdata _ _ hread, TbTopAhb.extIrq, hgpio]
  rfl

theorem Serves.done (h : s.Serves req g .done true) (hlines : lines.valid = false) :
    (s.posedge true lines).Serves req g .idle false ∧ (s.posedge true lines).gpio = g := by
  have hbfm : (s.posedge true lines).bfm = _ := AhbLiteBfm.posedge_done _ _ h.state_eq hlines
  exact h.posedge (by decide) hbfm

theorem Serves.idle (h : s.Serves req g .idle false) (hlines : lines.valid = false) :
    (s.posedge true lines).Quiet ∧ (s.posedge true lines).gpio = g := by
  have hbfm : (s.posedge true lines).bfm = { s.bfm with reqReady := false, htrans := 0b00#2 } :=
    AhbLiteBfm.posedge_idle _ _ h.state_eq hlines
  refine ⟨⟨?_, ?_, ?_⟩, h.gpio⟩ <;> rw [hbfm]
  exact h.state_eq

end TbTopAhb

/-! ## The ticks of a transaction -/

namespace AhbTb

/-- With the clock and the module elsewhere. -/
def now (t : AhbTb) (clk : Bool) (top : TbTopAhb) : AhbTb := { t with clk := clk, top := top }

section
variable {t : AhbTb} {irq : Option Word} {top : TbTopAhb}

theorem accessTick_low (hrstn : t.rstn = true) :
    accessTick (irq, t.now false top) =
      (some top.gpio.irqMask, t.now true (top.posedge true t.req)) := by
  simp only [accessTick, tick, now, hrstn]
  rfl

theorem accessTick_high : accessTick (irq, t.now true top) = (irq, t.now false top) := rfl

/-- A falling edge changes nothing that the loop looks at. -/
theorem untilReady_high (hready : top.bfm.reqReady = false) (n : ℕ) :
    untilReady (n + 1) (irq, t.now true top) = untilReady n (irq, t.now false top) := by
  rw [untilReady, accessTick_high]
  exact if_neg fun h => Bool.false_ne_true (hready.symm.trans h)

theorem untilReady_waits (hrstn : t.rstn = true)
    (hready : (top.posedge true t.req).bfm.reqReady = false) (n : ℕ) :
    untilReady (n + 2) (irq, t.now false top) =
      untilReady n (some top.gpio.irqMask, t.now false (top.posedge true t.req)) := by
  rw [untilReady, accessTick_low hrstn, ← untilReady_high hready]
  exact if_neg fun h => Bool.false_ne_true (hready.symm.trans h)

/-- From a low clock the request is acknowledged at the third rising edge. -/
theorem untilReady_low {g : AhbGpio} (hrstn : t.rstn = true) (hvalid : t.req.valid = true)
    (hquiet : top.Quiet) (hg : t.req.effect top.gpio = g) (n : ℕ) :
    ∃ top', top'.Serves t.req g .done true ∧
      (t.req.write = false → top'.bfm.reqRdata = g.readRegister t.req.addr) ∧
      untilReady (n + 5) (irq, t.now false top) = (n + 1, some g.irqMask, t.now true top') := by
  subst hg
  obtain ⟨h₁, -⟩ := hquiet.takes hvalid
  obtain ⟨h₂, hgpio₂⟩ := h₁.addr t.req
  obtain ⟨h₃, -, hrdata⟩ := h₂.data hgpio₂ t.req
  refine ⟨_, h₃, hrdata, ?_⟩
  rw [untilReady_waits hrstn h₁.reqReady_eq, untilReady_waits hrstn h₂.reqReady_eq, untilReady,
    accessTick_low hrstn, hgpio₂]
  exact if_pos h₃.reqReady_eq

/-- A high clock costs the loop one tick more. -/
theorem untilReady_serves {g : AhbGpio} (hrstn : t.rstn = true) (hvalid : t.req.valid = true)
    (hquiet : top.Quiet) (hg : t.req.effect top.gpio = g) (irq : Option Word) (clk : Bool)
    (n : ℕ) :
    ∃ m top', top'.Serves t.req g .done true ∧
      (t.req.write = false → top'.bfm.reqRdata = g.readRegister t.req.addr) ∧
      untilReady (n + 6) (irq, t.now clk top) = (m + 1, some g.irqMask, t.now true top') := by
  cases clk with
  | false => exact ⟨n + 1, untilReady_low hrstn hvalid hquiet hg (n + 1)⟩
  | true =>
    rw [untilReady_high hquiet.reqReady]
    exact ⟨n, untilReady_low hrstn hvalid hquiet hg n⟩

/-- After the acknowledgement, two more rising edges without a request. -/
theorem accessTick_four {req : AhbRequest} {g : AhbGpio} (hrstn : t.rstn = true)
    (hvalid : t.req.valid = false) (hserves : top.Serves req g .done true) (irq : Option Word) :
    ∃ top' : TbTopAhb, top'.Quiet ∧ top'.gpio = g ∧
      accessTick^[4] (irq, t.now true top) = (some g.irqMask, t.now true top') := by
  obtain ⟨h₄, hgpio₄⟩ := hserves.done hvalid
  obtain ⟨hquiet, hgpio₅⟩ := h₄.idle hvalid
  refine ⟨_, hquiet, hgpio₅, ?_⟩
  dsimp only [Function.iterate_succ, Function.iterate_zero, Function.comp_apply, id_eq]
  rw [accessTick_high, accessTick_low hrstn, accessTick_high, accessTick_low hrstn, hgpio₄]

/-- Outside an access the module shows the registers `r`. -/
structure Shows (r : AhbRegisters) (t : AhbTb) : Prop where
  rstn : t.rstn = true
  noRequest : t.req.valid = false
  quiet : t.top.Quiet
  gpio : t.top.gpio = r.gpio
  lastIndicator : t.lastIndicator = r.lastIndicator
  timeouts : t.timeouts = 0

/-- A transaction does what it is for, and is over before the emulator goes on. -/
structure Serviced (r : AhbRegisters) (req : AhbRequest) (result : Word × Option Word × AhbTb) :
    Prop where
  rdata : req.write = false → result.1 = (req.effect r.gpio).readRegister req.addr
  irq : result.2.1 = some (req.effect r.gpio).irqMask
  shows : result.2.2.Shows { r with gpio := req.effect r.gpio }

theorem ahbTransaction_serviced {r : AhbRegisters} (h : t.Shows r) (addr : Word) (write : Bool)
    (wdata : Word) :
    Serviced r ⟨true, addr, write, wdata⟩ (t.ahbTransaction addr write wdata) := by
  generalize hreq : (⟨true, addr, write, wdata⟩ : AhbRequest) = req
  have hvalid : req.valid = true := congrArg AhbRequest.valid hreq.symm
  obtain ⟨m, top, hserves, hrdata, hloop⟩ :=
    untilReady_serves (t := { t with req := req }) (g := req.effect r.gpio) h.rstn
      hvalid h.quiet (congrArg req.effect h.gpio) none t.clk 94
  obtain ⟨top', hquiet, hgpio, hticks⟩ :=
    accessTick_four (t := { t with req := { req with valid := false } }) h.rstn rfl hserves
      (some (req.effect r.gpio).irqMask)
  have hresult : t.ahbTransaction addr write wdata = (top.bfm.reqRdata,
      some (req.effect r.gpio).irqMask,
      { t with req := { req with valid := false } }.now true top') := by
    have hloop' : untilReady 100 (none, { t with req := req }) = (m + 1,
      some (req.effect r.gpio).irqMask, { t with clk := true, req := req, top := top }) := hloop
    have hticks' : accessTick^[4] (some (req.effect r.gpio).irqMask,
      { t with clk := true, req := { req with valid := false }, top := top }) = _ := hticks
    rw [ahbTransaction, hreq, hloop']
    dsimp only
    rw [hticks']
    rfl
  rw [hresult]
  exact ⟨hrdata, rfl, h.rstn, rfl, hquiet, hgpio, h.lastIndicator, h.timeouts⟩

end
end AhbTb

theorem ahbTestbench_simulation :
    ahbRegisters.Simulation ahbTestbench fun r t => t.Shows r where
  read {r t} addr h := by
    by_cases hpass : addr = passIndicator
    · have hregisters : ahbRegisters.read r addr = (r.lastIndicator, r, none) := if_pos hpass
      have htestbench : ahbTestbench.read t addr = (t.lastIndicator, t, none) := if_pos hpass
      rw [hregisters, htestbench]
      exact ⟨h.lastIndicator, rfl, h⟩
    · obtain ⟨hrdata, hirq, hshows⟩ := AhbTb.ahbTransaction_serviced h addr false 0
      have hregisters : ahbRegisters.read r addr =
          (r.gpio.readRegister addr, r, some r.gpio.irqMask) := if_neg hpass
      have htestbench : ahbTestbench.read t addr =
          ((t.ahbTransaction addr false 0).1, (t.ahbTransaction addr false 0).2.2,
            (t.ahbTransaction addr false 0).2.1) := if_neg hpass
      rw [hregisters, htestbench]
      exact ⟨hrdata rfl, hirq, hshows⟩
  write {r t} addr data h := by
    have hserviced : ∀ (r : AhbRegisters) (t : AhbTb), t.Shows r →
        (t.ahbTransaction addr true data).2.1 = some (r.gpio.writeRegister addr data).irqMask ∧
          (t.ahbTransaction addr true data).2.2.Shows
            { r with gpio := r.gpio.writeRegister addr data } := fun r t h =>
      ⟨(AhbTb.ahbTransaction_serviced h addr true data).irq,
        (AhbTb.ahbTransaction_serviced h addr true data).shows⟩
    by_cases hpass : addr = passIndicator
    · simp only [ahbRegisters, ahbTestbench, if_pos hpass]
      exact hserviced { r with lastIndicator := data } { t with lastIndicator := data }
        ⟨h.rstn, h.noRequest, h.quiet, h.gpio, rfl, h.timeouts⟩
    · simp only [ahbRegisters, ahbTestbench, if_neg hpass]
      exact hserviced r t h

/-! ## The runs of the harness -/

/-- What `main` does after the reset, any number of times in any order: a call of the emulator,
or two clock cycles. -/
inductive AhbPhase
  | step (maxInstructions : ℤ)
  | settle

/-- The phases with the device `dev` and the two clock cycles `settle`: what the calls return, and
the state they leave. -/
def runPhases {δ : Type} (dev : Device δ) (settle : State δ → State δ) :
    List AhbPhase → State δ → List ℕ × State δ
  | [], s => ([], s)
  | .step n :: phases, s =>
    let (executed, s) := rvStep dev n s
    let (counts, s) := runPhases dev settle phases s
    (executed :: counts, s)
  | .settle :: phases, s => runPhases dev settle phases (settle s)

/-- The phases of `main`. -/
def ahbPhases (stepBatch : ℤ) : List AhbPhase :=
  [.step stepBatch, .settle, .step stepBatch, .settle, .step stepBatch, .settle, .step stepBatch]

/-- A tick between the accesses. -/
def State.ahbTick (s : State AhbTb) : State AhbTb :=
  let (irq, t) := s.device.tick
  match irq with
  | some mask => rvSetIrq mask { s with device := t }
  | none => { s with device := t }

/-- Up to the first phase: `top` is what the module powers up to, `block` what `malloc` returned. -/
def ahbBoot (firmware : Option (List Byte)) (block : ℕ → Byte) (top : TbTopAhb) : State AhbTb :=
  let t : AhbTb :=
    { clk := false, rstn := false, req := ⟨false, 0, false, 0⟩, top := top, lastIndicator := 0
      timeouts := 0 }
  let s := rvReset 0 (rvInit firmware (1 <<< 20) (some block) (State.start t))
  let s := State.ahbTick^[4] s
  State.ahbTick^[2] { s with device := { s.device with rstn := true } }

def ahbTbRun (phases : List AhbPhase) : State AhbTb → List ℕ × State AhbTb :=
  runPhases ahbTestbench State.ahbTick^[4] phases

/-- `gpio_out` cleared by the handler, `gpio_ie` unchanged, and the pass indicator written. -/
def AhbTb.pass (t : AhbTb) : Bool :=
  t.top.gpio.gpioOut = 0 && t.top.gpio.gpioIe = 1 && t.lastIndicator = 1

/-! The same without a bus: a clock cycle only shows the interrupt line. -/

def State.ahbCycle (s : State AhbRegisters) : State AhbRegisters :=
  rvSetIrq s.device.gpio.irqMask s

def ahbRegistersBoot (firmware : Option (List Byte)) (block : ℕ → Byte) (gpio : AhbGpio) :
    State AhbRegisters :=
  let r : AhbRegisters := { gpio := gpio, lastIndicator := 0 }
  let s := rvReset 0 (rvInit firmware (1 <<< 20) (some block) (State.start r))
  let s := rvSetIrq gpio.irqMask { s with device := { r with gpio := .reset } }
  State.ahbCycle^[2] s

def ahbRegistersRun (phases : List AhbPhase) : State AhbRegisters → List ℕ × State AhbRegisters :=
  runPhases ahbRegisters State.ahbCycle^[2] phases

def AhbRegisters.pass (r : AhbRegisters) : Bool :=
  r.gpio.gpioOut = 0 && r.gpio.gpioIe = 1 && r.lastIndicator = 1

/-- The emulator in front of the module, and the one in front of the registers it shows. -/
def ShowsRegisters (r : State AhbRegisters) (s : State AhbTb) : Prop :=
  r.InFront (fun r t => t.Shows r) s

section
variable {r : State AhbRegisters} {s : State AhbTb}

theorem State.ahbTick_high (hclk : s.device.clk = true) :
    s.ahbTick = { s with device := { s.device with clk := false } } := by
  rw [State.ahbTick, AhbTb.tick, hclk]
  rfl

theorem State.ahbTick_low (hclk : s.device.clk = false) :
    s.ahbTick = rvSetIrq s.device.top.gpio.irqMask { s with
      device := { s.device with
        clk := true, top := s.device.top.posedge s.device.rstn s.device.req } } := by
  rw [State.ahbTick, AhbTb.tick, hclk]
  rfl

theorem State.ahbTick_two (hclk : s.device.clk = false) :
    State.ahbTick^[2] s = rvSetIrq s.device.top.gpio.irqMask { s with
      device := { s.device with
        clk := false, top := s.device.top.posedge s.device.rstn s.device.req } } := by
  have hlow := State.ahbTick_low hclk
  have hhigh : s.ahbTick.device.clk = true := by rw [hlow]; rfl
  have htwo : State.ahbTick^[2] s = s.ahbTick.ahbTick := rfl
  rw [htwo, State.ahbTick_high hhigh, hlow]
  rfl

theorem ShowsRegisters.ahbTick_high (h : ShowsRegisters r s) (hclk : s.device.clk = true) :
    ShowsRegisters r s.ahbTick ∧ s.ahbTick.device.clk = false := by
  obtain ⟨hrstn, hreq, hquiet, hgpio, hindicator, htimeouts⟩ := h.device
  rw [State.ahbTick_high hclk]
  exact ⟨h.setDevice ⟨hrstn, hreq, hquiet, hgpio, hindicator, htimeouts⟩, rfl⟩

theorem ShowsRegisters.ahbTick_low (h : ShowsRegisters r s) (hclk : s.device.clk = false) :
    ShowsRegisters r.ahbCycle s.ahbTick ∧ s.ahbTick.device.clk = true := by
  obtain ⟨hrstn, hreq, hquiet, hgpio, hindicator, htimeouts⟩ := h.device
  obtain ⟨hquiet', hgpio'⟩ := hquiet.posedge hreq
  rw [State.ahbTick_low hclk, State.ahbCycle, ← hgpio, hrstn]
  exact ⟨(h.setDevice ⟨hrstn, hreq, hquiet', hgpio'.trans hgpio, hindicator, htimeouts⟩).rvSetIrq _,
    rfl⟩

/-- Four ticks are two cycles, wherever the clock stands. -/
theorem ShowsRegisters.settle (h : ShowsRegisters r s) :
    ShowsRegisters (State.ahbCycle^[2] r) (State.ahbTick^[4] s) := by
  dsimp only [Function.iterate_succ, Function.iterate_zero, Function.comp_apply, id_eq]
  cases hclk : s.device.clk with
  | false =>
    obtain ⟨h₁, hclk₁⟩ := h.ahbTick_low hclk
    obtain ⟨h₂, hclk₂⟩ := h₁.ahbTick_high hclk₁
    obtain ⟨h₃, hclk₃⟩ := h₂.ahbTick_low hclk₂
    exact (h₃.ahbTick_high hclk₃).1
  | true =>
    obtain ⟨h₁, hclk₁⟩ := h.ahbTick_high hclk
    obtain ⟨h₂, hclk₂⟩ := h₁.ahbTick_low hclk₁
    obtain ⟨h₃, hclk₃⟩ := h₂.ahbTick_high hclk₂
    exact (h₃.ahbTick_low hclk₃).1

theorem ShowsRegisters.runPhases (h : ShowsRegisters r s) (phases : List AhbPhase) :
    (ahbTbRun phases s).1 = (ahbRegistersRun phases r).1 ∧
      ShowsRegisters (ahbRegistersRun phases r).2 (ahbTbRun phases s).2 := by
  induction phases generalizing r s with
  | nil => exact ⟨rfl, h⟩
  | cons phase phases ih =>
    cases phase with
    | step n =>
      obtain ⟨hcount, hstep⟩ := State.InFront.rvStep ahbTestbench_simulation h n
      obtain ⟨hcounts, hrun⟩ := ih hstep
      exact ⟨congrArg₂ List.cons hcount hcounts, hrun⟩
    | settle => exact ih h.settle

theorem ahbBoot_shows (firmware : Option (List Byte)) (block : ℕ → Byte) (top : TbTopAhb) :
    ShowsRegisters (ahbRegistersBoot firmware block top.gpio) (ahbBoot firmware block top) := by
  obtain ⟨t, ht⟩ : ∃ t, t = AhbTb.mk false false ⟨false, 0, false, 0⟩ top 0 0 := ⟨_, rfl⟩
  obtain ⟨s, hs⟩ : ∃ s, s = rvReset 0 (rvInit firmware (1 <<< 20) (some block) (State.start t)) :=
    ⟨_, rfl⟩
  obtain ⟨r, hr⟩ : ∃ r, r = rvReset 0 (rvInit firmware (1 <<< 20) (some block)
      (State.start (AhbRegisters.mk top.gpio 0))) := ⟨_, rfl⟩
  have hinit : r.InFront (fun _ t' => t' = t) s := by
    rw [hr, hs]
    exact ((State.InFront.start (D := fun _ t' => t' = t) rfl).rvInit _ _ _).rvReset 0
  have hdevice : s.device = t := hinit.device
  -- the first edge resets the module, the second one finds it reset
  have hfirst : State.ahbTick^[2] s =
      rvSetIrq top.gpio.irqMask { s with device := { t with top := .reset } } := by
    rw [State.ahbTick_two (by rw [hdevice, ht]), hdevice, ht]
    rfl
  have hsecond : State.ahbTick^[4] s = rvSetIrq AhbGpio.reset.irqMask
      (rvSetIrq top.gpio.irqMask { s with device := { t with top := .reset } }) := by
    rw [Function.iterate_add_apply _ 2 2, hfirst, State.ahbTick_two (by rw [ht]; rfl), ht]
    rfl
  have hboot : ahbBoot firmware block top = State.ahbTick^[2] { State.ahbTick^[4] s with
      device := { (State.ahbTick^[4] s).device with rstn := true } } := by
    rw [hs, ht]
    rfl
  have hregisters : ahbRegistersBoot firmware block top.gpio = State.ahbCycle^[2]
      (rvSetIrq top.gpio.irqMask { r with device := ⟨.reset, 0⟩ }) := by
    rw [hr]
    rfl
  rw [hboot, hsecond, hregisters, State.ahbTick_two (by rw [ht]; rfl), ht]
  have hshows : (AhbTb.mk false true ⟨false, 0, false, 0⟩
      (TbTopAhb.reset.posedge true ⟨false, 0, false, 0⟩) 0 0).Shows ⟨.reset, 0⟩ :=
    ⟨rfl, rfl, ⟨rfl, rfl, rfl⟩, rfl, rfl, rfl⟩
  exact (((hinit.setDevice hshows).rvSetIrq _).rvSetIrq _).rvSetIrq _

end

/-- Whatever the firmware, the power-up state of the module and the order of the phases, the
emulator behind the bus runs as the one in front of the registers: the calls return the same, the
two states differ only in the device, no transaction times out and the verdict is the same. -/
theorem ahbTbRun_registers (firmware : Option (List Byte)) (block : ℕ → Byte) (top : TbTopAhb)
    (phases : List AhbPhase) :
    let r := ahbRegistersRun phases (ahbRegistersBoot firmware block top.gpio)
    let s := ahbTbRun phases (ahbBoot firmware block top)
    s.1 = r.1 ∧ ShowsRegisters r.2 s.2 ∧ s.2.device.timeouts = 0 ∧
      s.2.device.pass = r.2.device.pass := by
  intro r s
  obtain ⟨hcounts, hshows⟩ := (ahbBoot_shows firmware block top).runPhases phases
  refine ⟨hcounts, hshows, hshows.device.timeouts, ?_⟩
  rw [AhbTb.pass, hshows.device.gpio, hshows.device.lastIndicator]
  rfl

end Herve
