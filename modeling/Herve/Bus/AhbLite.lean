import Herve.Lib.Clocked
import Herve.RiscV.Bytes

/-! `ahb_lite_bfm.sv`, `ahb_gpio.sv` and the wiring of `tb_top_ahb.sv`. Registers take their
values at a rising edge of the clock; what the modules compute between edges is a function of
them. -/

namespace Herve
open RiscV (Word)

/-- The request lines of the BFM, `ahb_req_valid` and so on. -/
structure AhbRequest where
  valid : Bool
  addr : Word
  write : Bool
  wdata : Word

structure AhbMaster where
  haddr : Word
  htrans : BitVec 2
  hwrite : Bool
  hsize : BitVec 3
  hwdata : Word

inductive BfmState
  | idle
  | addr
  | data
  | done
  deriving DecidableEq

structure AhbLiteBfm extends AhbMaster where
  state : BfmState
  reqReady : Bool
  reqRdata : Word

def AhbLiteBfm.reset : AhbLiteBfm where
  haddr := 0
  htrans := 0b00#2
  hwrite := false
  hsize := 0b000#3
  hwdata := 0
  state := .idle
  reqReady := false
  reqRdata := 0

/-- `ahb_lite_bfm` at a rising edge of `HCLK`. -/
def AhbLiteBfm.posedge (hresetn hready : Bool) (hrdata : Word) (req : AhbRequest)
    (b : AhbLiteBfm) : AhbLiteBfm :=
  if !hresetn then .reset
  else match b.state with
    | .idle =>
      if req.valid then
        { b with
          haddr := req.addr, htrans := 0b10#2, hwrite := req.write, hsize := 0b010#3
          hwdata := if req.write then req.wdata else b.hwdata
          reqReady := false, state := .addr }
      else { b with reqReady := false, htrans := 0b00#2 }
    | .addr => { b with state := .data }
    | .data =>
      if hready then
        { b with
          reqRdata := if !b.hwrite then hrdata else b.reqRdata
          reqReady := true, state := .done }
      else b
    | .done =>
      if !req.valid then { b with reqReady := false, state := .idle }
      else { b with reqReady := false }

/-- The registers of `ahb_gpio`, which are its outputs `gpio_out` and `gpio_ie`. -/
structure AhbGpio where
  gpioOut : Word
  gpioIe : Word

def AhbGpio.reset : AhbGpio := ⟨0, 0⟩

def AhbMaster.accessValid (hsel : Bool) (m : AhbMaster) : Bool :=
  hsel && (m.htrans == 0b10#2 || m.htrans == 0b11#2)

def AhbMaster.byteOffset (m : AhbMaster) : BitVec 4 := m.haddr.extractLsb' 0 4

/-- `HREADY`: the slave never waits. -/
def AhbGpio.hready : Bool := true

def AhbGpio.hrdata (hsel extIrq : Bool) (m : AhbMaster) (g : AhbGpio) : Word :=
  if hsel && !m.hwrite && (m.htrans == 0b10#2 || m.htrans == 0b11#2) then
    if m.byteOffset = 0x0#4 then g.gpioOut
    else if m.byteOffset = 0x4#4 then g.gpioIe
    else if m.byteOffset = 0x8#4 then (BitVec.ofBool extIrq).setWidth 32
    else 0
  else 0

/-- `ahb_gpio` at a rising edge of `HCLK`. -/
def AhbGpio.posedge (hresetn hsel : Bool) (m : AhbMaster) (g : AhbGpio) : AhbGpio :=
  if !hresetn then .reset
  else if m.accessValid hsel && m.hwrite then
    if m.byteOffset = 0x0#4 then { g with gpioOut := m.hwdata }
    else if m.byteOffset = 0x4#4 then { g with gpioIe := m.hwdata }
    else g
  else g

structure TbTopAhb where
  bfm : AhbLiteBfm
  gpio : AhbGpio

def TbTopAhb.reset : TbTopAhb := ⟨.reset, .reset⟩

def AhbMaster.hselGpio (m : AhbMaster) : Bool :=
  0x10000000#32 ≤ m.haddr && m.haddr < 0x10000010#32

def TbTopAhb.extIrq (s : TbTopAhb) : Bool := s.gpio.gpioOut.getLsbD 0

/-- `tb_top_ahb` at a rising edge of `clk`: both modules see what the other one drove before. -/
def TbTopAhb.posedge (rstn : Bool) (req : AhbRequest) (s : TbTopAhb) : TbTopAhb :=
  let m := s.bfm.toAhbMaster
  { bfm := s.bfm.posedge rstn AhbGpio.hready (s.gpio.hrdata m.hselGpio s.extIrq m) req
    gpio := s.gpio.posedge rstn m.hselGpio m }

/-- The BFM takes a request at an edge with these lines. -/
def AhbLiteBfm.takes (req : AhbRequest) (b : AhbLiteBfm) : Option AhbRequest :=
  if b.state = .idle ∧ req.valid = true then some req else none

/-- After reset: the state before edge `n` under the lines `req`. -/
def ahbRun (req : ℕ → AhbRequest) : ℕ → TbTopAhb :=
  Clocked.run (TbTopAhb.posedge true) .reset req

/-- The requests taken at the edges before edge `n`. -/
def ahbTaken (req : ℕ → AhbRequest) : ℕ → List AhbRequest :=
  Clocked.log (TbTopAhb.posedge true) (fun r s => s.bfm.takes r) .reset req

end Herve
