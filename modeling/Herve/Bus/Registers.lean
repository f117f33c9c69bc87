import Herve.Bus.AhbLite

/-! The GPIO registers as the requester sees them. The slave repeats a write at every edge until
the master turns to the next request; that does no harm because the write is the same each time,
so that the registers are a function of the requests alone. -/

namespace Herve
open RiscV (Word)

def gpioOutAddr : Word := 0x10000000#32
def gpioIeAddr : Word := 0x10000004#32
def gpioStatusAddr : Word := 0x10000008#32

/-- The data of the last write request to `a`, or 0. -/
def lastWrite (a : Word) (taken : List AhbRequest) : Word :=
  (((taken.filter fun r => r.write = true ∧ r.addr = a).getLast?).map AhbRequest.wdata).getD 0

def gpioAfter (taken : List AhbRequest) : AhbGpio :=
  ⟨lastWrite gpioOutAddr taken, lastWrite gpioIeAddr taken⟩

theorem lastWrite_concat (a : Word) (taken : List AhbRequest) (r : AhbRequest) :
    lastWrite a (taken ++ [r]) =
      if r.write = true ∧ r.addr = a then r.wdata else lastWrite a taken := by
  unfold lastWrite
  rw [List.filter_append]
  split_ifs with h
  · rw [List.filter_cons_of_pos (by simpa using h), List.filter_nil, List.getLast?_concat]
    rfl
  · rw [List.filter_cons_of_neg (by simpa using h), List.filter_nil, List.append_nil]

theorem gpioAfter_concat (taken : List AhbRequest) (r : AhbRequest) :
    gpioAfter (taken ++ [r]) =
      ⟨if r.write = true ∧ r.addr = gpioOutAddr then r.wdata else (gpioAfter taken).gpioOut,
        if r.write = true ∧ r.addr = gpioIeAddr then r.wdata else (gpioAfter taken).gpioIe⟩ := by
  rw [gpioAfter, lastWrite_concat, lastWrite_concat]
  rfl

theorem gpioAfter_concat_of_ne (taken : List AhbRequest) {r : AhbRequest}
    (h : r.write = true → r.addr ≠ gpioOutAddr ∧ r.addr ≠ gpioIeAddr) :
    gpioAfter (taken ++ [r]) = gpioAfter taken := by
  rw [gpioAfter_concat, if_neg fun hr => (h hr.1).1 hr.2, if_neg fun hr => (h hr.1).2 hr.2]

/-! ## The slave under the lines of the master -/

/-- The register at offset `k` is the one at address `0x10000000 + k`. -/
theorem AhbMaster.selected_iff (m : AhbMaster) (k : BitVec 4) :
    m.hselGpio = true ∧ m.byteOffset = k ↔ m.haddr = 0x10000000#32 + k.setWidth 32 := by
  have hk := k.isLt
  have hoffset : m.byteOffset.toNat = m.haddr.toNat % 16 := by
    rw [AhbMaster.byteOffset, BitVec.extractLsb'_toNat, Nat.shiftRight_zero]
  rw [AhbMaster.hselGpio, Bool.and_eq_true, decide_eq_true_iff, decide_eq_true_iff,
    BitVec.le_def, BitVec.lt_def, ← BitVec.toNat_inj, ← BitVec.toNat_inj, hoffset,
    BitVec.toNat_add, BitVec.toNat_setWidth, BitVec.toNat_ofNat, BitVec.toNat_ofNat]
  omega

structure AhbMaster.Drives (r : AhbRequest) (m : AhbMaster) : Prop where
  haddr : m.haddr = r.addr
  htrans : m.htrans = 0b10#2
  hwrite : m.hwrite = r.write
  hwdata : r.write = true → m.hwdata = r.wdata

theorem AhbGpio.posedge_inactive (hsel : Bool) {m : AhbMaster} (g : AhbGpio)
    (h : m.htrans = 0b00#2) : g.posedge true hsel m = g := by
  have hvalid : m.accessValid hsel = false := by
    rw [AhbMaster.accessValid, h]
    exact Bool.and_false _
  rw [AhbGpio.posedge, hvalid]
  rfl

theorem AhbGpio.posedge_again (hsel : Bool) (m : AhbMaster) (g : AhbGpio) :
    (g.posedge true hsel m).posedge true hsel m = g.posedge true hsel m := by
  unfold AhbGpio.posedge
  split_ifs <;> rfl

namespace AhbMaster.Drives
variable {r : AhbRequest} {m : AhbMaster}

theorem out_iff (h : m.Drives r) :
    r.addr = gpioOutAddr ↔ m.hselGpio = true ∧ m.byteOffset = 0x0#4 := by
  rw [m.selected_iff, h.haddr]
  rfl

theorem ie_iff (h : m.Drives r) :
    r.addr = gpioIeAddr ↔ m.hselGpio = true ∧ m.byteOffset = 0x4#4 := by
  rw [m.selected_iff, h.haddr]
  rfl

theorem status_iff (h : m.Drives r) :
    r.addr = gpioStatusAddr ↔ m.hselGpio = true ∧ m.byteOffset = 0x8#4 := by
  rw [m.selected_iff, h.haddr]
  rfl

theorem posedge (h : m.Drives r) (g : AhbGpio) :
    g.posedge true m.hselGpio m =
      ⟨if r.write = true ∧ r.addr = gpioOutAddr then r.wdata else g.gpioOut,
        if r.write = true ∧ r.addr = gpioIeAddr then r.wdata else g.gpioIe⟩ := by
  rw [AhbGpio.posedge, AhbMaster.accessValid, h.htrans, h.hwrite]
  simp only [h.out_iff, h.ie_iff]
  cases hw : r.write with
  | false => simp
  | true =>
    rw [h.hwdata hw]
    cases hsel : m.hselGpio with
    | false => simp
    | true =>
      by_cases hout : m.byteOffset = 0x0#4
      · simp [hout]
      · by_cases hie : m.byteOffset = 0x4#4
        · simp [hie]
        · simp [hout, hie]

theorem hrdata (h : m.Drives r) (extIrq : Bool) (g : AhbGpio) (hr : r.write = false) :
    g.hrdata m.hselGpio extIrq m =
      if r.addr = gpioOutAddr then g.gpioOut
      else if r.addr = gpioIeAddr then g.gpioIe
      else if r.addr = gpioStatusAddr then (BitVec.ofBool extIrq).setWidth 32
      else 0 := by
  rw [AhbGpio.hrdata, h.htrans, h.hwrite, hr]
  simp only [h.out_iff, h.ie_iff, h.status_iff]
  cases hsel : m.hselGpio with
  | false => simp
  | true => simp

end AhbMaster.Drives

/-! ## The edges of a request -/

namespace AhbLiteBfm
variable {b : AhbLiteBfm} {req : AhbRequest}

theorem takes_eq_some_iff :
    b.takes req = some req ↔ b.state = .idle ∧ req.valid = true := by
  unfold takes
  split_ifs with h
  · exact iff_of_true rfl h
  · exact iff_of_false (fun h' => nomatch h') h

theorem takes_eq_none (h : ¬ (b.state = .idle ∧ req.valid = true)) : b.takes req = none := if_neg h

theorem posedge_takes (hready : Bool) (hrdata : Word) (h : b.state = .idle)
    (hv : req.valid = true) :
    (b.posedge true hready hrdata req).Drives req ∧
      (b.posedge true hready hrdata req).state = .addr ∧
      (b.posedge true hready hrdata req).reqReady = false := by
  have hedge : b.posedge true hready hrdata req =
      { b with
        haddr := req.addr, htrans := 0b10#2, hwrite := req.write, hsize := 0b010#3
        hwdata := if req.write then req.wdata else b.hwdata
        reqReady := false, state := .addr } := by
    rw [AhbLiteBfm.posedge, h]
    exact if_pos hv
  rw [hedge]
  exact ⟨⟨rfl, rfl, rfl, fun hw => if_pos hw⟩, rfl, rfl⟩

theorem posedge_idle (hready : Bool) (hrdata : Word) (h : b.state = .idle)
    (hv : req.valid = false) :
    b.posedge true hready hrdata req = { b with reqReady := false, htrans := 0b00#2 } := by
  rw [AhbLiteBfm.posedge, h]
  exact if_neg fun hv' => Bool.false_ne_true (hv.symm.trans hv')

theorem posedge_addr (hready : Bool) (hrdata : Word) (h : b.state = .addr) :
    b.posedge true hready hrdata req = { b with state := .data } := by
  rw [AhbLiteBfm.posedge, h]
  rfl

theorem posedge_data (hrdata : Word) (h : b.state = .data) :
    b.posedge true true hrdata req =
      { b with
        reqRdata := if !b.hwrite then hrdata else b.reqRdata
        reqReady := true, state := .done } := by
  rw [AhbLiteBfm.posedge, h]
  rfl

theorem posedge_busy (hready : Bool) (hrdata : Word) (h : b.state ≠ .idle) :
    (b.posedge true hready hrdata req).toAhbMaster = b.toAhbMaster := by
  rw [AhbLiteBfm.posedge]
  cases hs : b.state with
  | idle => exact absurd hs h
  | addr => rfl
  | data =>
    cases hready <;> rfl
  | done =>
    cases req.valid <;> rfl

end AhbLiteBfm

/-! ## The registers along a run -/

/-- The next edge brings the registers to what the requests make. -/
def TbTopAhb.Settles (taken : List AhbRequest) (s : TbTopAhb) : Prop :=
  s.gpio.posedge true s.bfm.hselGpio s.bfm.toAhbMaster = gpioAfter taken

theorem settles_reset : TbTopAhb.reset.Settles [] := AhbGpio.posedge_inactive _ _ rfl

theorem settles_posedge (req : AhbRequest) (taken : List AhbRequest) (s : TbTopAhb)
    (h : s.Settles taken) :
    (s.posedge true req).Settles (taken ++ (s.bfm.takes req).toList) := by
  have hgpio : (s.posedge true req).gpio = gpioAfter taken := h
  by_cases hidle : s.bfm.state = .idle
  · cases hv : req.valid with
    | false =>
      have hlines : (s.posedge true req).bfm.htrans = 0b00#2 :=
        congrArg (fun b : AhbLiteBfm => b.htrans) (AhbLiteBfm.posedge_idle _ _ hidle hv)
      rw [AhbLiteBfm.takes_eq_none fun ht => by rw [hv] at ht; exact Bool.noConfusion ht.2,
        Option.toList_none, List.append_nil, TbTopAhb.Settles, hgpio]
      exact AhbGpio.posedge_inactive _ _ hlines
    | true =>
      -- the lines turn to the new request, after the last edge under the old ones
      have hdrives : (s.posedge true req).bfm.Drives req :=
        (AhbLiteBfm.posedge_takes _ _ hidle hv).1
      rw [AhbLiteBfm.takes_eq_some_iff.2 ⟨hidle, hv⟩, Option.toList_some, TbTopAhb.Settles, hgpio]
      exact (hdrives.posedge _).trans (gpioAfter_concat taken req).symm
  · -- the same write again, or none
    have hlines : (s.posedge true req).bfm.toAhbMaster = s.bfm.toAhbMaster :=
      AhbLiteBfm.posedge_busy _ _ hidle
    rw [AhbLiteBfm.takes_eq_none fun ht => hidle ht.1, Option.toList_none, List.append_nil,
      TbTopAhb.Settles, hgpio, hlines, ← h, AhbGpio.posedge_again]

variable (req : ℕ → AhbRequest)

theorem ahb_settles (n : ℕ) : (ahbRun req n).Settles (ahbTaken req n) :=
  Clocked.log_invariant (I := TbTopAhb.Settles) settles_reset settles_posedge n

/-- A request has reached the registers one edge after it was taken. -/
theorem ahb_gpio (n : ℕ) : (ahbRun req (n + 1)).gpio = gpioAfter (ahbTaken req n) :=
  ahb_settles req n

def AhbTakes (req : ℕ → AhbRequest) (t : ℕ) : Prop :=
  (ahbRun req t).bfm.state = .idle ∧ (req t).valid = true

variable {req} {t : ℕ}

theorem ahbTaken_succ (h : AhbTakes req t) : ahbTaken req (t + 1) = ahbTaken req t ++ [req t] :=
  Clocked.log_succ_some (AhbLiteBfm.takes_eq_some_iff.2 h)

theorem ahbTaken_of_none {m n : ℕ} (hmn : m ≤ n) (h : ∀ j, m ≤ j → j < n → ¬ AhbTakes req j) :
    ahbTaken req n = ahbTaken req m :=
  Clocked.log_of_none hmn fun j hj hjn => AhbLiteBfm.takes_eq_none (h j hj hjn)

theorem ahb_takes (h : AhbTakes req t) :
    (ahbRun req (t + 1)).bfm.Drives (req t) ∧ (ahbRun req (t + 1)).bfm.state = .addr ∧
      (ahbRun req (t + 1)).bfm.reqReady = false :=
  AhbLiteBfm.posedge_takes _ _ h.1 h.2

theorem ahb_gpio_idle (h : (ahbRun req t).bfm.state = .idle) :
    (ahbRun req t).gpio = gpioAfter (ahbTaken req t) := by
  cases t with
  | zero => rfl
  | succ t =>
    have hnone : ¬ AhbTakes req t := fun ht =>
      absurd ((ahb_takes ht).2.1.symm.trans h) (by decide)
    rw [ahb_gpio, ahbTaken_of_none (Nat.le_succ t) fun j hj hjt => ?_]
    exact Nat.le_antisymm (Nat.le_of_lt_succ hjt) hj ▸ hnone

theorem ahb_transaction (h : AhbTakes req t) :
    ((ahbRun req (t + 1)).bfm.state = .addr ∧ (ahbRun req (t + 1)).bfm.reqReady = false) ∧
      ((ahbRun req (t + 2)).bfm.state = .data ∧ (ahbRun req (t + 2)).bfm.reqReady = false) ∧
      (ahbRun req (t + 3)).bfm.reqReady = true ∧
      ((req t).write = false → (ahbRun req (t + 3)).bfm.reqRdata =
        if (req t).addr = gpioOutAddr then (ahbRun req (t + 2)).gpio.gpioOut
        else if (req t).addr = gpioIeAddr then (ahbRun req (t + 2)).gpio.gpioIe
        else if (req t).addr = gpioStatusAddr then
          (BitVec.ofBool (ahbRun req (t + 2)).extIrq).setWidth 32
        else 0) := by
  obtain ⟨hdrives, haddr, hready⟩ := ahb_takes h
  have h₂ : (ahbRun req (t + 2)).bfm = { (ahbRun req (t + 1)).bfm with state := .data } :=
    AhbLiteBfm.posedge_addr _ _ haddr
  have hdata : (ahbRun req (t + 2)).bfm.state = .data := by rw [h₂]
  have hlines : (ahbRun req (t + 2)).bfm.Drives (req t) := by
    rw [h₂]
    exact hdrives
  have h₃ : (ahbRun req (t + 3)).bfm = { (ahbRun req (t + 2)).bfm with
      reqRdata := if !(ahbRun req (t + 2)).bfm.hwrite then
        (ahbRun req (t + 2)).gpio.hrdata (ahbRun req (t + 2)).bfm.hselGpio
          (ahbRun req (t + 2)).extIrq (ahbRun req (t + 2)).bfm.toAhbMaster
        else (ahbRun req (t + 2)).bfm.reqRdata
      reqReady := true, state := .done } :=
    AhbLiteBfm.posedge_data _ hdata
  refine ⟨⟨haddr, hready⟩, ⟨hdata, ?_⟩, ?_, fun hread => ?_⟩
  · rw [h₂]
    exact hready
  · exact congrArg AhbLiteBfm.reqReady h₃
  · refine (congrArg AhbLiteBfm.reqRdata h₃).trans ?_
    rw [if_pos (by rw [hlines.hwrite, hread]; rfl)]
    exact hlines.hrdata _ _ hread

/-- A request that writes no register leaves both alone, until the next one is taken. -/
theorem ahb_gpio_keeps (h : AhbTakes req t)
    (hkeeps : (req t).write = true → (req t).addr ≠ gpioOutAddr ∧ (req t).addr ≠ gpioIeAddr)
    {n : ℕ} (hn : t ≤ n) (hnone : ∀ j, t < j → j < n → ¬ AhbTakes req j) :
    (ahbRun req n).gpio = (ahbRun req t).gpio := by
  rcases hn.eq_or_lt with rfl | hlt
  · rfl
  · obtain ⟨k, rfl⟩ := Nat.exists_eq_add_of_lt hlt
    have htaken : gpioAfter (ahbTaken req (t + k)) = gpioAfter (ahbTaken req t) := by
      cases k with
      | zero => rfl
      | succ k =>
        rw [ahbTaken_of_none (m := t + 1) (by omega) fun j hj hjn => hnone j hj (by omega),
          ahbTaken_succ h, gpioAfter_concat_of_ne _ hkeeps]
    rw [ahb_gpio, htaken, ahb_gpio_idle h.1]

/-- How the request of edge `t` is served. Edge `t + 2` acknowledges it, so that the requester
sees the acknowledgement and the data before edge `t + 3`. -/
structure AhbServed (req : ℕ → AhbRequest) (t : ℕ) : Prop where
  waits : ∀ n, t < n → n ≤ t + 2 → (ahbRun req n).bfm.reqReady = false
  acknowledged : (ahbRun req (t + 3)).bfm.reqReady = true
  readOut : (req t).write = false → (req t).addr = gpioOutAddr →
    (ahbRun req (t + 3)).bfm.reqRdata = lastWrite gpioOutAddr (ahbTaken req t)
  readIe : (req t).write = false → (req t).addr = gpioIeAddr →
    (ahbRun req (t + 3)).bfm.reqRdata = lastWrite gpioIeAddr (ahbTaken req t)
  readStatus : (req t).write = false → (req t).addr = gpioStatusAddr →
    ∀ n, t ≤ n → n ≤ t + 3 → (ahbRun req (t + 3)).bfm.reqRdata =
      (BitVec.ofBool ((ahbRun req n).gpio.gpioOut.getLsbD 0)).setWidth 32
  readOther : (req t).write = false → (req t).addr ≠ gpioOutAddr → (req t).addr ≠ gpioIeAddr →
    (req t).addr ≠ gpioStatusAddr → (ahbRun req (t + 3)).bfm.reqRdata = 0
  writeOther : (req t).write = true → (req t).addr ≠ gpioOutAddr → (req t).addr ≠ gpioIeAddr →
    ∀ n, t ≤ n → (∀ j, t < j → j < n → ¬ AhbTakes req j) →
      (ahbRun req n).gpio = (ahbRun req t).gpio

/-- Under any request lines every request taken is served, and the registers hold what the
requests wrote. -/
theorem ahb_registers (req : ℕ → AhbRequest) :
    (∀ t, AhbTakes req t → AhbServed req t) ∧
      ∀ n, (ahbRun req (n + 1)).gpio.gpioOut = lastWrite gpioOutAddr (ahbTaken req n) ∧
        (ahbRun req (n + 1)).gpio.gpioIe = lastWrite gpioIeAddr (ahbTaken req n) := by
  constructor
  · intro t h
    obtain ⟨⟨haddr, hready₁⟩, ⟨hdata, hready₂⟩, hready₃, hrdata⟩ := ahb_transaction h
    have hbusy : ∀ j, t < j → j < t + 3 → ¬ AhbTakes req j := by
      rintro j hj hjt ⟨hidle, -⟩
      obtain rfl | rfl : j = t + 1 ∨ j = t + 2 := by omega
      · exact absurd (haddr.symm.trans hidle) (by decide)
      · exact absurd (hdata.symm.trans hidle) (by decide)
    -- what a read finds is what stood there when it was taken
    have hread : (req t).write = false → ∀ n, t ≤ n → n ≤ t + 3 →
        (ahbRun req n).gpio = gpioAfter (ahbTaken req t) := by
      intro hw n hn hnt
      rw [ahb_gpio_keeps h (fun hw' => absurd (hw.symm.trans hw') Bool.false_ne_true) hn
        fun j hj hjn => hbusy j hj (hjn.trans_le hnt), ahb_gpio_idle h.1]
    have hread₂ : (req t).write = false →
        (ahbRun req (t + 2)).gpio = gpioAfter (ahbTaken req t) := fun hw =>
      hread hw (t + 2) (by omega) (by omega)
    refine ⟨fun n hn hnt => ?_, hready₃, fun hw ha => ?_, fun hw ha => ?_, fun hw ha n hn hnt => ?_,
      fun hw hout hie hstatus => ?_, fun _ hout hie n hn hnone => ?_⟩
    · obtain rfl | rfl : n = t + 1 ∨ n = t + 2 := by omega
      · exact hready₁
      · exact hready₂
    · rw [hrdata hw, if_pos ha, hread₂ hw]
      rfl
    · rw [hrdata hw, if_neg (by rw [ha]; decide), if_pos ha, hread₂ hw]
      rfl
    · rw [hrdata hw, if_neg (by rw [ha]; decide), if_neg (by rw [ha]; decide), if_pos ha,
        TbTopAhb.extIrq, hread₂ hw, hread hw n hn hnt]
    · rw [hrdata hw, if_neg hout, if_neg hie, if_neg hstatus]
    · exact ahb_gpio_keeps h (fun _ => ⟨hout, hie⟩) hn hnone
  · intro n
    rw [ahb_gpio]
    exact ⟨rfl, rfl⟩

/-- 5 written to `GPIO_OUT`, the request held until it is acknowledged, and then a read. -/
def writeThenRead (n : ℕ) : AhbRequest :=
  if n < 4 then ⟨decide (n < 3), gpioOutAddr, true, 5⟩ else ⟨true, gpioOutAddr, false, 0⟩

theorem ahb_registers_writeThenRead :
    AhbTakes writeThenRead 4 ∧ (ahbRun writeThenRead 7).bfm.reqReady = true ∧
      (ahbRun writeThenRead 7).bfm.reqRdata = 5 := by
  have htakes : AhbTakes writeThenRead 4 := ⟨by decide, by decide⟩
  have hserved := (ahb_registers writeThenRead).1 4 htakes
  refine ⟨htakes, hserved.acknowledged, ?_⟩
  rw [hserved.readOut rfl rfl]
  decide

end Herve
