import Herve.Zephyr.Firmware

/-! The timer demo end to end: emulator, timer module, device, firmware and harness. Between
two clock ticks the emulator is asleep in the main loop, and a tick does to the ports what one
line of arithmetic says; from that, what the harnesses see after any number of ticks. -/

namespace Herve
open RiscV Paths Guest

variable (gpioOut : TbTopZephyr → Word)

/-- The emulator sleeps in the main loop of the firmware, in front of the ports `tb`. -/
def IdlesAt (s : State TbTopZephyr) (tb : TbTopZephyr) : Prop :=
  ∃ g, s.Hosts firmwareTimer g ∧ AtMainLoop g tb ∧ g.wfiSleep = true

theorem IdlesAt.device {s : State TbTopZephyr} {tb : TbTopZephyr} (h : IdlesAt s tb) :
    s.device = tb := by
  obtain ⟨g, hosts, hmain, -⟩ := h
  exact (congrArg Guest.device hosts.guest).trans hmain.device

theorem clockEdge_hosts {s : State TbTopZephyr} {program : List Word} {g : Guest TbTopZephyr}
    (h : s.Hosts program g) (rstn : Bool) :
    (clockEdge rstn s).Hosts program
      { g with irqMask := g.device.irqMask rstn, device := g.device.posedge rstn } := by
  obtain ⟨rfl, hprogram⟩ := h
  exact ⟨rfl, hprogram.congr rfl⟩

/-! ## Start-up -/

theorem rvInit_hosts (block : ℕ → Byte) (tb : TbTopZephyr) :
    (rvReset 0 (rvInit (some (programBytes firmwareTimer)) (1 <<< 20) (some block)
      (State.start tb))).Hosts firmwareTimer (bootGuest tb) :=
  ⟨rfl, rvInit_runsProgram (by decide) (by decide) (by decide) block rfl⟩

theorem reset_hosts {s : State TbTopZephyr} {tb : TbTopZephyr}
    (h : s.Hosts firmwareTimer (bootGuest tb)) (n : ℕ) :
    ((clockEdge false)^[n + 1] s).Hosts firmwareTimer (bootGuest { tb with mtime := 0 }) := by
  induction n generalizing s tb with
  | zero => exact clockEdge_hosts h false
  | succ n ih =>
    have hedge : (clockEdge false s).Hosts firmwareTimer (bootGuest { tb with mtime := 0 }) :=
      clockEdge_hosts h false
    exact @ih _ { tb with mtime := 0 } hedge

/-- The ports when the firmware has fallen asleep for the first time. -/
def TbTopZephyr.booted : TbTopZephyr where
  memRead := 0
  irq := false
  memWrite := 0
  mtime := 0
  mtimecmpLo := 50000
  mtimecmpHi := 0

theorem harnessBoot_idles (block : ℕ → Byte) (mtime : BitVec 64) {edges step : ℕ}
    (hedges : 0 < edges) (hstep : 11 < step) :
    IdlesAt (harnessBoot (zephyrDevice gpioOut) (programBytes firmwareTimer) block mtime edges step)
      .booted := by
  obtain ⟨n, rfl⟩ := Nat.exists_eq_succ_of_ne_zero hedges.ne'
  have hreset := reset_hosts (rvInit_hosts block
    { memRead := 0, irq := false, memWrite := 0, mtime := mtime
      mtimecmpLo := 0xFFFFFFFF#32, mtimecmpHi := 0xFFFFFFFF#32 }) n
  obtain ⟨g, hpath, hmain, hirq, -⟩ := boot_path gpioOut
    { memRead := 0, irq := false, memWrite := 0, mtime := 0
      mtimecmpLo := 0xFFFFFFFF#32, mtimecmpHi := 0xFFFFFFFF#32 }
  have hwaits : g.Waits firmwareTimer := ⟨⟨11, rfl, hmain.pc⟩, fun h => h.2 hirq⟩
  have hquiet : ∀ tb, ¬ (bootGuest tb).Interrupted := fun _ h => h.1 (BitVec.zero_and)
  obtain ⟨-, hosts⟩ := hreset.rvStep_until_wfi _ rfl (hquiet _) hpath hwaits hstep
  exact ⟨_, hosts, ⟨hmain.base, hmain.pc, hmain.csrMstatus, hmain.csrMtvec, hmain.csrMie,
    hmain.device⟩, rfl⟩

/-! ## One clock tick -/

/-- What a tick does to the ports: the timer counts, and if it had reached its compare value, the
handler runs. -/
def TbTopZephyr.ticked (tb : TbTopZephyr) : TbTopZephyr :=
  if tb.mtimeGeMtimecmp then (tb.posedge true).handled gpioOut else tb.posedge true

theorem irqMask_quiet {tb : TbTopZephyr} (hirq : tb.irq = false) :
    tb.irqMask true = if tb.mtimeGeMtimecmp then 0x80#32 else 0 := by
  rw [TbTopZephyr.irqMask, hirq]
  cases tb.mtimeGeMtimecmp <;> rfl

section
variable {gpioOut} {step : ℕ} {s : State TbTopZephyr} {tb : TbTopZephyr} {g : Guest TbTopZephyr}

theorem serviceCall_asleep (h : s.Hosts firmwareTimer g) (hsleep : g.wfiSleep = true)
    (hirq : g.irqMask = 0) :
    serviceCall (zephyrDevice gpioOut) step s = (false, s) := by
  have hint : ¬ g.Interrupted := fun hint => hint.1 (by rw [hirq]; exact BitVec.zero_and)
  rw [serviceCall, h.rvStep_asleep _ hsleep hint]
  rfl

theorem serviceLoop_asleep (h : s.Hosts firmwareTimer g) (hsleep : g.wfiSleep = true)
    (hirq : g.irqMask = 0) :
    serviceLoop (zephyrDevice gpioOut) step s = s := by
  rw [serviceLoop, BreakLoop.loop_succ_false]
  · rw [serviceCall_asleep h hsleep hirq]
  · rw [serviceCall_asleep h hsleep hirq]

theorem dispatch_inHandler (hmain : AtMainLoop g tb) (hirq : g.irqMask = 0x80#32) :
    g.Interrupted ∧ InHandler g.dispatch tb ∧ g.dispatch.irqMask = 0 := by
  obtain ⟨regs, pc, irqMask, mstatus, mtvec, mepc, mcause, mie, wfiSleep, device⟩ := g
  obtain ⟨hbase, hpc, hmstatus, hmtvec, hmie, hdevice⟩ := hmain
  dsimp only at hbase hpc hmstatus hmtvec hmie hdevice hirq
  subst hpc hmstatus hmtvec hmie hdevice hirq
  refine ⟨⟨?_, ?_⟩, ⟨hbase, ?_, ?_, rfl, rfl, rfl, rfl⟩, ?_⟩ <;> dsimp only [Guest.dispatch] <;>
    decide

theorem serviceLoop_interrupted (h : s.Hosts firmwareTimer g) (hmain : AtMainLoop g tb)
    (hirq : g.irqMask = 0x80#32) (hstep : 9 < step) :
    IdlesAt (serviceLoop (zephyrDevice gpioOut) step s) (tb.handled gpioOut) := by
  obtain ⟨hint, hhandler, hcleared⟩ := dispatch_inHandler hmain hirq
  obtain ⟨hone, hosts⟩ := h.rvStep_interrupted (zephyrDevice gpioOut) hint
    (n := step) (by omega)
  obtain ⟨g', hpath, hback, hirq', hawake⟩ := handler_path gpioOut hhandler rfl
  have hquiet : ¬ g.dispatch.Interrupted :=
    fun hint => hint.1 (by rw [hcleared]; exact BitVec.zero_and)
  have hwaits : g'.Waits firmwareTimer :=
    ⟨⟨11, rfl, hback.pc⟩, fun h => h.2 (hirq'.trans hcleared)⟩
  obtain ⟨hnine, hosts'⟩ := hosts.rvStep_until_wfi _ rfl hquiet hpath hwaits hstep
  -- the dispatch, the handler up to the WFI, and the call that finds the hart asleep
  have hfirst : (serviceCall (zephyrDevice gpioOut) step s).1 = true :=
    decide_eq_true (hone.trans_ne one_ne_zero)
  have hsecond : (serviceCall (zephyrDevice gpioOut) step
      (serviceCall (zephyrDevice gpioOut) step s).2).1 = true :=
    decide_eq_true (hnine.trans_ne (by decide))
  have hthird : serviceCall (zephyrDevice gpioOut) step (serviceCall (zephyrDevice gpioOut) step
      (serviceCall (zephyrDevice gpioOut) step s).2).2 = (false, _) :=
    serviceCall_asleep hosts' rfl (hirq'.trans hcleared)
  rw [serviceLoop, BreakLoop.loop_succ_true hfirst, BreakLoop.loop_succ_true hsecond,
    BreakLoop.loop_succ_false (congrArg Prod.fst hthird), hthird]
  exact ⟨_, hosts', ⟨hback.base, hback.pc, hback.csrMstatus,
    hback.csrMtvec, hback.csrMie, hback.device⟩, rfl⟩

/-- Between two ticks the emulator is asleep in the main loop. -/
theorem harnessTick_idles (h : IdlesAt s tb) (hirq : tb.irq = false) (hstep : 9 < step) :
    IdlesAt (harnessTick (zephyrDevice gpioOut) step s) (tb.ticked gpioOut) := by
  obtain ⟨g, hosts, hmain, hsleep⟩ := h
  have hedge := clockEdge_hosts hosts true
  rw [hmain.device, irqMask_quiet hirq] at hedge
  rw [harnessTick, TbTopZephyr.ticked]
  cases hge : tb.mtimeGeMtimecmp with
  | true =>
    rw [hge] at hedge
    exact serviceLoop_interrupted hedge ⟨hmain.base, hmain.pc, hmain.csrMstatus, hmain.csrMtvec,
      hmain.csrMie, rfl⟩ rfl hstep
  | false =>
    rw [hge] at hedge
    rw [serviceLoop_asleep hedge hsleep rfl]
    exact ⟨_, hedge, ⟨hmain.base, hmain.pc, hmain.csrMstatus, hmain.csrMtvec, hmain.csrMie, rfl⟩,
      hsleep⟩

end

/-! ## The period -/

/-- The timer after `n` ticks: the handler has run every 50001 of them. -/
structure TicksAt (n : ℕ) (tb : TbTopZephyr) : Prop where
  mtime : tb.mtime = BitVec.ofNat 64 n
  mtimecmpLo : tb.mtimecmpLo = BitVec.ofNat 32 (50000 + 50001 * (n / 50001))
  mtimecmpHi : tb.mtimecmpHi = 0
  irq : tb.irq = false
  memRead : tb.memRead = 0

theorem booted_ticksAt : TicksAt 0 .booted := ⟨rfl, rfl, rfl, rfl, rfl⟩

section
variable {n : ℕ} {tb : TbTopZephyr}

theorem mtimeGe_iff (h : TicksAt n tb) (hn : n + 50000 < 2 ^ 32) :
    tb.mtimeGeMtimecmp = true ↔ n % 50001 = 50000 := by
  have hcmp : tb.mtimecmp.toNat = 50000 + 50001 * (n / 50001) := by
    rw [TbTopZephyr.mtimecmp, h.mtimecmpHi, h.mtimecmpLo, BitVec.toNat_append]
    simp
    omega
  rw [TbTopZephyr.mtimeGeMtimecmp, decide_eq_true_iff, BitVec.le_def, hcmp, h.mtime,
    BitVec.toNat_ofNat, Nat.mod_eq_of_lt (by omega)]
  omega

theorem ticked_ticksAt (h : TicksAt n tb) (hn : n + 50000 < 2 ^ 32) :
    TicksAt (n + 1) (tb.ticked gpioOut) ∧ (tb.ticked gpioOut).memWrite =
      if (n + 1) % 50001 = 0 then gpioOut (tb.posedge true) ^^^ 1 else tb.memWrite := by
  have hmtime : (tb.posedge true).mtime = BitVec.ofNat 64 (n + 1) := by
    show tb.mtime + 1 = _
    rw [h.mtime]
    exact (BitVec.ofNat_add n 1).symm
  have hge := mtimeGe_iff h hn
  unfold TbTopZephyr.ticked
  by_cases hfire : n % 50001 = 50000
  · rw [if_pos (hge.2 hfire), if_pos (by omega)]
    refine ⟨⟨hmtime, ?_, h.mtimecmpHi, h.irq, h.memRead⟩, rfl⟩
    show (tb.posedge true).mtime.extractLsb' 0 32 + 50000 = _
    have hlo : (BitVec.ofNat 64 (n + 1)).extractLsb' 0 32 = BitVec.ofNat 32 (n + 1) := by
      apply BitVec.eq_of_toNat_eq
      rw [BitVec.extractLsb'_toNat, BitVec.toNat_ofNat, BitVec.toNat_ofNat, Nat.shiftRight_zero]
      omega
    have hnext : 50000 + 50001 * ((n + 1) / 50001) = n + 1 + 50000 := by omega
    rw [hmtime, hlo, hnext]
    exact (BitVec.ofNat_add (n + 1) 50000).symm
  · have hsame : (n + 1) / 50001 = n / 50001 := by omega
    rw [if_neg (mt hge.1 hfire), if_neg (by omega)]
    exact ⟨⟨hmtime, hsame.symm ▸ h.mtimecmpLo, h.mtimecmpHi, h.irq, h.memRead⟩, rfl⟩

end

/-! ## The demo -/

/-- The LED after `n` ticks. -/
def ledAfter (n : ℕ) : Word := if n / 50001 % 2 = 0 then 0 else 1

theorem ledAfter_toggles {n : ℕ} (h : (n + 1) % 50001 = 0) :
    ledAfter (n + 1) = ledAfter n ^^^ 1 ∧ ledAfter (n + 1) ≠ ledAfter n ∧
      (n + 1) / 50001 = n / 50001 + 1 := by
  have hquot : (n + 1) / 50001 = n / 50001 + 1 := by omega
  unfold ledAfter
  rw [hquot]
  rcases Nat.mod_two_eq_zero_or_one (n / 50001) with hn | hn
  · rw [if_pos hn, if_neg (by omega)]
    exact ⟨rfl, by decide, rfl⟩
  · rw [if_pos (by omega), if_neg (by omega)]
    exact ⟨rfl, by decide, rfl⟩

theorem ledAfter_stays {n : ℕ} (h : (n + 1) % 50001 ≠ 0) :
    ledAfter (n + 1) = ledAfter n ∧ (n + 1) / 50001 = n / 50001 := by
  have hquot : (n + 1) / 50001 = n / 50001 := by omega
  rw [ledAfter, hquot]
  exact ⟨rfl, rfl⟩

/-- The demo after `n` ticks. -/
structure DemoAt (n : ℕ) (m : BlinkyDemo) (tb : TbTopZephyr) : Prop where
  idles : IdlesAt m.state tb
  ticks : TicksAt n tb
  led : tb.memWrite = ledAfter n
  toggles : m.toggles = n / 50001
  last : m.last = ledAfter n

theorem demo_tick {n step : ℕ} {m : BlinkyDemo} {tb : TbTopZephyr} (h : DemoAt n m tb)
    (hstep : 9 < step) (hn : n + 50000 < 2 ^ 32) :
    DemoAt (n + 1) (m.tick blinkyDevice step) (tb.ticked TbTopZephyr.memWrite) := by
  obtain ⟨hticks, hwrite⟩ := ticked_ticksAt TbTopZephyr.memWrite h.ticks hn
  have hidles : IdlesAt (harnessTick blinkyDevice step m.state) _ :=
    harnessTick_idles h.idles h.ticks.irq hstep
  have hbit : ∀ n, ledAfter n &&& 1 = ledAfter n := by
    intro n
    unfold ledAfter
    split_ifs <;> rfl
  have hport : (tb.posedge true).memWrite = ledAfter n := h.led
  unfold BlinkyDemo.tick
  dsimp only
  rw [hidles.device]
  by_cases hfire : (n + 1) % 50001 = 0
  · obtain ⟨hled, hne, hquot⟩ := ledAfter_toggles hfire
    have hnew : (tb.ticked TbTopZephyr.memWrite).memWrite = ledAfter (n + 1) := by
      rw [hwrite, if_pos hfire, hport, hled]
    rw [hnew, hbit, h.last, if_pos hne]
    exact ⟨hidles, hticks, hnew, (congrArg (· + 1) h.toggles).trans hquot.symm, rfl⟩
  · obtain ⟨hled, hquot⟩ := ledAfter_stays hfire
    have hnew : (tb.ticked TbTopZephyr.memWrite).memWrite = ledAfter n := by
      rw [hwrite, if_neg hfire, h.led]
    rw [hnew, hbit, h.last, if_neg (not_not_intro rfl)]
    exact ⟨hidles, hticks, hnew.trans hled.symm, h.toggles.trans hquot.symm, hled.symm⟩

theorem demo_run {s : State TbTopZephyr} {step : ℕ} (h : IdlesAt s .booted) (hstep : 9 < step)
    {n : ℕ} (hn : n + 50000 < 2 ^ 32 + 1) :
    ∃ tb, DemoAt n (BlinkyDemo.run blinkyDevice step s n) tb := by
  induction n with
  | zero => exact ⟨_, h, booted_ticksAt, rfl, rfl, rfl⟩
  | succ n ih =>
    obtain ⟨tb, hat⟩ := ih (by omega)
    rw [BlinkyDemo.run, Function.iterate_succ_apply']
    exact ⟨_, demo_tick hat hstep (by omega)⟩

/-- Whatever the memory block and the timer held, the demo sees the LED toggle once every 50001
ticks and ends with the emulator asleep in the main loop. It passes from 200004 ticks on. -/
theorem blinkyDemo_toggles (block : ℕ → Byte) (mtime : BitVec 64) (edges step ticks : ℕ)
    (hedges : 0 < edges) (hstep : 11 < step) (hticks : ticks + 50000 ≤ 2 ^ 32) :
    let m := BlinkyDemo.run blinkyDevice step
      (harnessBoot blinkyDevice (programBytes firmwareTimer) block mtime edges step) ticks
    m.toggles = ticks / 50001 ∧ m.state.device.memWrite = ledAfter ticks ∧
      m.state.device.mtime = BitVec.ofNat 64 ticks ∧ m.state.pc = 0x2c#32 ∧
      m.state.wfiSleep = true ∧ (m.pass = true ↔ 200004 ≤ ticks) := by
  intro m
  obtain ⟨tb, hat⟩ : ∃ tb, DemoAt ticks m tb :=
    demo_run (harnessBoot_idles _ block mtime hedges hstep) (by omega) (by omega)
  obtain ⟨g, hosts, hmain, hsleep⟩ := hat.idles
  have hdevice := hat.idles.device
  refine ⟨hat.toggles, hdevice ▸ hat.led, hdevice ▸ hat.ticks.mtime,
    (congrArg Guest.pc hosts.guest).trans hmain.pc,
    (congrArg Guest.wfiSleep hosts.guest).trans hsleep, ?_⟩
  rw [BlinkyDemo.pass, decide_eq_true_iff, hat.toggles]
  omega

/-- The demo as it is written: 250000 ticks, four toggles. -/
theorem blinkyDemo_toggles_default :
    (BlinkyDemo.run blinkyDevice 1000
      (harnessBoot blinkyDevice (programBytes firmwareTimer) (fun _ => 0) 0 4 1000) 250000).toggles
      = 4 :=
  (blinkyDemo_toggles (fun _ => 0) 0 4 1000 250000 (by decide) (by decide) (by decide)).1

/-! ## The timer test -/

/-- The timer test before tick `n + 1`. -/
structure TestAt (n : ℕ) (m : ZephyrTb) (tb : TbTopZephyr) : Prop where
  idles : IdlesAt m.state tb
  ticks : TicksAt n tb
  led : tb.memWrite = if n < 50001 then 0 else 1
  timerFiredAt : m.timerFiredAt = if n < 50001 then 0 else 50001
  secondFireAt : m.secondFireAt = 0

/-- A read of `GPIO_OUT` never shows what was written, so the handler writes one each time. -/
theorem test_tick {n step : ℕ} {m : ZephyrTb} {tb : TbTopZephyr} (h : TestAt n m tb)
    (hstep : 9 < step) (hn : n + 50000 < 2 ^ 32) :
    (m.tick timerTestDevice step (n + 1)).1 = true ∧
      TestAt (n + 1) (m.tick timerTestDevice step (n + 1)).2 (tb.ticked TbTopZephyr.memRead) := by
  obtain ⟨hticks, hwrite⟩ := ticked_ticksAt TbTopZephyr.memRead h.ticks hn
  have hidles : IdlesAt (harnessTick timerTestDevice step m.state) _ :=
    harnessTick_idles h.idles h.ticks.irq hstep
  have hled : (tb.ticked TbTopZephyr.memRead).memWrite = if n + 1 < 50001 then 0 else 1 := by
    have hport : (tb.posedge true).memRead = 0 := h.ticks.memRead
    rw [hwrite, h.led, hport]
    by_cases hfire : (n + 1) % 50001 = 0
    · rw [if_pos hfire, if_neg (by omega)]
      rfl
    · have hsame : n < 50001 ↔ n + 1 < 50001 := by omega
      rw [if_neg hfire]
      simp only [hsame]
  have hfired : (if m.timerFiredAt = 0 ∧ (tb.ticked TbTopZephyr.memRead).memWrite = 1 then n + 1
      else m.timerFiredAt) = if n + 1 < 50001 then 0 else 50001 := by
    rw [hled, h.timerFiredAt]
    rcases lt_trichotomy (n + 1) 50001 with hlt | heq | hgt
    · have hbefore : n < 50001 := by omega
      simp [hlt, hbefore]
    · have hbefore : n < 50001 := by omega
      simp [heq, hbefore]
    · have hbefore : ¬ n < 50001 := by omega
      have hafter : ¬ n + 1 < 50001 := by omega
      simp [hafter, hbefore]
  have hsecond : ¬ ((if n + 1 < 50001 then 0 else 50001) ≠ 0 ∧
      (if n + 1 < 50001 then (0 : Word) else 1) = 0) := by
    split_ifs
    · exact fun h => h.1 rfl
    · exact fun h => absurd h.2 (by decide)
  unfold ZephyrTb.tick
  dsimp only
  rw [hidles.device, hfired, hled, if_neg hsecond, h.secondFireAt]
  exact ⟨rfl, hidles, hticks, hled, rfl, rfl⟩

theorem test_loop {n k step : ℕ} {m : ZephyrTb} {tb : TbTopZephyr} (h : TestAt n m tb)
    (hstep : 9 < step) (hn : n + k + 50000 ≤ 2 ^ 32) :
    ∃ tb, TestAt (n + k) (ZephyrTb.loop timerTestDevice step (n + 1) k m) tb := by
  induction k generalizing n m tb with
  | zero => exact ⟨tb, h⟩
  | succ k ih =>
    obtain ⟨hgo, hnext⟩ := test_tick h hstep (by omega)
    have hstart : n + (k + 1) = n + 1 + k := by omega
    rw [ZephyrTb.loop, hstart]
    dsimp only
    rw [if_pos hgo]
    exact ih hnext (by omega)

/-- The timer test sees the timer fire at tick 50001 and never a second time, however long it
runs: what the handler reads from `GPIO_OUT` is `mem_read`, so `mem_write` is never cleared. -/
theorem timerTest_fires_once (block : ℕ → Byte) (mtime : BitVec 64) (edges step ticks : ℕ)
    (hedges : 0 < edges) (hstep : 11 < step) (hticks : ticks + 50000 ≤ 2 ^ 32) :
    let m := ZephyrTb.run timerTestDevice step
      (harnessBoot timerTestDevice (programBytes firmwareTimer) block mtime edges step) ticks
    m.timerFiredAt = (if ticks < 50001 then 0 else 50001) ∧ m.secondFireAt = 0 ∧
      m.state.device.memWrite = (if ticks < 50001 then 0 else 1) ∧ m.state.pc = 0x2c#32 ∧
      (m.pass = true ↔ 50001 ≤ ticks) := by
  intro m
  have hboot : TestAt 0 ⟨_, 0, 0⟩ _ :=
    ⟨harnessBoot_idles TbTopZephyr.memRead block mtime hedges hstep, booted_ticksAt, rfl, rfl, rfl⟩
  obtain ⟨tb, hat⟩ := test_loop hboot (show 9 < step by omega) (k := ticks) (by omega)
  rw [Nat.zero_add] at hat
  replace hat : TestAt ticks m tb := hat
  obtain ⟨g, hosts, hmain, -⟩ := hat.idles
  refine ⟨hat.timerFiredAt, hat.secondFireAt, hat.idles.device ▸ hat.led,
    (congrArg Guest.pc hosts.guest).trans hmain.pc, ?_⟩
  rw [ZephyrTb.pass, decide_eq_true_iff, hat.timerFiredAt]
  split_ifs with h
  · exact iff_of_false (not_not_intro rfl) (by omega)
  · exact iff_of_true (by decide) (by omega)

theorem timerTest_fires_once_default :
    (ZephyrTb.run timerTestDevice 1000
      (harnessBoot timerTestDevice (programBytes firmwareTimer) (fun _ => 0) 0 2 1000)
      80000).timerFiredAt = 50001 :=
  (timerTest_fires_once (fun _ => 0) 0 2 1000 80000 (by decide) (by decide) (by decide)).1

end Herve
