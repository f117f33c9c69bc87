import Herve.Bench.Htif
import Herve.Guest.Assembly
import Herve.Guest.Calls
import Herve.Irq.Toggler
import Herve.Run.Batch
import Herve.Trap.Delivery

/-! `rv32_dpi_irq_test.cpp`: the firmware it writes into RAM is a toggler, whatever interrupts are
raised and however the calls are interleaved. -/

namespace Herve
open RiscV (Byte Word Reg Instr)
open Paths Guest

/-! ## The firmware -/

/-- `build_firmware`; the word for `xori t2, t2, 1` is the one of `slti t2, t2, 1`. -/
def buildFirmware : List Word :=
  [ makeLui 5 0x10000, makeAddi 5 5 0,
    makeAddi 6 0 0x100, makeCsrw 0x305 6,
    makeAddi 6 0 0x8, makeCsrs 0x300 6,
    makeAddi 6 0 1, makeSw 6 5 0x004,
    -- main_loop
    makeJal 0 0 ] ++
  List.replicate 55 0 ++
  [ -- interrupt_handler
    makeLw 6 5 0x008, makeLw 7 5 0x000,
    0x0013a393#32,
    makeSw 7 5 0x000,
    makeMret ]

/-- The instructions that these words are. -/
def irqProgram : List Word :=
  [ (Instr.lui 5 0x10000).encode,
    (Instr.opImm .addi 5 5 0).encode,
    (Instr.opImm .addi 6 0 0x100).encode,
    (RiscV.CsrInstr.mk .rw false 0 6 0x305).encode,
    (Instr.opImm .addi 6 0 0x8).encode,
    (RiscV.CsrInstr.mk .rs false 0 6 0x300).encode,
    (Instr.opImm .addi 6 0 1).encode,
    (Instr.store .sw 6 5 0x4).encode,
    (Instr.jal 0 0).encode ] ++
  List.replicate 55 0 ++
  [ (Instr.load .lw 6 5 0x8).encode,
    (Instr.load .lw 7 5 0x0).encode,
    (Instr.opImm .slti 7 7 1).encode,
    (Instr.store .sw 7 5 0x0).encode,
    0x30200073#32 ]

theorem buildFirmware_eq : buildFirmware = irqProgram := by
  have hlui : makeLui 5 0x10000 = (Instr.lui 5 0x10000).encode := makeLui_eq 5 0x10000
  have hbase : makeAddi 5 5 0 = (Instr.opImm .addi 5 5 0).encode := makeAddi_eq 5 5 0
  have haddi (imm : Word) : makeAddi 6 0 imm = (Instr.opImm .addi 6 0 (imm.setWidth 12)).encode :=
    makeAddi_eq 6 0 imm
  have hcsrw : makeCsrw 0x305 6 = (RiscV.CsrInstr.mk .rw false 0 6 0x305).encode :=
    makeCsr_eq .rw 0x305 6
  have hcsrs : makeCsrs 0x300 6 = (RiscV.CsrInstr.mk .rs false 0 6 0x300).encode :=
    makeCsr_eq .rs 0x300 6
  have henable : makeSw 6 5 0x004 = (Instr.store .sw 6 5 0x4).encode := makeSw_eq 6 5 0x004
  -- an offset of zero has no bit that could stand one place off
  have hjal : makeJal 0 0 = (Instr.jal 0 0).encode := (makeJal_eq_iff 0 0).2 fun _ _ _ => by simp
  have hstatus : makeLw 6 5 0x008 = (Instr.load .lw 6 5 0x8).encode := makeLw_eq 6 5 0x008
  have hload : makeLw 7 5 0x000 = (Instr.load .lw 7 5 0x0).encode := makeLw_eq 7 5 0x000
  have hstore : makeSw 7 5 0x000 = (Instr.store .sw 7 5 0x0).encode := makeSw_eq 7 5 0x000
  unfold buildFirmware irqProgram
  rw [hlui, hbase, haddi 0x100, hcsrw, haddi 0x8, hcsrs, haddi 1, henable, hjal, hstatus, hload,
    hstore]
  rfl

/-- `main` up to the first `rv_step`. -/
def irqStart (block : ℕ → Byte) : State (Fin 64 → Word) :=
  programStart buildFirmware block (State.start fun _ => 0)

/-! ## The firmware as a toggler -/

def bit (b : Bool) : Word := if b then 1 else 0

/-- The device with `GPIO_OUT` and `GPIO_IE`. -/
def gpioRegion (out enable : Bool) : Fin 64 → Word :=
  fun i => if i.val = 0 then bit out else if i.val = 1 then bit enable else 0

theorem write_out (out enable b : Bool) :
    mmioRegion.write (gpioRegion out enable) 0x10000000#32 (bit b) =
      (gpioRegion b enable, none) := by
  have hupdate : Function.update (gpioRegion out enable) 0 (bit b) = gpioRegion b enable := by
    funext i
    by_cases hi : i = 0
    · rw [hi, Function.update_self]
      rfl
    · have hval : i.val ≠ 0 := fun h => hi (Fin.ext h)
      rw [Function.update_of_ne hi, gpioRegion, gpioRegion, if_neg hval, if_neg hval]
  exact congrArg (Prod.mk · none) hupdate

theorem write_enable (out enable b : Bool) :
    mmioRegion.write (gpioRegion out enable) 0x10000004#32 (bit b) =
      (gpioRegion out b, none) := by
  have hupdate : Function.update (gpioRegion out enable) 1 (bit b) = gpioRegion out b := by
    funext i
    by_cases hi : i = 1
    · rw [hi, Function.update_self]
      rfl
    · have hval : i.val ≠ 1 := fun h => hi (Fin.ext h)
      rw [Function.update_of_ne hi, gpioRegion, gpioRegion, if_neg hval, if_neg hval]
  exact congrArg (Prod.mk · none) hupdate

namespace IrqPoint

def pc : IrqPoint → Word
  | main i => BitVec.ofNat 32 (4 * i)
  | handler j _ => BitVec.ofNat 32 (4 * (64 + j))

end IrqPoint

namespace Toggler

/-- What the point asks of `t1`. -/
def T1 (t : Toggler) (v : Word) : Prop :=
  match t.point with
  | .main 3 => v = 0x100#32
  | .main 5 => v = 0x8#32
  | .main 7 => v = bit !t.clobbered
  | .handler (_ + 1) _ => v = 0
  | _ => True

/-- What it asks of `t2`. -/
def T2 (t : Toggler) (v : Word) : Prop :=
  match t.point with
  | .handler 2 _ => v = bit t.out
  | .handler 3 _ => v = bit !t.out
  | _ => True

/-- What it asks of `t0`, `mtvec` and `mepc`. -/
def Base (t : Toggler) (v : Word) : Prop :=
  match t.point with
  | .main 0 => True
  | _ => v = 0x10000000#32

def Vector (t : Toggler) (v : Word) : Prop :=
  match t.point with
  | .main i => 4 ≤ i → v = 0x100#32
  | .handler _ _ => v = 0x100#32

def Return (t : Toggler) (v : Word) : Prop :=
  match t.point with
  | .main _ => True
  | .handler _ i => v = BitVec.ofNat 32 (4 * i)

/-- The guest stands where the toggler does. -/
structure Shows (t : Toggler) (g : Guest (Fin 64 → Word)) : Prop where
  pc : g.pc = t.point.pc
  awake : g.wfiSleep = false
  csrMie : g.csrMie = 0xFFFFFFFF#32
  csrMstatus : g.csrMstatus = if t.enabled then 0x8#32 else 0
  device : g.device = gpioRegion t.out t.enable
  zero : g.regs 0 = 0
  base : t.Base (g.regs 5)
  t1 : t.T1 (g.regs 6)
  t2 : t.T2 (g.regs 7)
  csrMtvec : t.Vector g.csrMtvec
  csrMepc : t.Return g.csrMepc

variable {t : Toggler} {g : Guest (Fin 64 → Word)}

/-- Each instruction of the firmware is a step of the toggler. -/
theorem Shows.step (h : t.Shows g) (hok : t.Ok) :
    ∃ g', g.Step mmioRegion irqProgram g' ∧ t.step.Shows g' ∧ g'.irqMask = g.irqMask := by
  obtain ⟨point, taken, out, enable, clobbered⟩ := t
  obtain ⟨regs, pc, irqMask, mstatus, mtvec, mepc, mcause, mie, wfiSleep, device⟩ := g
  obtain ⟨hpc, hawake, hmie, hmstatus, hdevice, hzero, hbase, ht1, ht2, hmtvec, hmepc⟩ := h
  dsimp only at hpc hawake hmie hmstatus hdevice hzero hbase ht1 ht2 hmtvec hmepc
  subst hpc hawake hmie hmstatus hdevice
  cases point with
  | main i =>
    have hi : i ≤ 8 := hok.1
    have hset : 4 ≤ i → mtvec = 0x100#32 := hmtvec
    have hearly : ∀ k < 4, 4 ≤ k → mtvec = 0x100#32 := fun k hk hle => absurd hle (not_le.2 hk)
    interval_cases i
    · exact ⟨_, step_lui (v := 0x10000000#32) ⟨0, rfl, rfl⟩ rfl,
        ⟨rfl, rfl, rfl, rfl, rfl, hzero, rfl, trivial, trivial, hearly 1 (by decide), trivial⟩, rfl⟩
    · exact ⟨_, step_opImm (x := 0x10000000#32) (v := 0x10000000#32) ⟨1, rfl, rfl⟩ hbase rfl,
        ⟨rfl, rfl, rfl, rfl, rfl, hzero, rfl, trivial, trivial, hearly 2 (by decide), trivial⟩, rfl⟩
    · exact ⟨_, step_opImm (x := 0#32) (v := 0x100#32) ⟨2, rfl, rfl⟩ hzero rfl,
        ⟨rfl, rfl, rfl, rfl, rfl, hzero, hbase, rfl, trivial, hearly 3 (by decide), trivial⟩, rfl⟩
    · exact ⟨_, step_csr (x := 0x100#32) (y := mtvec) (v := 0x100#32) ⟨3, rfl, rfl⟩ (by decide)
          (by decide) ht1 rfl rfl,
        ⟨rfl, rfl, rfl, rfl, rfl, hzero, hbase, trivial, trivial, fun _ => rfl, trivial⟩, rfl⟩
    · exact ⟨_, step_opImm (x := 0#32) (v := 0x8#32) ⟨4, rfl, rfl⟩ hzero rfl,
        ⟨rfl, rfl, rfl, rfl, rfl, hzero, hbase, rfl, trivial,
          fun _ => hset (by decide), trivial⟩, rfl⟩
    · exact ⟨_, step_csr (x := 0x8#32) (y := 0#32) (v := 0x8#32) ⟨5, rfl, rfl⟩ (by decide)
          (by decide) ht1 rfl rfl,
        ⟨rfl, rfl, rfl, rfl, rfl, hzero, hbase, trivial, trivial,
          fun _ => hset (by decide), trivial⟩, rfl⟩
    · exact ⟨_, step_opImm (x := 0#32) (v := 1#32) ⟨6, rfl, rfl⟩ hzero rfl,
        ⟨rfl, rfl, rfl, rfl, rfl, hzero, hbase, rfl, trivial,
          fun _ => hset (by decide), trivial⟩, rfl⟩
    · exact ⟨_, step_sw (x := 0x10000000#32) (y := bit !clobbered) ⟨7, rfl, rfl⟩ hbase ht1 rfl rfl
          (write_enable _ _ _),
        ⟨rfl, rfl, rfl, rfl, rfl, hzero, hbase, trivial, trivial,
          fun _ => hset (by decide), trivial⟩, rfl⟩
    · exact ⟨_, step_jump ⟨8, rfl, rfl⟩ rfl,
        ⟨rfl, rfl, rfl, rfl, rfl, hzero, hbase, trivial, trivial,
          fun _ => hset (by decide), trivial⟩, rfl⟩
  | handler j i =>
    obtain ⟨hj, hlo, hhi, hclobbered, -, -⟩ := hok
    dsimp only at hclobbered
    subst hclobbered
    interval_cases j
    · exact ⟨_, step_lw (x := 0x10000000#32) (v := 0#32) ⟨64, rfl, rfl⟩ hbase rfl rfl rfl,
        ⟨rfl, rfl, rfl, rfl, rfl, hzero, hbase, rfl, trivial, hmtvec, hmepc⟩, rfl⟩
    · exact ⟨_, step_lw (x := 0x10000000#32) (v := bit out) ⟨65, rfl, rfl⟩ hbase rfl rfl rfl,
        ⟨rfl, rfl, rfl, rfl, rfl, hzero, hbase, ht1, rfl, hmtvec, hmepc⟩, rfl⟩
    · exact ⟨_, step_opImm (x := bit out) (v := bit !out) ⟨66, rfl, rfl⟩ ht2
          (by cases out <;> rfl),
        ⟨rfl, rfl, rfl, rfl, rfl, hzero, hbase, ht1, rfl, hmtvec, hmepc⟩, rfl⟩
    · exact ⟨_, step_sw (x := 0x10000000#32) (y := bit !out) ⟨67, rfl, rfl⟩ hbase ht2 rfl rfl
          (write_out _ _ _),
        ⟨rfl, rfl, rfl, rfl, rfl, hzero, hbase, ht1, trivial, hmtvec, hmepc⟩, rfl⟩
    · obtain rfl : mepc = BitVec.ofNat 32 (4 * i) := hmepc
      refine ⟨_, step_mret (x := BitVec.ofNat 32 (4 * i)) (y := 0#32) (v := 0x8#32) ⟨68, rfl, rfl⟩
        rfl rfl rfl, ?_, rfl⟩
      interval_cases i
      · exact ⟨rfl, rfl, rfl, rfl, rfl, hzero, hbase, trivial, trivial, fun _ => hmtvec, trivial⟩
      · exact ⟨rfl, rfl, rfl, rfl, rfl, hzero, hbase, ht1, trivial, fun _ => hmtvec, trivial⟩
      · exact ⟨rfl, rfl, rfl, rfl, rfl, hzero, hbase, trivial, trivial, fun _ => hmtvec, trivial⟩

/-- An interrupt is taken where they are on. -/
theorem Shows.take (h : t.Shows g) (hint : g.Interrupted) :
    t.enabled = true ∧ t.take.Shows g.dispatch := by
  have henabled : t.enabled = true := by
    by_contra hoff
    have hmstatus := h.csrMstatus
    rw [if_neg hoff] at hmstatus
    exact hint.2 (by rw [hmstatus]; rfl)
  refine ⟨henabled, ?_⟩
  obtain ⟨point, taken, out, enable, clobbered⟩ := t
  obtain ⟨regs, pc, irqMask, mstatus, mtvec, mepc, mcause, mie, wfiSleep, device⟩ := g
  obtain ⟨hpc, hawake, hmie, hmstatus, hdevice, hzero, hbase, ht1, ht2, hmtvec, hmepc⟩ := h
  dsimp only at hpc hawake hmie hmstatus hdevice hzero hbase ht1 ht2 hmtvec hmepc
  cases point with
  | main i =>
    have hi : 6 ≤ i := of_decide_eq_true henabled
    have hset : 4 ≤ i → mtvec = 0x100#32 := hmtvec
    have hvector : mtvec = 0x100#32 := hset (by omega)
    have hbase' : regs 5 = 0x10000000#32 := by
      obtain ⟨k, rfl⟩ : ∃ k, i = k + 1 := ⟨i - 1, by omega⟩
      exact hbase
    rw [if_pos henabled] at hmstatus
    subst hpc hmie hmstatus hdevice hvector
    have haddress : handlerAddress 0x100#32 (ctz32 (irqMask &&& 0xFFFFFFFF#32)) = 0x100#32 :=
      (if_neg (by decide)).trans (by decide)
    have hoff : (8#32 &&& ~~~8#32 : Word) = 0 := by decide
    refine ⟨?_, rfl, rfl, hoff, rfl, hzero, hbase', trivial, trivial, rfl, rfl⟩
    unfold Guest.dispatch
    dsimp only
    rw [haddress]
    rfl
  | handler j i => exact absurd henabled Bool.false_ne_true

/-- With no interrupt to take, `n` instructions are `n` steps. -/
theorem Shows.path (h : t.Shows g) (hok : t.Ok) (n : ℕ) :
    ∃ g', Path (Guest.Step mmioRegion irqProgram) n g g' ∧ (Toggler.step^[n] t).Shows g' ∧
      g'.irqMask = g.irqMask := by
  induction n generalizing t g with
  | zero => exact ⟨g, .refl, h, rfl⟩
  | succ n ih =>
    obtain ⟨g₁, hstep, hshows, hirq⟩ := h.step hok
    obtain ⟨g₂, hpath, hend, hirq'⟩ := ih hshows hok.step
    exact ⟨g₂, .head hstep hpath, hend, hirq'.trans hirq⟩

end Toggler

/-! ## The calls -/

section
variable {δ : Type}

/-- From `s` to `t` the interrupts `causes` are taken, in this order. -/
def Takes (causes : List ℕ) (s t : State δ) : Prop :=
  ∃ es, t.trace = s.trace ++ es ∧ dispatched es = causes

variable {s t u : State δ} {causes later : List ℕ}

theorem Takes.refl (s : State δ) : Takes [] s s := ⟨[], (List.append_nil _).symm, rfl⟩

theorem Takes.trans (h : Takes causes s t) (h' : Takes later t u) :
    Takes (causes ++ later) s u := by
  obtain ⟨es, hes, rfl⟩ := h
  obtain ⟨fs, hfs, rfl⟩ := h'
  refine ⟨es ++ fs, ?_, List.filterMap_append⟩
  rw [hfs, hes, List.append_assoc]

theorem Takes.newEvents (h : Takes causes s t) :
    dispatched (newEvents s.toBus t.toBus) = causes := by
  obtain ⟨es, hes, rfl⟩ := h
  rw [newEvents_of_append hes]

theorem takes_rvSetIrq (mask : Word) (s : State δ) : Takes [] s (rvSetIrq mask s) :=
  ⟨[.setIrq mask], rfl, rfl⟩

theorem takes_interrupted (dev : Device δ) {n : ℤ} (h : s.Dispatches n) :
    Takes [ctz32 s.pending] s (rvStep dev n s).2 := by
  rw [rvStep_dispatch dev h]
  exact ⟨[.dispatch (ctz32 s.pending)], rfl, rfl⟩

/-- A call that takes no interrupt logs none. -/
theorem takes_none (dev : Device δ) {n : ℤ} (h : ¬ s.Dispatches n) :
    Takes [] s (rvStep dev n s).2 := by
  obtain ⟨es, hes, -⟩ := rvStep_extends dev n s
  refine ⟨es, hes, List.filterMap_eq_nil_iff.2 fun e he => ?_⟩
  cases e with
  | dispatch c =>
    rw [← newEvents_of_append (s := s.toBus) (t := (rvStep dev n s).2.toBus) hes] at he
    exact absurd (rvStep_dispatch_of_mem dev he).1 h
  | _ => rfl

end

/-- The emulator is where the toggler stands, and has taken as many interrupts since `s₀`. -/
structure Tracks (s₀ : State (Fin 64 → Word)) (t : Toggler) (s : State (Fin 64 → Word)) :
    Prop where
  ok : t.Ok
  hosts : ∃ g, s.Hosts irqProgram g ∧ t.Shows g
  logged : ∃ causes, Takes causes s₀ s ∧ causes.length = t.taken

section
variable {s₀ s : State (Fin 64 → Word)} {t : Toggler}

theorem irqStart_tracks (block : ℕ → Byte) :
    Tracks (irqStart block) .start (irqStart block) := by
  have hprogram : (irqStart block).RunsProgram irqProgram := by
    have hruns : (irqStart block).RunsProgram buildFirmware :=
      programStart_runsProgram (by decide) block rfl
    exact buildFirmware_eq ▸ hruns
  have hdevice : (fun _ => 0 : Fin 64 → Word) = gpioRegion false false := by
    funext i
    unfold gpioRegion
    split_ifs <;> rfl
  refine ⟨Toggler.start_ok, ⟨_, ⟨rfl, hprogram⟩, ?_⟩, [], .refl _, rfl⟩
  exact ⟨rfl, rfl, rfl, rfl, hdevice, rfl, trivial, trivial, trivial,
    fun h => absurd h (by decide), trivial⟩

theorem Tracks.setIrq (h : Tracks s₀ t s) (mask : Word) : Tracks s₀ t (rvSetIrq mask s) := by
  obtain ⟨hok, ⟨g, hhosts, hshows⟩, causes, htakes, hcount⟩ := h
  refine ⟨hok, ⟨_, hhosts.rvSetIrq mask, ?_⟩, _, htakes.trans (takes_rvSetIrq mask s), ?_⟩
  · obtain ⟨hpc, hawake, hmie, hmstatus, hdevice, hzero, hbase, ht1, ht2, hmtvec, hmepc⟩ := hshows
    exact ⟨hpc, hawake, hmie, hmstatus, hdevice, hzero, hbase, ht1, ht2, hmtvec, hmepc⟩
  · rw [List.append_nil, hcount]

theorem Tracks.take (h : Tracks s₀ t s) {n : ℤ} (hn : 0 < n) (hint : s.Interrupted) :
    Tracks s₀ t.take (rvStep mmioRegion n s).2 := by
  obtain ⟨hok, ⟨g, hhosts, hshows⟩, causes, htakes, hcount⟩ := h
  obtain ⟨henabled, htake⟩ := hshows.take (hhosts.interrupted_iff.1 hint)
  obtain ⟨-, hhosts'⟩ := hhosts.rvStep_interrupted mmioRegion (hhosts.interrupted_iff.1 hint) hn
  have hdispatch := takes_interrupted mmioRegion ⟨hhosts.program.initialized, hn, hint⟩
  refine ⟨hok.take henabled, ⟨_, hhosts', htake⟩, _, htakes.trans hdispatch, ?_⟩
  rw [List.length_append, hcount]
  obtain ⟨point, taken, out, enable, clobbered⟩ := t
  cases point with
  | main i => rfl
  | handler j i => exact absurd henabled Bool.false_ne_true

theorem Tracks.runs (h : Tracks s₀ t s) {n : ℤ} (hint : ¬ s.Interrupted) :
    Tracks s₀ (Toggler.step^[n.toNat] t) (rvStep mmioRegion n s).2 ∧
      (rvStep mmioRegion n s).2.irqMask = s.irqMask := by
  obtain ⟨hok, ⟨g, hhosts, hshows⟩, causes, htakes, hcount⟩ := h
  have hnone := takes_none mmioRegion (s := s) (n := n) fun hd => hint hd.2.2
  obtain ⟨g', hpath, hshows', hirq⟩ := hshows.path hok n.toNat
  have hguest : (rvStep mmioRegion n s).2.Hosts irqProgram g' := by
    rcases le_or_gt n 0 with hle | hpos
    · rw [Int.toNat_of_nonpos hle] at hpath
      cases hpath
      rw [rvStep_nonpos mmioRegion hle]
      exact hhosts
    · have hn : ((n.toNat : ℕ) : ℤ) = n := Int.toNat_of_nonneg hpos.le
      have hrun := hhosts.rvStep_path mmioRegion hshows.awake
        (fun hg => hint (hhosts.interrupted_iff.2 hg)) hpath
      rw [hn] at hrun
      exact hrun.2
  refine ⟨⟨hok.iterate _, ⟨g', hguest, hshows'⟩, _, htakes.trans hnone, ?_⟩, ?_⟩
  · rw [List.append_nil, hcount, Toggler.taken_iterate]
  · have hmask : (rvStep mmioRegion n s).2.irqMask = g'.irqMask :=
      congrArg Guest.irqMask hguest.guest
    have hmask' : s.irqMask = g.irqMask := congrArg Guest.irqMask hhosts.guest
    rw [hmask, hirq, hmask']

theorem Tracks.calls (h : Tracks s₀ t s) (calls : List Call) :
    ∃ t', Tracks s₀ t' (runCalls mmioRegion calls s) := by
  induction calls generalizing s t with
  | nil => exact ⟨t, h⟩
  | cons c calls ih =>
    cases c with
    | setIrq mask => exact ih (h.setIrq mask)
    | step n =>
      by_cases hd : s.Interrupted ∧ 0 < n
      · exact ih (h.take hd.2 hd.1)
      · rcases le_or_gt n 0 with hle | hpos
        · have hidle : runCalls mmioRegion (.step n :: calls) s = runCalls mmioRegion calls s :=
            congrArg (runCalls mmioRegion calls)
              (congrArg Prod.snd (rvStep_nonpos mmioRegion hle s))
          rw [hidle]
          exact ih h
        · exact ih (h.runs (n := n) fun hint => hd ⟨hint, hpos⟩).1

end

/-- Where the firmware is after `k` interrupts: `GPIO_OUT` has been toggled by each of them, but
for one whose handler is still on its way to the store, and no other is taken before the return. -/
inductive Toggles (k : ℕ) (s : State (Fin 64 → Word)) : Prop
  | main (i : ℕ) (le : i ≤ 8) (pc : s.pc = BitVec.ofNat 32 (4 * i)) (on : s.mie = true ↔ 6 ≤ i)
      (out : s.device 0 = bit k.bodd) (none : i < 6 → k = 0)
  | handler (j : ℕ) (le : j ≤ 4) (pc : s.pc = BitVec.ofNat 32 (0x100 + 4 * j))
      (off : s.mie = false) (pos : 0 < k)
      (out : s.device 0 = bit (if j < 4 then (k - 1).bodd else k.bodd))

theorem Tracks.toggles {s₀ s : State (Fin 64 → Word)} {t : Toggler} (h : Tracks s₀ t s) :
    Toggles t.taken s := by
  obtain ⟨hok, ⟨g, hhosts, hshows⟩, -⟩ := h
  have hpc : s.pc = t.point.pc := (congrArg Guest.pc hhosts.guest).trans hshows.pc
  have hmstatus : s.csrMstatus = if t.enabled then 0x8#32 else 0 :=
    (congrArg Guest.csrMstatus hhosts.guest).trans hshows.csrMstatus
  have hout : s.device 0 = bit t.out :=
    (congrArg (fun g => g.device 0) hhosts.guest).trans (congrFun hshows.device 0)
  have hmie : s.mie = t.enabled := by
    rw [State.mie, hmstatus]
    cases t.enabled <;> decide
  obtain ⟨point, taken, out, enable, clobbered⟩ := t
  cases point with
  | main i =>
    obtain ⟨hi, hnone, hparity⟩ := hok
    exact .main i hi hpc (hmie ▸ decide_eq_true_iff) (hout.trans (congrArg bit hparity)) hnone
  | handler j i =>
    obtain ⟨hj, -, -, -, hpos, hparity⟩ := hok
    have hprev : (taken + 1).bodd = (taken - 1).bodd := by
      obtain ⟨k, rfl⟩ : ∃ k, taken = k + 1 := ⟨taken - 1, (Nat.sub_add_cancel hpos).symm⟩
      rw [Nat.bodd_succ, Nat.bodd_succ, Bool.not_not]
      rfl
    have hparity' : out = if j < 4 then (taken + 1).bodd else taken.bodd := hparity
    rw [hprev] at hparity'
    have hpc' : s.pc = BitVec.ofNat 32 (4 * (64 + j)) := hpc
    rw [Nat.mul_add] at hpc'
    exact .handler j hj hpc' hmie hpos (hout.trans (congrArg bit hparity'))

/-- Whatever interrupts are raised and however the calls are interleaved, `GPIO_OUT` has the parity
of the interrupts taken: none is lost, none toggles twice and none interrupts the handler. -/
theorem irqTest_toggles (block : ℕ → Byte) (calls : List Call) :
    let s := runCalls mmioRegion calls (irqStart block)
    Toggles (dispatched (newEvents (irqStart block).toBus s.toBus)).length s := by
  intro s
  obtain ⟨t, h⟩ := (irqStart_tracks block).calls calls
  obtain ⟨causes, htakes, hcount⟩ := h.logged
  rw [htakes.newEvents, hcount]
  exact h.toggles

/-! ## What is raised is served -/

/-- An interrupt raised, a call that takes it and one with the instructions for its handler. -/
structure IrqRound where
  cause : Fin 32
  first : ℕ
  second : ℕ

def IrqRound.calls (r : IrqRound) : List Call :=
  [.setIrq (1#32 <<< r.cause.val), .step r.first, .step r.second]

/-- The round has a first instruction, and five for the handler. -/
structure IrqRound.Suffices (r : IrqRound) : Prop where
  first : 0 < r.first
  second : 5 ≤ r.second

/-- In the main loop with nothing raised. -/
structure Rests (s₀ : State (Fin 64 → Word)) (k : ℕ) (s : State (Fin 64 → Word)) : Prop where
  tracks : ∃ t, Tracks s₀ t s ∧ t.point = .main 8 ∧ t.taken = k
  quiet : s.irqMask = 0

theorem single_cause (c : Fin 32) :
    (1#32 <<< c.val) &&& 0xFFFFFFFF#32 ≠ 0 ∧ ctz32 ((1#32 <<< c.val) &&& 0xFFFFFFFF#32) = c.val ∧
      (1#32 <<< c.val) &&& ~~~(1#32 <<< ctz32 ((1#32 <<< c.val) &&& 0xFFFFFFFF#32)) = 0 := by
  revert c
  decide

section
variable {s₀ s : State (Fin 64 → Word)} {k : ℕ}

theorem Tracks.rests {t : Toggler} (h : Tracks s₀ t s) (hquiet : s.irqMask = 0) {n : ℕ}
    (hn : t.left ≤ n) : Rests s₀ t.taken (rvStep mmioRegion n s).2 := by
  obtain ⟨hruns, hirq⟩ := h.runs (n := n) (not_interrupted hquiet)
  exact ⟨⟨_, hruns, h.ok.settles hn, Toggler.taken_iterate t n⟩, hirq.trans hquiet⟩

theorem Rests.round (h : Rests s₀ k s) {r : IrqRound} (hr : r.Suffices) :
    Rests s₀ (k + 1) (runCalls mmioRegion r.calls s) ∧
      Takes [r.cause.val] s (runCalls mmioRegion r.calls s) := by
  obtain ⟨⟨t, htracks, hpoint, rfl⟩, hquiet⟩ := h
  have hraised := htracks.setIrq (1#32 <<< r.cause.val)
  obtain ⟨g, hhosts, hshows⟩ := hraised.hosts
  have henabled : t.enabled = true := by
    rw [Toggler.enabled, hpoint]
    rfl
  have hmask : g.irqMask = 1#32 <<< r.cause.val := (congrArg Guest.irqMask hhosts.guest).symm
  obtain ⟨hpending, hcause, hcleared⟩ := single_cause r.cause
  have hint : g.Interrupted := by
    refine ⟨?_, ?_⟩
    · rw [hmask, hshows.csrMie]
      exact hpending
    · rw [hshows.csrMstatus, if_pos henabled]
      decide
  have hfirst := Int.natCast_pos.2 hr.first
  have htake := hraised.take hfirst (hhosts.interrupted_iff.2 hint)
  obtain ⟨-, hhosts'⟩ := hhosts.rvStep_interrupted mmioRegion hint hfirst
  have hquiet' : (rvStep mmioRegion r.first (rvSetIrq (1#32 <<< r.cause.val) s)).2.irqMask = 0 := by
    refine (congrArg Guest.irqMask hhosts'.guest).trans ?_
    unfold Guest.dispatch
    dsimp only
    rw [hmask, hshows.csrMie]
    exact hcleared
  have hpoint' : t.take.point = .handler 0 8 ∧ t.take.taken = t.taken + 1 := by
    rw [Toggler.take, hpoint]
    exact ⟨rfl, rfl⟩
  have hleft : t.take.left = 5 := by
    rw [Toggler.left, hpoint'.1]
  refine ⟨hpoint'.2 ▸ htake.rests hquiet' (hleft.trans_le hr.second), ?_⟩
  have hdispatch := takes_interrupted mmioRegion (s := rvSetIrq (1#32 <<< r.cause.val) s)
    ⟨hhosts.program.initialized, hfirst, hhosts.interrupted_iff.2 hint⟩
  have hcause' : ctz32 (rvSetIrq (1#32 <<< r.cause.val) s).pending = r.cause.val := by
    have hmie : (rvSetIrq (1#32 <<< r.cause.val) s).csrMie = 0xFFFFFFFF#32 :=
      (congrArg Guest.csrMie hhosts.guest).trans hshows.csrMie
    rw [State.pending, hmie]
    exact hcause
  rw [hcause'] at hdispatch
  have hhandled := takes_none mmioRegion
    (s := (rvStep mmioRegion r.first (rvSetIrq (1#32 <<< r.cause.val) s)).2) (n := r.second)
    fun hd => not_interrupted hquiet' hd.2.2
  exact ((takes_rvSetIrq _ s).trans hdispatch).trans hhandled

/-- Round by round, every interrupt that is raised is taken. -/
theorem Rests.rounds (h : Rests s₀ k s) {rounds : List IrqRound}
    (hrounds : ∀ r ∈ rounds, r.Suffices) :
    Rests s₀ (k + rounds.length) (runCalls mmioRegion (rounds.flatMap IrqRound.calls) s) ∧
      Takes (rounds.map fun r => r.cause.val) s
        (runCalls mmioRegion (rounds.flatMap IrqRound.calls) s) := by
  induction rounds generalizing s k with
  | nil => exact ⟨h, .refl s⟩
  | cons r rounds ih =>
    obtain ⟨hfirst, htakes⟩ := h.round (hrounds r List.mem_cons_self)
    obtain ⟨hrest, htakes'⟩ := ih hfirst fun r' hr' => hrounds r' (List.mem_cons_of_mem r hr')
    rw [Nat.add_assoc, Nat.add_comm 1] at hrest
    rw [List.flatMap_cons, runCalls, List.foldl_append]
    exact ⟨hrest, htakes.trans htakes'⟩

theorem Rests.loop (h : Rests s₀ k s) : s.pc = 0x20#32 ∧ s.device 0 = bit k.bodd := by
  obtain ⟨⟨t, ⟨hok, ⟨g, hhosts, hshows⟩, -⟩, hpoint, rfl⟩, -⟩ := h
  have hpc := (congrArg Guest.pc hhosts.guest).trans hshows.pc
  rw [hpoint] at hpc
  have hout : t.out = t.taken.bodd := by
    rw [Toggler.Ok, hpoint] at hok
    exact hok.2.2
  have hdevice := congrFun ((congrArg Guest.device hhosts.guest).trans hshows.device) 0
  exact ⟨hpc, hdevice.trans (congrArg bit hout)⟩

end

theorem bit_bodd_add (j k : ℕ) : bit (j + k).bodd = bit j.bodd ^^^ bit k.bodd := by
  rw [Nat.bodd_add]
  cases j.bodd <;> cases k.bodd <;> rfl

/-- After any calls that leave nothing raised, and eight instructions more, each round serves its
interrupt: these are the interrupts that are taken, each once and in this order, and the firmware is
back in its main loop with `GPIO_OUT` toggled as often. -/
theorem irqTest_serves (block : ℕ → Byte) {calls : List Call}
    (hquiet : (runCalls mmioRegion calls (irqStart block)).irqMask = 0) {n : ℕ} (hn : 8 ≤ n)
    {rounds : List IrqRound} (hrounds : ∀ r ∈ rounds, r.Suffices) :
    let s := runCalls mmioRegion (calls ++ [.step n]) (irqStart block)
    let t := runCalls mmioRegion (rounds.flatMap IrqRound.calls) s
    s.pc = 0x20#32 ∧ t.pc = 0x20#32 ∧
      dispatched (newEvents s.toBus t.toBus) = (rounds.map fun r => r.cause.val) ∧
      t.device 0 = s.device 0 ^^^ bit rounds.length.bodd := by
  intro s t
  obtain ⟨toggler, htracks⟩ := (irqStart_tracks block).calls calls
  have hs : Rests (irqStart block) toggler.taken s := by
    have happend : s = (rvStep mmioRegion n (runCalls mmioRegion calls (irqStart block))).2 :=
      List.foldl_append ..
    rw [happend]
    exact htracks.rests hquiet (htracks.ok.left_le.trans hn)
  obtain ⟨hrests, htakes⟩ := hs.rounds hrounds
  obtain ⟨hpc, hout⟩ := hs.loop
  obtain ⟨hpc', hout'⟩ := hrests.loop
  refine ⟨hpc, hpc', htakes.newEvents, ?_⟩
  rw [hout]
  exact hout'.trans (bit_bodd_add _ _)

/-- The calls of `main`, which raises interrupt 0 twice. -/
theorem irqTest_serves_main :
    let s := runCalls mmioRegion ([] ++ [.step (100 : ℕ)]) (irqStart fun _ => 0)
    let t := runCalls mmioRegion (List.flatMap IrqRound.calls [⟨0, 100, 100⟩, ⟨0, 100, 100⟩]) s
    s.pc = 0x20#32 ∧ t.pc = 0x20#32 ∧ dispatched (newEvents s.toBus t.toBus) = [0, 0] ∧
      t.device 0 = s.device 0 ^^^ bit (Nat.bodd 2) := by
  have hrounds : ∀ r ∈ ([⟨0, 100, 100⟩, ⟨0, 100, 100⟩] : List IrqRound), r.Suffices := by
    intro r hr
    rcases List.mem_pair.1 hr with rfl | rfl <;> exact ⟨by decide, by decide⟩
  exact @irqTest_serves (fun _ => 0) [] rfl 100 (by decide) _ hrounds

end Herve
