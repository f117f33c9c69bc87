import Herve.Guest.Assembly
import Herve.Guest.Calls
import Herve.Guest.Straight

/-! `rv32_dpi_mmio_regs_tb.cpp`: the program it writes into RAM to configure the hardware
registers, and what running it leaves in them. -/

namespace Herve
open RiscV (Byte Word Reg Instr)
open Guest

/-! ## The program -/

/-- The window of the registers, compared as `int`. -/
def inHwCfg (addr : Word) : Bool := 0x10000000 ≤ addr.toInt && addr.toInt < 0x10000010

def hwCfgIndex (addr : Word) : Fin 4 := Fin.ofNat 4 ((addr - 0x10000000#32).toNat / 4)

/-- `hw_cfg_reg`, behind `dpi_mmio_read` and `dpi_mmio_write`. -/
def hwCfg : Device (Fin 4 → Word) where
  read d addr := (if inHwCfg addr then d (hwCfgIndex addr) else 0, d, none)
  write d addr value :=
    (if inHwCfg addr then Function.update d (hwCfgIndex addr) value else d, none)

/-- The offset of a register in the window. -/
def hwCfgOffset (i : Fin 4) : Word := 4 * BitVec.ofNat 32 i

/-- One register configured. -/
def configWrite (w : Fin 4 × Word) : List Word := loadImm 6 w.2 ++ [makeSw 6 5 (hwCfgOffset w.1)]

def configRead (i : Fin 4) : List Word := [makeLw 7 5 (hwCfgOffset i)]

/-- The program for any registers to write and to read back. -/
def configFirmware (writes : List (Fin 4 × Word)) (reads : List (Fin 4)) : List Word :=
  [makeLui 5 0x10000, makeAddi 5 5 0] ++ writes.flatMap configWrite ++ reads.flatMap configRead ++
    [makeEbreak]

/-- `load_firmware`. -/
def loadFirmware : List Word :=
  configFirmware [(0, 0xAAAAAAAB), (1, 0x5A5), (2, 0x55555554), (3, 0x7FF)] [0, 1, 2, 3]

/-- What `read_sv_reg` then has to show. -/
def expected : Fin 4 → Word := ![0xAAAAAAAB, 0x000005A5, 0x55555554, 0x000007FF]

/-- `main` up to the loop over the registers, for any number of instructions in its one call. -/
def configRun (firmware : List Word) (maxInstructions : ℤ) (block : ℕ → Byte)
    (s : State (Fin 4 → Word)) : ℕ × State (Fin 4 → Word) :=
  rvStep hwCfg maxInstructions (programStart firmware block s)

/-- `pass_count` -/
def passCount (values d : Fin 4 → Word) : ℕ := (List.finRange 4).countP fun i => d i = values i

/-! ## Running it -/

/-- With the base address in `t0` and the registers in front of it. -/
structure Configures (d : Fin 4 → Word) (g : Guest (Fin 4 → Word)) : Prop where
  base : g.regs 5 = 0x10000000#32
  device : g.device = d
  awake : g.wfiSleep = false
  quiet : g.irqMask = 0

theorem hwCfg_window (i : Fin 4) :
    isMmioAddress (0x10000000#32 + ((hwCfgOffset i).setWidth 12).signExtend 32) = true ∧
      inHwCfg (0x10000000#32 + ((hwCfgOffset i).setWidth 12).signExtend 32) = true ∧
      hwCfgIndex (0x10000000#32 + ((hwCfgOffset i).setWidth 12).signExtend 32) = i := by
  revert i
  decide

variable {d : Fin 4 → Word}

theorem straight_loadImm (value : Word) :
    Straight hwCfg (loadImm 6 value) (Configures d)
      fun g => Configures d g ∧ g.regs 6 = value := by
  have hcode := loadImm_eq 6 value
  have hsplit : loadImm 6 value = [_] ++ [_] := hcode
  rw [hsplit]
  refine Straight.append (Q := fun g => Configures d g ∧ g.regs 6 =
    (value >>> 12 + if value.getLsbD 11 then 1#32 else 0#32).setWidth 20 ++ 0#12) ?_ ?_
  · refine .one fun program g hat hg => ⟨_, step_lui hat rfl, rfl, ?_, ?_⟩
    · exact ⟨(regs_next_setReg_of_ne _ (by decide) _).trans hg.base, hg.device, hg.awake, hg.quiet⟩
    · exact regs_next_setReg _ (by decide) _
  · refine .one fun program g hat hg =>
      ⟨_, step_opImm hat hg.2 (upper_add_lower value), rfl, ?_, ?_⟩
    · exact ⟨(regs_next_setReg_of_ne _ (by decide) _).trans hg.1.base, hg.1.device, hg.1.awake,
        hg.1.quiet⟩
    · exact regs_next_setReg _ (by decide) _

theorem straight_configWrite (w : Fin 4 × Word) :
    Straight hwCfg (configWrite w) (Configures d) (Configures (Function.update d w.1 w.2)) := by
  refine (straight_loadImm w.2).append (.one fun program g hat hg => ?_)
  have hat' : g.At program (Instr.store .sw 6 5 ((hwCfgOffset w.1).setWidth 12)).encode :=
    makeSw_eq 6 5 (hwCfgOffset w.1) ▸ hat
  obtain ⟨hmmio, hin, hindex⟩ := hwCfg_window w.1
  obtain ⟨⟨hbase, hdevice, hawake, hquiet⟩, hvalue⟩ := hg
  refine ⟨_, step_sw hat' hbase hvalue rfl hmmio rfl, rfl, hbase, ?_, hawake, hquiet⟩
  show (if inHwCfg _ then Function.update g.device (hwCfgIndex _) w.2 else g.device) = _
  rw [hin, hindex, hdevice]
  rfl

theorem straight_configRead (i : Fin 4) :
    Straight hwCfg (configRead i) (Configures d)
      fun g => Configures d g ∧ g.regs 7 = d i := by
  refine .one fun program g hat hg => ?_
  have hat' : g.At program (Instr.load .lw 7 5 ((hwCfgOffset i).setWidth 12)).encode :=
    makeLw_eq 7 5 (hwCfgOffset i) ▸ hat
  obtain ⟨hmmio, hin, hindex⟩ := hwCfg_window i
  obtain ⟨hbase, hdevice, hawake, hquiet⟩ := hg
  refine ⟨_, step_lw hat' hbase rfl hmmio rfl, rfl, ⟨?_, hdevice, hawake, hquiet⟩, ?_⟩
  · exact (regs_next_setReg_of_ne _ (by decide) _).trans hbase
  · refine (regs_next_setReg _ (by decide) _).trans ?_
    show (if inHwCfg _ then g.device (hwCfgIndex _) else 0) = _
    rw [hin, hindex, hdevice]
    rfl

theorem straight_prologue :
    Straight hwCfg [makeLui 5 0x10000, makeAddi 5 5 0]
      (fun g => g.device = d ∧ g.wfiSleep = false ∧ g.irqMask = 0) (Configures d) := by
  have hlui : makeLui 5 0x10000 = (Instr.lui 5 0x10000).encode := makeLui_eq 5 0x10000
  have haddi : makeAddi 5 5 0 = (Instr.opImm .addi 5 5 0).encode := makeAddi_eq 5 5 0
  rw [hlui, haddi]
  show Straight hwCfg ([_] ++ [_]) _ _
  refine Straight.append (Q := Configures d) ?_ ?_
  · refine .one fun program g hat hg => ⟨_, step_lui hat rfl, rfl, ?_, hg.1, hg.2.1, hg.2.2⟩
    exact regs_next_setReg _ (by decide) _
  · refine .one fun program g hat hg =>
      ⟨_, step_opImm hat hg.base rfl, rfl, ?_, hg.device, hg.awake, hg.quiet⟩
    exact regs_next_setReg _ (by decide) _

/-- The registers after the writes, the last one to a register last. -/
def configured (d : Fin 4 → Word) (writes : List (Fin 4 × Word)) : Fin 4 → Word :=
  writes.foldl (fun d w => Function.update d w.1 w.2) d

theorem straight_reads (reads : List (Fin 4)) :
    Straight hwCfg (reads.flatMap configRead) (Configures d)
      fun g => Configures d g ∧ ∀ i, reads.getLast? = some i → g.regs 7 = d i := by
  have hall : Straight hwCfg (reads.flatMap configRead) _ _ := Straight.flatMap
    (I := fun last g => Configures d g ∧ ∀ i, last = some i → g.regs 7 = d i)
    (f := fun _ i => some i) (fun last i => (straight_configRead i).mono (fun g hg => hg.1)
      fun g hg => ⟨hg.1, fun j hj => Option.some.inj hj ▸ hg.2⟩) reads none
  have hlast : reads.foldl (fun _ i => some i) none = reads.getLast? := by
    induction reads using List.reverseRecOn with
    | nil => rfl
    | append_singleton reads i ih =>
      rw [List.foldl_append, List.getLast?_append]
      rfl
  rw [hlast] at hall
  exact hall.mono (fun g hg => ⟨hg, fun _ hi => nomatch hi⟩) fun g hg => hg

theorem straight_configFirmware (writes : List (Fin 4 × Word)) (reads : List (Fin 4)) :
    Straight hwCfg
      ([makeLui 5 0x10000, makeAddi 5 5 0] ++ writes.flatMap configWrite ++
        reads.flatMap configRead)
      (fun g => g.device = d ∧ g.wfiSleep = false ∧ g.irqMask = 0)
      fun g => Configures (configured d writes) g ∧
        ∀ i, reads.getLast? = some i → g.regs 7 = configured d writes i :=
  (straight_prologue.append (.flatMap (fun _ w => straight_configWrite w) writes d)).append
    (straight_reads reads)

/-- A program for any writes and reads is run through to its EBREAK, and leaves in each register
the last value written to it and in `t2` the one last read. -/
theorem configRun_spec (writes : List (Fin 4 × Word)) (reads : List (Fin 4)) {n : ℕ}
    (hlength : 4 * (configFirmware writes reads).length ≤ 1 <<< 20)
    (hn : (configFirmware writes reads).length ≤ n + 1) (block : ℕ → Byte)
    {s : State (Fin 4 → Word)} (hrunning : s.htifHalted = false) :
    let r := configRun (configFirmware writes reads) n block s
    r.1 + 1 = (configFirmware writes reads).length ∧ r.2.device = configured s.device writes ∧
      (∀ i, reads.getLast? = some i → r.2.regs 7 = configured s.device writes i) ∧
      ∀ m : ℕ, (rvStep hwCfg m r.2).1 = 0 := by
  obtain ⟨code, hcode⟩ : ∃ code, [makeLui 5 0x10000, makeAddi 5 5 0] ++
      writes.flatMap configWrite ++ reads.flatMap configRead = code := ⟨_, rfl⟩
  have hfirmware : configFirmware writes reads = code ++ [makeEbreak] := by
    rw [← hcode]
    rfl
  have hstraight := straight_configFirmware (d := s.device) writes reads
  rw [hcode] at hstraight
  rw [hfirmware] at hlength hn ⊢
  have hprogram := programStart_runsProgram hlength block hrunning
  obtain ⟨g, hpath, hpc, ⟨-, hdevice, hawake, hquiet⟩, hread⟩ :=
    hstraight [] [makeEbreak] (programStart (code ++ [makeEbreak]) block s).guest rfl
      ⟨rfl, rfl, rfl⟩
  have hhosts : (programStart (code ++ [makeEbreak]) block s).Hosts (code ++ [makeEbreak])
      (programStart (code ++ [makeEbreak]) block s).guest := ⟨rfl, hprogram⟩
  have hhalts : g.Halts (code ++ [makeEbreak]) :=
    ⟨code.length, List.getElem?_concat_length, hpc⟩
  have hnever : ∀ g : Guest (Fin 4 → Word), g.irqMask = 0 → ¬ g.Interrupted := fun g h hint =>
    hint.1 (h.symm ▸ BitVec.zero_and)
  have hle : code.length ≤ n := by
    rw [List.length_append] at hn
    exact Nat.le_of_succ_le_succ hn
  obtain ⟨hcount, hend⟩ := hhosts.rvStep_until_ebreak hwCfg rfl (hnever _ rfl) hpath hhalts hle
  have hregs : (configRun (code ++ [makeEbreak]) n block s).2.regs = g.regs :=
    congrArg Guest.regs hend.guest
  refine ⟨?_, ?_, fun i hi => ?_, fun m => ?_⟩
  · rw [List.length_append]
    exact congrArg (· + 1) hcount
  · exact (congrArg Guest.device hend.guest).trans hdevice
  · rw [hregs]
    exact hread i hi
  · exact (hend.rvStep_until_ebreak hwCfg hawake (hnever g hquiet) .refl hhalts m.zero_le).1

theorem configFirmware_length (writes : List (Fin 4 × Word)) (reads : List (Fin 4)) :
    (configFirmware writes reads).length = 3 * writes.length + reads.length + 3 := by
  have hwrite : ∀ w, (configWrite w).length = 3 := fun w => by
    have hload : loadImm 6 w.2 = _ := loadImm_eq 6 w.2
    rw [configWrite, hload]
    rfl
  have hread : ∀ i, (configRead i).length = 1 := fun _ => rfl
  have hwrites : (writes.flatMap configWrite).length = 3 * writes.length := by
    rw [List.length_flatMap, List.map_congr_left fun w _ => hwrite w, List.map_const',
      List.sum_replicate_nat, Nat.mul_comm]
  have hreads : (reads.flatMap configRead).length = reads.length := by
    rw [List.length_flatMap, List.map_congr_left fun i _ => hread i, List.map_const',
      List.sum_replicate_nat, Nat.mul_one]
  rw [configFirmware, List.length_append, List.length_append, List.length_append, hwrites, hreads]
  simp only [List.length_cons, List.length_nil]
  omega

theorem configured_all (d values : Fin 4 → Word) :
    configured d ((List.finRange 4).map fun i => (i, values i)) = values := by
  funext i
  fin_cases i <;> rfl

/-- Whatever is written and read, the firmware that is generated runs to its `EBREAK` and leaves
every register with the last value for it; the test as it is written counts all four. -/
theorem configRun_configures (block : ℕ → Byte) {s : State (Fin 4 → Word)}
    (hrunning : s.htifHalted = false) :
    (∀ (writes : List (Fin 4 × Word)) (reads : List (Fin 4)) (n : ℕ),
        4 * (configFirmware writes reads).length ≤ 1 <<< 20 →
        (configFirmware writes reads).length ≤ n + 1 →
        let r := configRun (configFirmware writes reads) n block s
        r.1 + 1 = (configFirmware writes reads).length ∧
          r.2.device = configured s.device writes ∧
          (∀ i, reads.getLast? = some i → r.2.regs 7 = configured s.device writes i) ∧
          ∀ m : ℕ, (rvStep hwCfg m r.2).1 = 0) ∧
      ∀ values : Fin 4 → Word,
        let r := configRun (configFirmware ((List.finRange 4).map fun i => (i, values i))
          (List.finRange 4)) 32 block s
        r.1 = 18 ∧ passCount values r.2.device = 4 := by
  refine ⟨fun writes reads n hlength hn => configRun_spec writes reads hlength hn block hrunning,
    fun values => ?_⟩
  have hlength : (configFirmware ((List.finRange 4).map fun i => (i, values i))
      (List.finRange 4)).length = 19 := by
    rw [configFirmware_length, List.length_map, List.length_finRange]
  obtain ⟨hcount, hdevice, -, -⟩ := configRun_spec
    ((List.finRange 4).map fun i => (i, values i)) (List.finRange 4) (n := 32)
    (by rw [hlength]; decide) (by rw [hlength]; decide) block hrunning
  rw [hlength] at hcount
  rw [configured_all] at hdevice
  refine ⟨Nat.succ.inj hcount, ?_⟩
  have hpasses : passCount values values = 4 := by
    rw [passCount, List.countP_eq_length.2 fun i _ => decide_eq_true rfl]
    rfl
  exact (congrArg (passCount values) hdevice).trans hpasses

theorem configRun_configures_start :
    passCount expected (configRun (configFirmware
      ((List.finRange 4).map fun i => (i, expected i)) (List.finRange 4)) 32 (fun _ => 0)
      (State.start fun _ => 0)).2.device = 4 :=
  ((configRun_configures (fun _ => 0) rfl).2 expected).2

example : loadFirmware =
    configFirmware ((List.finRange 4).map fun i => (i, expected i)) (List.finRange 4) := by
  decide

end Herve
