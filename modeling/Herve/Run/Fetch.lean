import Herve.Decode.Base
import Herve.Decode.Rvc
import Herve.Iss.Init
import Herve.RiscV.Rv32m
import Herve.RiscV.Zicsr
import Herve.Run.Stop
import Herve.Run.Twin

/-! Which instruction `rv_step(1)` executes. The loops test and load four bytes through the data
path before they know how long the instruction is, so that the last halfword of RAM, the windows
and the wrap of the test make the fetch differ from what RAM holds. -/

namespace Herve
open RiscV AppendLog

variable {δ : Type} (dev : Device δ)

/-- An instruction as it stands in memory. -/
inductive Parcel
  | compressed (cInsn : BitVec 16)
  | base (insn : Word)
  deriving DecidableEq, Repr

/-- What the low bits of a word say stands there. -/
def parcelOf (insn : Word) : Parcel :=
  if IsCompressed insn then .compressed (insn.setWidth 16) else .base insn

namespace Parcel

def word : Parcel → Word
  | compressed cInsn => cInsn.setWidth 32
  | base insn => insn

/-- The branch of a loop that executes it. -/
def step (profiled : Bool) (s : State δ) : Parcel → Bool × State δ
  | compressed cInsn => stepCompressed dev profiled cInsn s
  | base insn => stepBase dev insn s

/-- Its execution as a call of `rv_step(1)`: the count and the state. -/
def perform (p : Parcel) (s : State δ) : ℕ × State δ :=
  let (ok, t) := p.step dev s.profiler.profilingEnabled s
  (if ok then 1 else 0, t)

end Parcel

/-- The first `n` bytes of the host array from the pc on. -/
def State.ramWord (s : State δ) (n : ℕ) : Word :=
  fromBytes n fun k => s.memory ((s.pc - s.memoryBase).toNat + k)

def State.HasRam (s : State δ) (n : ℕ) : Prop :=
  s.memoryBase ≤ s.pc ∧ (s.pc - s.memoryBase).toNat + n ≤ s.memorySize.toNat
  deriving Decidable

/-- The instruction at the pc, if all its bytes lie in RAM. -/
def State.stored (s : State δ) : Option Parcel :=
  if IsCompressed (s.ramWord 1) then
    if s.HasRam 2 then some (.compressed ((s.ramWord 2).setWidth 16)) else none
  else if s.HasRam 4 then some (.base (s.ramWord 4)) else none

/-- `rv_step(1)` reads the instruction that RAM holds at the pc from there and executes it, or
changes nothing where RAM holds none. -/
def State.RunsStored (s : State δ) : Prop :=
  match s.stored with
  | some p =>
    ∃ w, rvStep dev 1 s = p.perform dev (s.log (.host true (s.pc - s.memoryBase).toNat w))
  | none => rvStep dev 1 s = (0, s)

/-- The source's test of four bytes passes exactly where RAM holds an instruction, and such a pc
lies outside both windows. -/
def State.FetchesRam (s : State δ) : Prop :=
  (s.validMemoryAccess s.pc 4 = true ↔ s.stored ≠ none) ∧
    (s.stored ≠ none → isHtifAddress s.pc = false ∧ isMmioAddress s.pc = false)
  deriving Decidable

/-! ## Words and parcels -/

variable {dev} {s : State δ}

theorem isCompressed_congr {v w : Word} (h : ∀ i < 2, v.getLsbD i = w.getLsbD i) :
    IsCompressed v ↔ IsCompressed w := by
  have hbits : ∀ i < 2, (w.setWidth 2).getLsbD i = w.getLsbD i := by
    intro i hi
    rw [BitVec.getLsbD_setWidth, decide_eq_true hi, Bool.true_and]
  have hv : v &&& 0x3#32 = (w.setWidth 2).setWidth 32 :=
    lowField_eq rfl fun i hi => (h i hi).trans (hbits i hi).symm
  have hw : w &&& 0x3#32 = (w.setWidth 2).setWidth 32 :=
    lowField_eq rfl fun i hi => (hbits i hi).symm
  unfold IsCompressed
  rw [hv, hw]

theorem isCompressed_opcode (v : Word) : IsCompressed v ↔ IsCompressed (opcode v) := by
  unfold IsCompressed opcode
  rw [BitVec.and_assoc]
  rfl

theorem not_isCompressed_encode (i : Instr) : ¬ IsCompressed i.encode := by
  rw [isCompressed_opcode]
  cases i <;> simp [Instr.encode] <;> decide

theorem not_isCompressed_mulDiv (op : MulDiv) (r r1 r2 : Reg) :
    ¬ IsCompressed (op.encode r r1 r2) := by
  rw [isCompressed_opcode]
  simp [MulDiv.encode]
  decide

theorem isCompressed_encode (c : CInstr) : IsCompressed (c.encode.setWidth 32) := by
  unfold IsCompressed
  cases c <;> simp [CInstr.encode]

theorem not_isCompressed_csr (i : CsrInstr) : ¬ IsCompressed i.encode := by
  rw [isCompressed_opcode]
  simp [CsrInstr.encode]
  decide

theorem isCompressed_fromBytes (n : ℕ) (f : ℕ → Byte) :
    IsCompressed (fromBytes (n + 1) f) ↔ IsCompressed (fromBytes 1 f) := by
  refine isCompressed_congr fun i hi => ?_
  have hn : i < 8 * (n + 1) := by omega
  have h1 : i < 8 * 1 := by omega
  rw [getLsbD_fromBytes, getLsbD_fromBytes, decide_eq_true hn, decide_eq_true h1]

theorem setWidth_fromBytes (f : ℕ → Byte) :
    (fromBytes 4 f).setWidth 16 = (fromBytes 2 f).setWidth 16 := by
  apply BitVec.eq_of_getLsbD_eq
  intro i hi
  have h4 : i < 8 * 4 := by omega
  have h2 : i < 8 * 2 := by omega
  rw [BitVec.getLsbD_setWidth, BitVec.getLsbD_setWidth, getLsbD_fromBytes, getLsbD_fromBytes]
  simp [h4, h2]

theorem parcelOf_of_stored {p : Parcel} (h : s.stored = some p) : p = parcelOf (s.ramWord 4) := by
  have hlow : IsCompressed (s.ramWord 4) ↔ IsCompressed (s.ramWord 1) :=
    isCompressed_fromBytes 3 _
  unfold State.stored at h
  unfold parcelOf
  split_ifs at h with hc
  · rw [if_pos (hlow.2 hc), State.ramWord, setWidth_fromBytes]
    exact (Option.some.inj h).symm
  · rw [if_neg (mt hlow.1 hc)]
    exact (Option.some.inj h).symm

theorem stored_of_hasRam (h : s.HasRam 4) : s.stored ≠ none := by
  have h2 : s.HasRam 2 := ⟨h.1, by have := h.2; omega⟩
  unfold State.stored
  rw [if_pos h2, if_pos h]
  split_ifs <;> exact Option.some_ne_none _

theorem parcelOf_word (insn : Word) : parcelOf (parcelOf insn).word = parcelOf insn := by
  by_cases hc : IsCompressed insn
  · have hhalf : ((insn.setWidth 16).setWidth 32).setWidth 16 = insn.setWidth 16 :=
      (BitVec.setWidth_setWidth_of_le _ (by decide)).trans (BitVec.setWidth_eq _)
    have hc' : IsCompressed ((insn.setWidth 16).setWidth 32) := by
      refine (isCompressed_congr fun i hi => ?_).2 hc
      interval_cases i <;> simp
    have hinsn : parcelOf insn = .compressed (insn.setWidth 16) := if_pos hc
    rw [hinsn]
    exact (if_pos hc').trans (congrArg Parcel.compressed hhalf)
  · have hinsn : parcelOf insn = .base insn := if_neg hc
    rw [hinsn]
    exact hinsn

/-! ## One instruction -/

variable (dev)

theorem iteration_parcel (profiled : Bool) (hf : s.CanFetch) :
    iteration dev profiled s =
      (parcelOf (s.fetchedInsn dev)).step dev profiled (s.fetched dev) := by
  by_cases hc : IsCompressed (s.fetchedInsn dev)
  · have hparcel : parcelOf (s.fetchedInsn dev) =
        .compressed ((s.fetchedInsn dev).setWidth 16) := if_pos hc
    rw [iteration, hf.1, hf.2, hparcel]
    exact if_pos hc
  · have hparcel : parcelOf (s.fetchedInsn dev) = .base (s.fetchedInsn dev) := if_neg hc
    rw [iteration_base dev profiled hf hc, hparcel]
    rfl

theorem rvStep_one (h : s.Runs 1) :
    rvStep dev 1 s = (if (iteration dev s.profiler.profilingEnabled s).1 then 1 else 0,
      (iteration dev s.profiler.profilingEnabled s).2) := by
  rw [rvStep_run dev h]
  show BreakLoop.loop _ (0 + 1) s = _
  cases hok : (iteration dev s.profiler.profilingEnabled s).1 with
  | true =>
    rw [BreakLoop.loop_succ_true hok]
    rfl
  | false =>
    rw [BreakLoop.loop_succ_false hok]
    rfl

theorem rvStep_one_fetch (h : s.Runs 1) (hf : s.CanFetch) :
    rvStep dev 1 s = (parcelOf (s.fetchedInsn dev)).perform dev (s.fetched dev) := by
  rw [rvStep_one dev h, iteration_parcel dev _ hf]
  rfl

theorem rvStep_one_stop (h : s.Runs 1) (hf : ¬ s.CanFetch) : rvStep dev 1 s = (0, s) := by
  rw [rvStep_one dev h, iteration_stop dev _ hf]
  rfl

/-! ## What an instruction logs -/

/-- An instruction that stops the loop logs nothing; one that retires logs that last, after its
accesses. -/
def LogsRetire (word : Word) (s : State δ) (r : Bool × State δ) : Prop :=
  r.1 = false ∧ r.2.trace = s.trace ∨
    r.1 = true ∧ ∃ es mie, (∀ e ∈ es, e.IsBus) ∧ r.2.trace = s.trace ++ es ++ [.retire word mie]

theorem stepCompressed_logs (profiled : Bool) (cInsn : BitVec 16) (s : State δ) :
    LogsRetire (cInsn.setWidth 32) s (stepCompressed dev profiled cInsn s) := by
  have hexec : executeCompressed dev cInsn s.toCore =
      (decodeCompressed cInsn s.regs s.pc).run dev s.pc s.toCore := rfl
  rw [stepCompressed, hexec]
  by_cases ha : decodeCompressed cInsn s.regs s.pc = .fail
  · rw [ha]
    exact .inl ⟨rfl, rfl⟩
  · have htouch := Arm.run_touches dev (decodeCompressed cInsn s.regs s.pc) s.pc s.toCore
    obtain ⟨es, hes, hbus⟩ := htouch.isBus.trace
    have hpast := stepPast_toBus s.pc ((decodeCompressed cInsn s.regs s.pc).run dev s.pc s.toCore).2
    simp only [Arm.run_ok dev s.pc s.toCore ha]
    refine .inr ⟨rfl, es, s.mie, hbus, ?_⟩
    rw [← hes, ← hpast]
    rfl

theorem stepBase_logs (insn : Word) (s : State δ) : LogsRetire insn s (stepBase dev insn s) := by
  by_cases htrap : IsTrapCall insn
  · rw [stepBase, executeInstruction_trapCall dev htrap]
    exact .inl ⟨rfl, rfl⟩
  by_cases hsleep : Sleeps insn s
  · rw [stepBase, executeInstruction_sleeps dev hsleep]
    exact .inl ⟨rfl, rfl⟩
  · obtain ⟨es, hes, hbus⟩ := (executeInstruction_touches dev insn s).isBus.trace
    rw [stepBase]
    simp only [(executeInstruction_retires dev htrap hsleep).1]
    refine .inr ⟨rfl, es, (executeInstruction dev insn s).2.mie, hbus, ?_⟩
    rw [← hes]
    rfl

theorem Parcel.step_logs (p : Parcel) (profiled : Bool) (s : State δ) :
    LogsRetire p.word s (p.step dev profiled s) := by
  cases p with
  | compressed cInsn => exact stepCompressed_logs dev profiled cInsn s
  | base insn => exact stepBase_logs dev insn s

theorem LogsRetire.extends {word : Word} {s : State δ} {r : Bool × State δ}
    (h : LogsRetire word s r) : s.trace <+: r.2.trace := by
  rcases h with ⟨_, htrace⟩ | ⟨_, es, mie, _, htrace⟩
  · rw [htrace]
  · rw [htrace, List.append_assoc]
    exact List.prefix_append _ _

theorem Parcel.perform_extends (p : Parcel) (s : State δ) :
    s.trace <+: (p.perform dev s).2.trace := (p.step_logs dev _ s).extends

/-! ## Two executions that differ in the log -/

/-- The same bus with a log that is one entry longer. -/
def Bus.Ahead (b b' : Bus δ) : Prop :=
  ∃ t, b' = { b with trace := t } ∧ t.length = b.trace.length + 1

theorem Bus.ahead_indistinct : Bus.Indistinct dev Bus.Ahead where
  memory := by rintro _ _ ⟨t, rfl, _⟩; rfl
  memorySize := by rintro _ _ ⟨t, rfl, _⟩; rfl
  memoryBase := by rintro _ _ ⟨t, rfl, _⟩; rfl
  htifFromhostLo := by rintro _ _ ⟨t, rfl, _⟩; rfl
  htifFromhostHi := by rintro _ _ ⟨t, rfl, _⟩; rfl
  htifHalted := by rintro _ _ ⟨t, rfl, _⟩; rfl
  irqMask := by rintro _ _ ⟨t, rfl, _⟩; rfl
  log := by
    rintro b _ e ⟨t, rfl, ht⟩
    exact ⟨t ++ [e], rfl, by simp [Bus.log, ht]⟩
  memcpyTo := by
    rintro b _ i n v ⟨t, rfl, ht⟩
    exact ⟨t ++ [.host true i.toNat n], rfl, by simp [Bus.memcpyTo, Bus.log, ht]⟩
  dpiMmioRead := by
    rintro b _ addr ⟨t, rfl, ht⟩
    exact ⟨rfl, t ++ [.mmioRead addr (b.dpiMmioRead dev addr).1], rfl,
      by simp [Bus.dpiMmioRead, Bus.log, ht]⟩
  dpiMmioWrite := by
    rintro b _ addr value ⟨t, rfl, ht⟩
    exact ⟨t ++ [.mmioWrite addr value], rfl, by simp [Bus.dpiMmioWrite, Bus.log, ht]⟩
  setTohostLo := by rintro _ _ _ ⟨t, rfl, ht⟩; exact ⟨t, rfl, ht⟩
  setTohostHi := by rintro _ _ _ ⟨t, rfl, ht⟩; exact ⟨t, rfl, ht⟩
  setFromhostLo := by rintro _ _ _ ⟨t, rfl, ht⟩; exact ⟨t, rfl, ht⟩
  setFromhostHi := by rintro _ _ _ ⟨t, rfl, ht⟩; exact ⟨t, rfl, ht⟩
  exit := by rintro _ _ _ ⟨t, rfl, ht⟩; exact ⟨t, rfl, ht⟩
  setIrqMask := by rintro _ _ _ ⟨t, rfl, ht⟩; exact ⟨t, rfl, ht⟩

theorem Parcel.step_twin {t : State δ} (h : s.Twin Bus.Ahead s.symbols t) (p : Parcel)
    (profiled : Bool) :
    (p.step dev profiled s).2.Twin Bus.Ahead s.symbols (p.step dev profiled t).2 := by
  cases p with
  | compressed cInsn => exact (h.stepCompressed (Bus.ahead_indistinct dev) _ _ _).2
  | base insn => exact (h.stepBase (Bus.ahead_indistinct dev) _).2

theorem twin_log (s : State δ) (e : Event) : s.Twin Bus.Ahead s.symbols (s.log e) :=
  .mk s.profiler ⟨s.trace ++ [e], rfl, by simp⟩

theorem State.Twin.trace_length {y : List Symbol} {t : State δ} (h : s.Twin Bus.Ahead y t) :
    t.trace.length = s.trace.length + 1 := by
  obtain ⟨_, _, rfl, hlength⟩ := h
  exact hlength

/-- Two instructions, one executed after an entry more in the log, never end alike. -/
theorem perform_ne_perform_log {p q : Parcel} (hp : parcelOf p.word = p) (hq : parcelOf q.word = q)
    (s : State δ) (e : Event) : p.perform dev s ≠ q.perform dev (s.log e) := by
  intro heq
  have htrace : (p.step dev s.profiler.profilingEnabled s).2.trace =
      (q.step dev s.profiler.profilingEnabled (s.log e)).2.trace :=
    congrArg (fun r : ℕ × State δ => r.2.trace) heq
  have hlonger := (q.step_logs dev s.profiler.profilingEnabled (s.log e)).extends
  rcases p.step_logs dev s.profiler.profilingEnabled s with ⟨_, hstop⟩ | ⟨hok, es, mie, _, hes⟩
  · rw [← htrace, hstop] at hlonger
    exact not_concat_prefix _ _ hlonger
  rcases q.step_logs dev s.profiler.profilingEnabled (s.log e) with ⟨hno, _⟩ |
      ⟨_, fs, mie', _, hfs⟩
  · have hcount : (p.perform dev s).1 = (q.perform dev (s.log e)).1 := congrArg Prod.fst heq
    have hone : (p.perform dev s).1 = 1 := if_pos hok
    have hzero : (q.perform dev (s.log e)).1 = 0 := by
      show (if (q.step dev s.profiler.profilingEnabled (s.log e)).1 then 1 else 0) = 0
      rw [hno]
      rfl
    omega
  · -- both retire: their last entries name the same instruction
    rw [hes, hfs] at htrace
    have hlast : Event.retire p.word mie = .retire q.word mie' :=
      List.singleton_inj.1 (List.append_inj_right' htrace rfl)
    have hpq : p = q := by rw [← hp, ← hq, (Event.retire.inj hlast).1]
    subst hpq
    have hlength := (p.step_twin dev (twin_log s e) s.profiler.profilingEnabled).trace_length
    rw [hes, hfs, htrace] at hlength
    omega

/-! ## The fetch -/

theorem fetched_htif (h : isHtifAddress s.pc = true) : s.fetched dev = s := by
  have hread : (s.readU32 dev s.pc).2 = s.toBus := by
    rw [Bus.readU32, if_pos h]
  rw [State.fetched, hread]

theorem fetched_mmio (hh : isHtifAddress s.pc = false) (hm : isMmioAddress s.pc = true) :
    ∃ value, (s.fetched dev).trace = s.trace ++ [.mmioRead s.pc value] := by
  refine ⟨(s.dpiMmioRead dev s.pc).1, ?_⟩
  show (s.readU32 dev s.pc).2.trace = _
  rw [Bus.readU32, hh, hm]
  rfl

theorem fetched_ram (hv : s.validMemoryAccess s.pc 4 = true) (hh : isHtifAddress s.pc = false)
    (hm : isMmioAddress s.pc = false) :
    s.fetchedInsn dev = s.ramWord 4 ∧
      s.fetched dev = s.log (.host true (s.pc - s.memoryBase).toNat 4) := by
  have hread : s.readU32 dev s.pc = s.memcpyFrom true (s.pc - s.memoryBase) 4 := by
    rw [Bus.readU32, hh, hm, hv]
    rfl
  exact ⟨congrArg Prod.fst hread,
    congrArg (fun b : Bus δ => { s with toBus := b }) (congrArg Prod.snd hread)⟩

/-- The test passes without an instruction in RAM only where its sum wraps. -/
theorem not_htif_of_stored_none (hv : s.validMemoryAccess s.pc 4 = true) (h : s.stored = none) :
    isHtifAddress s.pc = false := by
  rw [Bus.validMemoryAccess_eq_true] at hv
  by_contra hhtif
  rw [Bool.not_eq_false, isHtifAddress_iff] at hhtif
  refine stored_of_hasRam ⟨hv.1, ?_⟩ h
  obtain ⟨hbase, hsum⟩ := hv
  obtain ⟨_, hhigh⟩ := hhtif
  bv_omega

/-- Outside the HTIF window a fetch is logged, so that the call changes the state. -/
theorem rvStep_one_ne (h : s.Runs 1) (hf : s.CanFetch) (hh : isHtifAddress s.pc = false) :
    rvStep dev 1 s ≠ (0, s) := by
  intro heq
  have hlog : ∃ e, (s.fetched dev).trace = s.trace ++ [e] := by
    cases hm : isMmioAddress s.pc with
    | true =>
      obtain ⟨value, hfetch⟩ := fetched_mmio dev hh hm
      exact ⟨_, hfetch⟩
    | false =>
      rw [(fetched_ram dev hf.2 hh hm).2]
      exact ⟨_, rfl⟩
  obtain ⟨e, he⟩ := hlog
  have hlonger := Parcel.perform_extends dev (parcelOf (s.fetchedInsn dev)) (s.fetched dev)
  rw [← rvStep_one_fetch dev h hf, heq, he] at hlonger
  exact not_concat_prefix _ _ hlonger

/-- What is in RAM at the pc is executed exactly where the test of the source and the windows do
not come between. -/
theorem runsStored_iff (h : s.Runs 1) (hrunning : s.htifHalted = false) :
    s.RunsStored dev ↔ s.FetchesRam := by
  unfold State.RunsStored State.FetchesRam
  cases hstored : s.stored with
  | none =>
    by_cases hv : s.validMemoryAccess s.pc 4 = true
    · have hhtif := not_htif_of_stored_none hv hstored
      exact iff_of_false (rvStep_one_ne dev h ⟨hrunning, hv⟩ hhtif) fun hc => hc.1.1 hv rfl
    · refine iff_of_true (rvStep_one_stop dev h fun hf => hv hf.2) ⟨?_, fun hne => absurd rfl hne⟩
      exact ⟨fun hv' => absurd hv' hv, fun hne => absurd rfl hne⟩
  | some p =>
    have hp := parcelOf_of_stored hstored
    have hword : parcelOf p.word = p := by rw [hp, parcelOf_word]
    by_cases hv : s.validMemoryAccess s.pc 4 = true
    · have hf : s.CanFetch := ⟨hrunning, hv⟩
      have hsome : some p ≠ none := Option.some_ne_none p
      have hrun := rvStep_one_fetch dev h hf
      cases hh : isHtifAddress s.pc with
      | true =>
        rw [fetched_htif dev hh] at hrun
        refine iff_of_false ?_ fun hc => absurd (hc.2 hsome).1 (by decide)
        rintro ⟨w, hw⟩
        exact perform_ne_perform_log dev (parcelOf_word _) hword s _ (hrun.symm.trans hw)
      | false =>
        cases hm : isMmioAddress s.pc with
        | true =>
          refine iff_of_false ?_ fun hc => absurd (hc.2 hsome).2 (by decide)
          rintro ⟨w, hw⟩
          -- the first new entry is a read of the device, not of RAM
          obtain ⟨value, hfetch⟩ := fetched_mmio dev hh hm
          have hleft := Parcel.perform_extends dev (parcelOf (s.fetchedInsn dev)) (s.fetched dev)
          have hright := Parcel.perform_extends dev p
            (s.log (.host true (s.pc - s.memoryBase).toNat w))
          rw [hfetch, ← hrun, hw] at hleft
          exact Event.noConfusion (concat_prefix_inj hleft hright)
        | false =>
          obtain ⟨hinsn, hfetched⟩ := fetched_ram dev hv hh hm
          rw [hinsn, hfetched, ← hp] at hrun
          exact iff_of_true ⟨4, hrun⟩ ⟨⟨fun _ => hsome, fun _ => hv⟩, fun _ => ⟨rfl, rfl⟩⟩
    · refine iff_of_false ?_ fun hc => hv (hc.1.2 (Option.some_ne_none p))
      rintro ⟨w, hw⟩
      have hlonger := Parcel.perform_extends dev p
        (s.log (.host true (s.pc - s.memoryBase).toNat w))
      rw [← hw, rvStep_one_stop dev h fun hf => hv hf.2] at hlonger
      exact not_concat_prefix _ _ hlonger

theorem runsStored_nop : (State.booted [0x13]).RunsStored herveStubs :=
  (runsStored_iff herveStubs ⟨by decide, by decide, by decide, by decide⟩ rfl).2 (by decide)

/-- C.NOP in the last two bytes of RAM. -/
def State.lastHalfword : State Unit :=
  { State.booted [] with memory := fun i => if i = 62 then 1 else 0, pc := 62 }

/-- C.NOP in RAM under `tohost`. -/
def State.underTohost : State Unit :=
  { State.holding 0x13 with
    memory := fun i => if i = 0x1000 then 1 else 0, memorySize := 0x2000, pc := 0x80001000#32 }

theorem not_runsStored_of_fst {p : Parcel} (hstored : s.stored = some p)
    (hstop : (rvStep dev 1 s).1 = 0) (hstep : ∀ e, (p.perform dev (s.log e)).1 = 1) :
    ¬ s.RunsStored dev := by
  unfold State.RunsStored
  rw [hstored]
  rintro ⟨w, hw⟩
  have hfst := hstep (.host true (s.pc - s.memoryBase).toNat w)
  rw [← hw, hstop] at hfst
  exact zero_ne_one hfst

/-- Both programs hold an instruction that `rv_step(1)` does not execute. -/
theorem not_runsStored :
    (State.lastHalfword.Runs 1 ∧ State.lastHalfword.htifHalted = false ∧
      ¬ State.lastHalfword.RunsStored herveStubs) ∧
    State.underTohost.Runs 1 ∧ State.underTohost.htifHalted = false ∧
      ¬ State.underTohost.RunsStored herveStubs := by
  refine ⟨⟨⟨by decide, by decide, by decide, by decide⟩, rfl, ?_⟩,
    ⟨by decide, by decide, by decide, by decide⟩, rfl, ?_⟩
  · exact not_runsStored_of_fst herveStubs (p := .compressed 1) (by decide) (by decide)
      fun _ => rfl
  · exact not_runsStored_of_fst herveStubs (p := .compressed 1) (by decide) (by decide)
      fun _ => rfl

end Herve
