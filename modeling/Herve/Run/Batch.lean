import Herve.Run.Alike
import Herve.Run.Stop

/-! Splitting a batch. The second call starts where the first one stopped, so the split shows
unless every stop is a fixed point; a stop that is fetched anew from the device is not. -/

namespace Herve
open RiscV AppendLog

variable {δ : Type} (dev : Device δ)

/-- The same state, reached with the same output; only the log of the uses of the host array
may differ. -/
def SameButLog (s t : State δ) : Prop :=
  t = { s with trace := t.trace } ∧ outputs t.trace = outputs s.trace

/-- `rv_step(m)` and then `rv_step(n)` is `rv_step(m + n)`. -/
structure SplitInvisible (m n : ℕ) (s : State δ) : Prop where
  counts : (rvStep dev m s).1 + (rvStep dev n (rvStep dev m s).2).1 = (rvStep dev (m + n) s).1
  state : SameButLog (rvStep dev (m + n) s).2 (rvStep dev n (rvStep dev m s).2).2

/-- The loop stops at an instruction that it has fetched from the MMIO window. -/
def State.RefusesMmio (s : State δ) : Prop :=
  s.CanFetch ∧ isMmioAddress s.pc = true ∧ s.Refuses dev

/-! ## Fetching again -/

theorem SameButLog.refl (s : State δ) : SameButLog s s := ⟨rfl, rfl⟩

/-- What decides which loop runs, if any. -/
def State.mode (s : State δ) : Bool × Bool := (s.initialized, s.profiler.profilingEnabled)

theorem herveProfilerRecordInsn_enabled (symbols : List Symbol) (type : InsnType) (pc insn : Word)
    (p : Profiler) :
    (herveProfilerRecordInsn symbols type pc insn p).profilingEnabled = p.profilingEnabled := by
  have hfunc : ∀ (f : SymbolName) (cycles : BitVec 64) (q : Profiler),
      (recordInFunction f type cycles q).profilingEnabled = q.profilingEnabled := by
    intro f cycles q
    unfold recordInFunction
    dsimp only
    split_ifs
    · rfl
    · split <;> rfl
  unfold herveProfilerRecordInsn
  by_cases henabled : (!p.profilingEnabled) = true
  · rw [if_pos henabled]
  · rw [if_neg henabled]
    dsimp only
    split
    · exact hfunc _ _ _
    · rfl

theorem recordInsn_mode (s : State δ) (type : InsnType) (pc insn : Word) :
    (s.recordInsn type pc insn).mode = s.mode := by
  unfold State.recordInsn
  split_ifs
  · exact congrArg (Prod.mk _) (herveProfilerRecordInsn_enabled _ _ _ _ _)
  · rfl

theorem retire_mode (s : State δ) (type : InsnType) (nextPc insn : Word) :
    (s.retire type nextPc insn).2.mode = s.mode := recordInsn_mode _ _ _ _

theorem executeInstruction_mode (insn : Word) (s : State δ) :
    (executeInstruction dev insn s).2.mode = s.mode := by
  have hcsr : (executeCsr insn s).mode = s.mode := by
    unfold executeCsr State.csrWrite
    dsimp only
    split <;> rfl
  unfold executeInstruction executeSystem
  split_ifs
  · rfl
  · rfl
  · exact retire_mode _ _ _ _
  · rfl
  · exact (retire_mode _ _ _ _).trans hcsr
  · exact recordInsn_mode _ _ _ _

theorem iteration_mode (profiled : Bool) (s : State δ) :
    (iteration dev profiled s).2.mode = s.mode := by
  unfold iteration
  split_ifs with hhalted hvalid
  · rfl
  · rfl
  dsimp only
  split_ifs
  · unfold stepCompressed
    dsimp only
    split_ifs
    · exact congrArg (Prod.mk _) (herveProfilerRecordInsn_enabled _ _ _ _ _)
    · rfl
    · rfl
  · have hexec := executeInstruction_mode dev (s.fetchedInsn dev) (s.fetched dev)
    unfold stepBase
    dsimp only
    split_ifs
    · exact hexec
    · exact hexec

/-- A read outside the MMIO window does not depend on the log and adds no output to it. -/
theorem Bus.readU32_plain (b : Bus δ) {addr : Word} (hmmio : isMmioAddress addr = false) :
    ∃ v es, outputs es = [] ∧ ∀ trace,
      Bus.readU32 dev { b with trace := trace } addr = (v, { b with trace := trace ++ es }) := by
  by_cases hhtif : isHtifAddress addr = true
  · refine ⟨if addr = 0x80001008#32 then b.htifFromhostLo
      else if addr = 0x8000100c#32 then b.htifFromhostHi else 0, [], rfl, fun trace => ?_⟩
    rw [Bus.readU32, if_pos hhtif, List.append_nil]
  have hread : ∀ trace, Bus.readU32 dev { b with trace := trace } addr =
      if !b.validMemoryAccess addr 4 then (0, { b with trace := trace })
      else Bus.memcpyFrom { b with trace := trace } true (addr - b.memoryBase) 4 := by
    intro trace
    rw [Bus.readU32, if_neg hhtif, hmmio]
    rfl
  cases hv : b.validMemoryAccess addr 4 with
  | false =>
    refine ⟨0, [], rfl, fun trace => ?_⟩
    rw [hread, hv, List.append_nil]
    rfl
  | true =>
    refine ⟨fromBytes 4 fun k => b.memory ((addr - b.memoryBase).toNat + k),
      [.host true (addr - b.memoryBase).toNat 4], rfl, fun trace => ?_⟩
    rw [hread, hv]
    rfl

variable {s : State δ}

/-- Fetched again from RAM or HTIF, a refused instruction is refused again. -/
theorem refuses_again (hf : s.CanFetch) (hr : s.Refuses dev) (hmmio : isMmioAddress s.pc = false)
    (profiled : Bool) :
    ∃ t, iteration dev profiled (s.fetched dev) = (false, t) ∧ SameButLog (s.fetched dev) t := by
  obtain ⟨v, es, hes, hread⟩ := s.readU32_plain dev hmmio
  have hfirst : s.readU32 dev s.pc = (v, { s.toBus with trace := s.trace ++ es }) := hread s.trace
  have hfetched : s.fetched dev = { s with trace := s.trace ++ es } := by
    rw [State.fetched, hfirst]
  have hinsn : State.fetchedInsn dev { s with trace := s.trace ++ es } = s.fetchedInsn dev := by
    have hvalue := congrArg Prod.fst (hread (s.trace ++ es))
    rw [State.fetchedInsn, State.fetchedInsn, hfirst]
    exact hvalue
  have hagain : State.fetched dev { s with trace := s.trace ++ es } =
      { s with trace := s.trace ++ es ++ es } := by
    have hbus := congrArg Prod.snd (hread (s.trace ++ es))
    exact congrArg (fun b : Bus δ => { s with toBus := b }) hbus
  have hr' : State.Refuses dev { s with trace := s.trace ++ es } := by
    unfold State.Refuses State.compressedArm
    rw [hinsn]
    exact hr
  rw [hfetched]
  refine ⟨_, iteration_refuses dev profiled (s := { s with trace := s.trace ++ es }) hf hr', ?_⟩
  rw [hagain]
  exact ⟨rfl, by rw [outputs_append, hes, List.append_nil]⟩

theorem loop_extends_fetched (hf : s.CanFetch) (profiled : Bool) {n : ℕ} (hn : 0 < n) :
    Extends (fun _ => True) (s.fetched dev).trace
      (BreakLoop.loop (iteration dev profiled) n s).2.trace := by
  obtain ⟨n, rfl⟩ := Nat.exists_eq_succ_of_ne_zero hn.ne'
  have hstep : Extends (fun _ => True) (s.fetched dev).trace
      (iteration dev profiled s).2.trace := by
    obtain ⟨b, htouch, hend⟩ := iteration_touches dev profiled hf
    have hdata := htouch.isBus.trace.mono fun _ _ => (trivial : True)
    rcases hend with ⟨hend, _⟩ | ⟨insn, hend, _⟩
    · rw [hend]
      exact hdata
    · rw [hend]
      exact hdata.append trivial
  cases hb : (iteration dev profiled s).1 with
  | false =>
    rw [BreakLoop.loop_succ_false hb]
    exact hstep
  | true =>
    rw [BreakLoop.loop_succ_true hb]
    exact hstep.trans ((loop_step dev profiled n).trace.mono fun _ _ => trivial)

/-! ## Calling again -/

theorem not_interrupted (hirq : s.irqMask = 0) : ¬ s.Interrupted :=
  fun hint => (interrupted_raised hint).2 hirq

theorem rvStep_resting (hirq : s.irqMask = 0)
    (h : ¬ (s.initialized = true ∧ s.wfiSleep = false)) (n : ℤ) : rvStep dev n s = (0, s) :=
  rvStep_idle dev (fun hd => not_interrupted hirq hd.2.2) fun hr => h ⟨hr.1, hr.2.2.1⟩

/-- The same loop runs in `t` as in `s`, and takes no interrupt. -/
structure Running (s t : State δ) : Prop where
  mode : t.mode = s.mode
  initialized : s.initialized = true
  irqMask : t.irqMask = 0
  awake : t.wfiSleep = false

theorem Running.rvStep_eq {t : State δ} (h : Running s t) (n : ℕ) :
    rvStep dev n t = BreakLoop.loop (iteration dev s.profiler.profilingEnabled) n t := by
  have hprofiled : t.profiler.profilingEnabled = s.profiler.profilingEnabled :=
    congrArg Prod.snd h.mode
  have hinit : t.initialized = true := (congrArg Prod.fst h.mode).trans h.initialized
  rw [rvStep_loop dev n hinit h.awake (not_interrupted h.irqMask), hprofiled]

theorem Running.next {t : State δ} (h : Running s t) (hd : dev.Silent) (profiled : Bool)
    (hgoes : (iteration dev profiled t).1 = true) : Running s (iteration dev profiled t).2 where
  mode := (iteration_mode dev profiled t).trans h.mode
  initialized := h.initialized
  irqMask := ((iteration_step dev profiled).irqMask hd).trans h.irqMask
  awake := (iteration_awake dev hgoes).trans h.awake

/-- A further call of `n > 0` that starts where the loop would refuse once more. -/
theorem loop_again {body : State δ → Bool × State δ} {t : State δ}
    (h : ∃ u, body t = (false, u) ∧ SameButLog t u) (n : ℕ) :
    (BreakLoop.loop body n t).1 = 0 ∧ SameButLog t (BreakLoop.loop body n t).2 := by
  obtain ⟨u, hbody, hsame⟩ := h
  cases n with
  | zero => exact ⟨rfl, .refl t⟩
  | succ n =>
    rw [BreakLoop.loop_succ_false (congrArg Prod.fst hbody), hbody]
    exact ⟨rfl, hsame⟩

/-- After a fetch from the MMIO window a further call fetches again, which is an MMIO call. -/
theorem refusesMmio_again (hr : s.RefusesMmio dev) (profiled : Bool) {n : ℕ} (hn : 0 < n) :
    ¬ SameButLog (s.fetched dev)
      (BreakLoop.loop (iteration dev profiled) n (s.fetched dev)).2 := by
  obtain ⟨hf, hmmio, -⟩ := hr
  have hhtif := isHtifAddress_of_mmio hmmio
  have hread : ∀ b : Bus δ, b.readU32 dev s.pc = b.dpiMmioRead dev s.pc := by
    intro b
    rw [Bus.readU32, hhtif, hmmio]
    rfl
  have hf' : (s.fetched dev).CanFetch := by
    unfold State.CanFetch State.fetched
    rw [hread]
    exact hf
  intro hsame
  obtain ⟨es, hes, -⟩ := loop_extends_fetched dev hf' profiled hn
  have hfetch : ∃ v, (State.fetched dev (s.fetched dev)).trace =
      (s.fetched dev).trace ++ [.mmioRead s.pc v] := by
    rw [State.fetched]
    exact ⟨_, congrArg (fun r : Word × Bus δ => r.2.trace) (hread (s.fetched dev).toBus)⟩
  obtain ⟨v, hv⟩ := hfetch
  have houtputs := hsame.2
  rw [hes, hv, outputs_append, outputs_append, List.append_assoc] at houtputs
  have hlong := List.append_cancel_left (houtputs.trans (List.append_nil _).symm)
  exact absurd (List.append_eq_nil_iff.1 hlong).1 (List.cons_ne_nil _ _)

/-- Where the loop broke, a further call changes nothing that shows. -/
theorem Running.again_iff {t : State δ} (h : Running s t) (hd : dev.Silent)
    (hbreak : (iteration dev s.profiler.profilingEnabled t).1 = false) (n : ℕ) :
    (rvStep dev n (iteration dev s.profiler.profilingEnabled t).2).1 = 0 ∧
        SameButLog (iteration dev s.profiler.profilingEnabled t).2
          (rvStep dev n (iteration dev s.profiler.profilingEnabled t).2).2 ↔
      n = 0 ∨ ¬ t.RefusesMmio dev := by
  have hmode := (iteration_mode dev s.profiler.profilingEnabled t).trans h.mode
  have hirq : (iteration dev s.profiler.profilingEnabled t).2.irqMask = 0 :=
    ((iteration_step dev s.profiler.profilingEnabled).irqMask hd).trans h.irqMask
  rcases iteration_stops dev hbreak with ⟨hf, hstop⟩ | ⟨hf, hr, hstop⟩ | ⟨hf, hs, hstop⟩
  · rw [hstop, h.rvStep_eq]
    refine iff_of_true ?_ (.inr fun hm => hf hm.1)
    exact loop_again ⟨t, iteration_stop dev _ hf, .refl t⟩ n
  · rw [hstop] at hmode hirq ⊢
    have hfetched : Running s (t.fetched dev) := ⟨hmode, h.initialized, hirq, h.awake⟩
    rw [hfetched.rvStep_eq]
    by_cases hmmio : isMmioAddress t.pc = true
    · have hm : t.RefusesMmio dev := ⟨hf, hmmio, hr⟩
      rw [or_iff_left (not_not.2 hm)]
      constructor
      · rintro ⟨-, hsame⟩
        by_contra hn
        exact refusesMmio_again dev hm _ (Nat.pos_of_ne_zero hn) hsame
      · rintro rfl
        exact ⟨rfl, .refl _⟩
    · refine iff_of_true ?_ (.inr fun hm => hmmio hm.2.1)
      exact loop_again (refuses_again dev hf hr (eq_false_of_ne_true hmmio) _) n
  · rw [hstop] at hirq ⊢
    have hasleep : ¬ ({ t.fetched dev with wfiSleep := true }.initialized = true ∧
        { t.fetched dev with wfiSleep := true }.wfiSleep = false) := fun h => Bool.noConfusion h.2
    rw [rvStep_resting dev hirq hasleep]
    refine iff_of_true ⟨rfl, .refl _⟩ (.inr fun hm => ?_)
    -- the same word cannot be refused and be WFI
    have hr := hm.2.2
    rw [State.Refuses, if_neg hs.1] at hr
    exact hs.2.2.2.1 hr

/-! ## The split -/

/-- Where the single call ends like the first one of two, the second one must do nothing. -/
theorem splitInvisible_iff_of_eq {m n : ℕ} (h : rvStep dev (m + n) s = rvStep dev m s) :
    SplitInvisible dev m n s ↔
      (rvStep dev n (rvStep dev m s).2).1 = 0 ∧
        SameButLog (rvStep dev m s).2 (rvStep dev n (rvStep dev m s).2).2 := by
  constructor
  · rintro ⟨hcounts, hstate⟩
    rw [h] at hcounts hstate
    exact ⟨Nat.add_eq_left.1 hcounts, hstate⟩
  · rintro ⟨hcounts, hstate⟩
    refine ⟨?_, ?_⟩
    · rw [h, hcounts, Nat.add_zero]
    · rw [h]
      exact hstate

theorem State.RefusesMmio.breaks {u : State δ} (h : u.RefusesMmio dev) (profiled : Bool) :
    (iteration dev profiled u).1 = false :=
  congrArg Prod.fst (iteration_refuses dev profiled h.1 h.2.2)

theorem Running.split_iff (h : Running s s) (hd : dev.Silent) (m n : ℕ) :
    SplitInvisible dev m n s ↔ n = 0 ∨ ∀ u, Iterates dev m s u → ¬ u.RefusesMmio dev := by
  have hsingle : rvStep dev (m + n) s =
      BreakLoop.loop (iteration dev s.profiler.profilingEnabled) (m + n) s := by
    exact_mod_cast h.rvStep_eq dev (m + n)
  rcases @BreakLoop.loop_add _ (iteration dev s.profiler.profilingEnabled) m n s with
    ⟨hall, hcount, hadd⟩ | ⟨t, ht, hbreak, hend, hadd⟩
  · have hrun := (BreakLoop.loop_invariant_visits (I := Running s) h
      fun t ht hI => hI.next dev hd _ (hall t ht)).2
    refine iff_of_true ⟨?_, ?_⟩ (.inr fun u hu hm => ?_)
    · rw [h.rvStep_eq dev m, hsingle, hrun.rvStep_eq, hadd, hcount]
    · rw [h.rvStep_eq dev m, hsingle, hrun.rvStep_eq, hadd]
      exact .refl _
    · exact Bool.false_ne_true ((hm.breaks dev _).symm.trans (hall u hu.2))
  · have hrun : Running s t := BreakLoop.visits_invariant (I := Running s)
      (fun u hu hgoes => hu.next dev hd _ hgoes) h ht
    have hsame : rvStep dev (m + n) s = rvStep dev m s := by
      rw [hsingle, h.rvStep_eq dev m, hadd]
    have hstart : Iterates dev m s t := by
      refine ⟨⟨h.initialized, ?_, h.awake, not_interrupted h.irqMask⟩, ht⟩
      cases ht <;> exact Int.natCast_pos.2 (Nat.succ_pos _)
    rw [splitInvisible_iff_of_eq dev hsame, h.rvStep_eq dev m, hend, hrun.again_iff dev hd hbreak]
    refine or_congr_right ⟨fun hnone u hu hm => ?_, fun hnone => hnone t hstart⟩
    rw [BreakLoop.visits_false_unique hu.2 ht (hm.breaks dev _) hbreak] at hm
    exact hnone hm

/-- With interrupts off, a split batch shows exactly when the first call stops at an
instruction fetched from the MMIO window and the second one fetches it again. -/
theorem splitInvisible_iff (hd : dev.Silent) (hirq : s.irqMask = 0) (m n : ℕ) :
    SplitInvisible dev m n s ↔ n = 0 ∨ ∀ u, Iterates dev m s u → ¬ u.RefusesMmio dev := by
  by_cases hawake : s.initialized = true ∧ s.wfiSleep = false
  · exact Running.split_iff dev ⟨rfl, hawake.1, hirq, hawake.2⟩ hd m n
  · refine iff_of_true ⟨?_, ?_⟩ (.inr fun u hu => absurd ⟨hu.1.1, hu.1.2.2.1⟩ hawake)
    · rw [rvStep_resting dev hirq hawake, rvStep_resting dev hirq hawake,
        rvStep_resting dev hirq hawake]
      rfl
    · rw [rvStep_resting dev hirq hawake, rvStep_resting dev hirq hawake,
        rvStep_resting dev hirq hawake]
      exact .refl s

/-- `addi x0, x0, 0`, and then the next word of RAM. -/
theorem splitInvisible_nop : SplitInvisible herveStubs 1 1 (State.holding 0x00000013#32) := by
  refine (splitInvisible_iff herveStubs herveStubs_silent rfl 1 1).2 (.inr fun u hu hm => ?_)
  have hu : u = State.holding 0x00000013#32 := by
    cases hu.2 with
    | here => rfl
    | next _ h => cases h
  rw [hu] at hm
  exact absurd hm.2.1 (by decide)

/-- A device whose registers all read as ECALL. -/
def ecallDevice : Device Unit where
  read _ _ := (0x00000073#32, (), none)
  write _ _ _ := ((), none)

/-- RAM that covers the start of the MMIO window, where the pc is. -/
def State.inWindow : State Unit :=
  { State.start () with memorySize := 0x10000010#32, initialized := true, pc := mmioBase }

theorem not_splitInvisible_ecall : ecallDevice.Silent ∧ State.inWindow.irqMask = 0 ∧
    ¬ SplitInvisible ecallDevice 1 1 State.inWindow := by
  refine ⟨⟨fun _ _ => rfl, fun _ _ _ => rfl⟩, rfl, fun h => ?_⟩
  exact absurd h.state.2 (by decide)

end Herve
