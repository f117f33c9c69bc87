import Herve.Run.Congruence
import Herve.Run.Iteration

/-! The profiler only watches. Two states that differ in the symbol table, the profiler and
what a congruence hides of the bus stay so under every call, whichever loop each runs. -/

namespace Herve
open RiscV

variable {δ : Type} {dev : Device δ}

/-- A congruence that shows the interrupt mask, which the SYSTEM instructions read. -/
structure Bus.Indistinct (dev : Device δ) (R : Bus δ → Bus δ → Prop) : Prop extends
    Bus.Congruence dev R where
  irqMask {b b' : Bus δ} : R b b' → b'.irqMask = b.irqMask
  setIrqMask {b b' : Bus δ} (mask : Word) : R b b' →
    R { b with irqMask := mask } { b' with irqMask := mask }

/-- The same state with symbol table `y`, another profiler and a bus related by `R`. -/
inductive State.Twin (R : Bus δ → Bus δ → Prop) (y : List Symbol) (s : State δ) : State δ → Prop
  | mk (p : Profiler) {b : Bus δ} : R s.toBus b →
      Twin R y s { s with toBus := b, symbols := y, profiler := p }

namespace State.Twin
variable {R : Bus δ → Bus δ → Prop} {y : List Symbol} {s t : State δ}

theorem symbols (h : s.Twin R y t) : t.symbols = y := by
  cases h
  rfl

theorem recordInsn (h : s.Twin R y t) (type : InsnType) (pc insn : Word) :
    (s.recordInsn type pc insn).Twin R y (t.recordInsn type pc insn) := by
  obtain ⟨p, hb⟩ := h
  obtain ⟨q, hq⟩ := recordInsn_profiler s type pc insn
  obtain ⟨q', hq'⟩ :=
    recordInsn_profiler { s with toBus := _, symbols := y, profiler := p } type pc insn
  rw [hq, hq']
  exact .mk q' hb

theorem retire (h : s.Twin R y t) (type : InsnType) (nextPc insn : Word) :
    (t.retire type nextPc insn).1 = (s.retire type nextPc insn).1 ∧
      (s.retire type nextPc insn).2.Twin R y (t.retire type nextPc insn).2 := by
  obtain ⟨p, hb⟩ := h
  exact ⟨rfl, (Twin.mk (s := { s with pc := nextPc }) p hb).recordInsn type s.pc insn⟩

theorem csrRead (hR : Bus.Indistinct dev R) (h : s.Twin R y t) (addr : Word) :
    t.csrRead addr = s.csrRead addr := by
  obtain ⟨p, hb⟩ := h
  unfold State.csrRead
  dsimp only
  rw [hR.irqMask hb]

theorem csrWrite (h : s.Twin R y t) (addr value : Word) :
    (s.csrWrite addr value).Twin R y (t.csrWrite addr value) := by
  obtain ⟨p, hb⟩ := h
  unfold State.csrWrite
  split <;> exact .mk p hb

theorem executeCsr (hR : Bus.Indistinct dev R) (h : s.Twin R y t) (insn : Word) :
    (executeCsr insn s).Twin R y (executeCsr insn t) := by
  have hread := h.csrRead hR (csrAddr insn)
  unfold Herve.executeCsr
  dsimp only
  rw [hread]
  have hregs : t.regs = s.regs := by
    cases h
    rfl
  rw [hregs]
  have hwrite := h.csrWrite (csrAddr insn) (csrNewValue (funct3 insn) (s.csrRead (csrAddr insn))
    (if funct3 insn &&& 0x4#32 ≠ 0 then (rd insn).setWidth 32 else s.regs (rs1 insn)))
  generalize s.csrWrite _ _ = s', t.csrWrite _ _ = t' at hwrite ⊢
  obtain ⟨p, hb⟩ := hwrite
  exact .mk p hb

theorem executeSystem (hR : Bus.Indistinct dev R) (h : s.Twin R y t) (insn : Word) :
    (executeSystem insn t).1 = (executeSystem insn s).1 ∧
      (executeSystem insn s).2.Twin R y (executeSystem insn t).2 := by
  have hcsr := (h.executeCsr hR insn).retire .csr (s.pc + 4) insn
  have hretire := h.retire .sys (s.pc + 4) insn
  obtain ⟨p, hb⟩ := h
  have hirq := hR.irqMask hb
  unfold Herve.executeSystem
  dsimp only at hretire hcsr ⊢
  rw [hirq]
  split_ifs
  · exact ⟨rfl, .mk p hb⟩
  · exact ⟨rfl, .mk p hb⟩
  · exact hretire
  · exact ⟨rfl, .mk p hb⟩
  · exact hcsr

theorem executeCore (hR : Bus.Indistinct dev R) (h : s.Twin R y t) (insn : Word) :
    (executeCore dev insn t).1 = (executeCore dev insn s).1 ∧
      (executeCore dev insn s).2.Twin R y (executeCore dev insn t).2 := by
  obtain ⟨p, hb⟩ := h
  obtain ⟨hok, b', hb', hrun⟩ :=
    hR.run hb (decodeInstruction insn s.regs s.pc).2 (s.pc + 4)
  unfold Herve.executeCore
  dsimp only
  rw [hrun]
  exact ⟨hok, (Twin.mk p hb').recordInsn _ _ _⟩

theorem executeInstruction (hR : Bus.Indistinct dev R) (h : s.Twin R y t) (insn : Word) :
    (executeInstruction dev insn t).1 = (executeInstruction dev insn s).1 ∧
      (executeInstruction dev insn s).2.Twin R y (executeInstruction dev insn t).2 := by
  unfold Herve.executeInstruction
  split_ifs
  · exact h.executeSystem hR insn
  · exact h.executeCore hR insn

theorem count (hR : Bus.Indistinct dev R) (h : s.Twin R y t) (insn : Word) :
    (s.count insn).Twin R y (t.count insn) := by
  obtain ⟨p, hb⟩ := h
  exact .mk p (hR.log _ hb)

theorem stepBase (hR : Bus.Indistinct dev R) (h : s.Twin R y t) (insn : Word) :
    (stepBase dev insn t).1 = (stepBase dev insn s).1 ∧
      (stepBase dev insn s).2.Twin R y (stepBase dev insn t).2 := by
  obtain ⟨hok, hs⟩ := h.executeInstruction hR insn
  unfold Herve.stepBase
  simp only [hok]
  split_ifs
  · exact ⟨rfl, hs.count hR insn⟩
  · exact ⟨rfl, hs⟩

theorem stepCompressed (hR : Bus.Indistinct dev R) (h : s.Twin R y t) (p q : Bool)
    (cInsn : BitVec 16) :
    (stepCompressed dev q cInsn t).1 = (stepCompressed dev p cInsn s).1 ∧
      (stepCompressed dev p cInsn s).2.Twin R y (stepCompressed dev q cInsn t).2 := by
  obtain ⟨profiler, hb⟩ := h
  obtain ⟨hok, b', hb', hrun⟩ := hR.run hb (decodeCompressed cInsn s.regs s.pc) s.pc
  unfold Herve.stepCompressed executeCompressed
  dsimp only
  rw [hrun, hok]
  -- the loops differ only in what they do to the profiler
  by_cases harm : ((decodeCompressed cInsn s.regs s.pc).run dev s.pc s.toCore).1 = true
  · rw [if_pos harm, if_pos harm]
    refine ⟨rfl, ?_⟩
    unfold stepPast
    dsimp only
    by_cases hpc : ((decodeCompressed cInsn s.regs s.pc).run dev s.pc s.toCore).2.pc = s.pc
    · rw [if_pos hpc, if_pos hpc]
      exact .mk _ (hR.log _ hb')
    · rw [if_neg hpc, if_neg hpc]
      exact .mk _ (hR.log _ hb')
  · rw [if_neg harm, if_neg harm]
    exact ⟨rfl, .mk profiler hb'⟩

theorem iteration (hR : Bus.Indistinct dev R) (h : s.Twin R y t) (p q : Bool) :
    (iteration dev q t).1 = (iteration dev p s).1 ∧
      (iteration dev p s).2.Twin R y (iteration dev q t).2 := by
  obtain ⟨profiler, hb⟩ := h
  obtain ⟨hinsn, hb'⟩ := hR.readU32 hb s.pc
  have hs := Twin.mk (s := s.fetched dev) (y := y) profiler hb'
  unfold Herve.iteration
  simp only [hR.htifHalted hb, hR.validMemoryAccess hb, hinsn]
  split_ifs
  · exact ⟨rfl, .mk profiler hb⟩
  · exact ⟨rfl, .mk profiler hb⟩
  · exact hs.stepCompressed hR p q _
  · exact hs.stepBase hR _

theorem interrupted_iff (hR : Bus.Indistinct dev R) (h : s.Twin R y t) :
    t.Interrupted ↔ s.Interrupted := by
  obtain ⟨p, hb⟩ := h
  unfold State.Interrupted State.pending
  dsimp only
  rw [hR.irqMask hb]
  rfl

theorem dispatches_iff (hR : Bus.Indistinct dev R) (h : s.Twin R y t) (n : ℤ) :
    t.Dispatches n ↔ s.Dispatches n := by
  have hint := h.interrupted_iff hR
  obtain ⟨p, hb⟩ := h
  exact and_congr_right' (and_congr_right' hint)

theorem runs_iff (hR : Bus.Indistinct dev R) (h : s.Twin R y t) (n : ℤ) :
    t.Runs n ↔ s.Runs n := by
  have hint := h.interrupted_iff hR
  obtain ⟨p, hb⟩ := h
  exact and_congr_right' (and_congr_right' (and_congr_right' (not_congr hint)))

theorem dispatch (hR : Bus.Indistinct dev R) (h : s.Twin R y t) :
    s.wake.dispatch.Twin R y t.wake.dispatch := by
  obtain ⟨p, hb⟩ := h
  unfold State.dispatch State.pending
  dsimp only [State.wake]
  rw [hR.irqMask hb]
  exact .mk p (hR.log _ (hR.setIrqMask _ hb))

theorem rvStep (hR : Bus.Indistinct dev R) (h : s.Twin R y t) (n : ℤ) :
    (rvStep dev n t).1 = (rvStep dev n s).1 ∧
      (rvStep dev n s).2.Twin R y (rvStep dev n t).2 := by
  have hdispatches := h.dispatches_iff hR n
  have hruns := h.runs_iff hR n
  by_cases hd : s.Dispatches n
  · rw [rvStep_dispatch dev hd, rvStep_dispatch dev (hdispatches.2 hd)]
    exact ⟨rfl, h.dispatch hR⟩
  by_cases hr : s.Runs n
  · rw [rvStep_run dev hr, rvStep_run dev (hruns.2 hr)]
    exact BreakLoop.loop_simulation (C := fun _ => True)
      (fun u v _ huv => huv.iteration hR _ _) (fun _ _ => trivial) h
  · rw [rvStep_idle dev hd hr,
      rvStep_idle dev (mt hdispatches.1 hd) (mt hruns.1 hr)]
    exact ⟨rfl, h⟩

theorem runCalls (hR : Bus.Indistinct dev R) (h : s.Twin R y t) (calls : List Call) :
    runCounts dev calls t = runCounts dev calls s ∧
      (runCalls dev calls s).Twin R y (runCalls dev calls t) := by
  induction calls generalizing s t with
  | nil => exact ⟨rfl, h⟩
  | cons k calls ih =>
    cases k with
    | setIrq mask =>
      obtain ⟨p, hb⟩ := h
      exact ih (.mk p (hR.log _ (hR.setIrqMask mask hb)))
    | step n =>
      obtain ⟨hcount, hstep⟩ := h.rvStep hR n
      obtain ⟨hcounts, hcalls⟩ := ih hstep
      exact ⟨congrArg₂ List.cons hcount hcounts, hcalls⟩

end State.Twin

/-! ## The profiled and the fast loop -/

theorem Bus.indistinct_eq : Bus.Indistinct dev Eq where
  memory h := by rw [h]
  memorySize h := by rw [h]
  memoryBase h := by rw [h]
  htifFromhostLo h := by rw [h]
  htifFromhostHi h := by rw [h]
  htifHalted h := by rw [h]
  log _ h := by rw [h]
  memcpyTo _ _ _ h := by rw [h]
  dpiMmioRead _ h := by rw [h]; exact ⟨rfl, rfl⟩
  dpiMmioWrite _ _ h := by rw [h]
  setTohostLo _ h := by rw [h]
  setTohostHi _ h := by rw [h]
  setFromhostLo _ h := by rw [h]
  setFromhostHi _ h := by rw [h]
  exit _ h := by rw [h]
  irqMask h := by rw [h]
  setIrqMask _ h := by rw [h]

theorem rvStep_symbols (n : ℤ) (s : State δ) : (rvStep dev n s).2.symbols = s.symbols := by
  have hself : s.Twin Eq s.symbols s := .mk s.profiler rfl
  exact (hself.rvStep Bus.indistinct_eq n).2.symbols

variable (dev)

def State.withProfiler (s : State δ) (p : Profiler) : State δ := { s with profiler := p }

/-- The state of the profiler, above all whether it is enabled, decides which loop runs and
nothing else: the count, the log of the calls to the device and every other part of the state
are the same. -/
theorem rvStep_withProfiler (n : ℤ) (s : State δ) (p q : Profiler) :
    (rvStep dev n (s.withProfiler q)).1 = (rvStep dev n (s.withProfiler p)).1 ∧
      ∃ r, (rvStep dev n (s.withProfiler q)).2 =
        (rvStep dev n (s.withProfiler p)).2.withProfiler r := by
  have htwin : (s.withProfiler p).Twin Eq s.symbols (s.withProfiler q) := .mk q rfl
  obtain ⟨hcount, hstep⟩ := htwin.rvStep Bus.indistinct_eq n
  have hsymbols : (rvStep dev n (s.withProfiler p)).2.symbols = s.symbols := rvStep_symbols n _
  refine ⟨hcount, ?_⟩
  generalize (rvStep dev n (s.withProfiler p)).2 = u,
    (rvStep dev n (s.withProfiler q)).2 = v at hstep hsymbols ⊢
  obtain ⟨r, rfl⟩ := hstep
  refine ⟨r, ?_⟩
  rw [← hsymbols]
  rfl

end Herve
