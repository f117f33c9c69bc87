import Herve.Run.Accounting
import Herve.Run.Batch

/-! Calling again with interrupts off and a device whose reads change nothing: a call goes on where
the one before it ran out of instructions, and after one that stopped it does nothing. -/

namespace Herve
open RiscV

variable {δ : Type} {dev : Device δ}

/-- Reads leave the device alone, and no access passes an interrupt. -/
structure Device.Passive (dev : Device δ) : Prop where
  silent : dev.Silent
  read : ∀ d addr, (dev.read d addr).2.1 = d

variable {s : State δ}

/-- A read depends on nothing that it changes. -/
theorem Bus.readU32_passive (hd : dev.Passive) (b : Bus δ) (addr : Word) :
    ∃ v es, ∀ trace,
      Bus.readU32 dev { b with trace := trace } addr = (v, { b with trace := trace ++ es }) := by
  cases hmmio : isMmioAddress addr with
  | false =>
    obtain ⟨v, es, -, hread⟩ := b.readU32_plain dev hmmio
    exact ⟨v, es, hread⟩
  | true =>
    refine ⟨(dev.read b.device addr).1, [.mmioRead addr (dev.read b.device addr).1],
      fun trace => ?_⟩
    rw [Bus.readU32, isHtifAddress_of_mmio hmmio, hmmio]
    dsimp only [Bus.dpiMmioRead, Bus.log]
    rw [hd.read, hd.silent.1]
    rfl

theorem refuses_passive (hd : dev.Passive) (hf : s.CanFetch) (hr : s.Refuses dev)
    (profiled : Bool) :
    ∃ trace, iteration dev profiled (s.fetched dev) =
      (false, { s.fetched dev with trace := trace }) := by
  obtain ⟨v, es, hread⟩ := s.readU32_passive hd s.pc
  have hfirst : s.readU32 dev s.pc = (v, { s.toBus with trace := s.trace ++ es }) := hread s.trace
  have hfetched : s.fetched dev = { s with trace := s.trace ++ es } := by
    rw [State.fetched, hfirst]
  have hinsn : State.fetchedInsn dev { s with trace := s.trace ++ es } = s.fetchedInsn dev := by
    have hvalue := congrArg Prod.fst (hread (s.trace ++ es))
    rw [State.fetchedInsn, State.fetchedInsn, hfirst]
    exact hvalue
  have hagain : State.fetched dev { s with trace := s.trace ++ es } =
      { s with trace := s.trace ++ es ++ es } := by
    have hbus := congrArg Prod.snd (hread (s.trace ++ es))
    exact congrArg (fun b : Bus δ => { s with toBus := b }) hbus
  have hr' : State.Refuses dev { s with trace := s.trace ++ es } := by
    unfold State.Refuses State.compressedArm
    rw [hinsn]
    exact hr
  rw [hfetched]
  refine ⟨s.trace ++ es ++ es, ?_⟩
  rw [iteration_refuses dev profiled (s := { s with trace := s.trace ++ es }) hf hr', hagain]

/-- The call does nothing but fetch again. -/
def State.RestsUnder (dev : Device δ) (n : ℕ) (s : State δ) : Prop :=
  ∃ trace, rvStep dev n s = (0, { s with trace := trace })

theorem restsUnder_of_iteration {t : State δ} (ht : Running s t)
    (h : ∃ trace, iteration dev s.profiler.profilingEnabled t = (false, { t with trace := trace }))
    (n : ℕ) : t.RestsUnder dev n := by
  obtain ⟨trace, hbody⟩ := h
  rw [State.RestsUnder, ht.rvStep_eq]
  cases n with
  | zero => exact ⟨t.trace, rfl⟩
  | succ n =>
    rw [BreakLoop.loop_succ_false (congrArg Prod.fst hbody), hbody]
    exact ⟨trace, rfl⟩

theorem Running.rests {t : State δ} (h : Running s t) (hd : dev.Passive)
    (hbreak : (iteration dev s.profiler.profilingEnabled t).1 = false) (n : ℕ) :
    (iteration dev s.profiler.profilingEnabled t).2.RestsUnder dev n := by
  have hmode := (iteration_mode dev s.profiler.profilingEnabled t).trans h.mode
  have hirq : (iteration dev s.profiler.profilingEnabled t).2.irqMask = 0 :=
    ((iteration_step dev s.profiler.profilingEnabled).irqMask hd.silent).trans h.irqMask
  rcases iteration_stops dev hbreak with ⟨hf, hstop⟩ | ⟨hf, hr, hstop⟩ | ⟨-, -, hstop⟩
  · rw [hstop]
    exact restsUnder_of_iteration h ⟨t.trace, iteration_stop dev _ hf⟩ n
  · rw [hstop] at hmode hirq ⊢
    exact restsUnder_of_iteration ⟨hmode, h.initialized, hirq, h.awake⟩
      (refuses_passive hd hf hr _) n
  · rw [hstop] at hirq ⊢
    exact ⟨_, rvStep_resting dev hirq (fun hawake => Bool.noConfusion hawake.2) n⟩

/-- A further call goes on, or the one before it was the last to do anything. -/
theorem rvStep_resumes (hd : dev.Passive) (hirq : s.irqMask = 0) (m : ℕ) :
    ((rvStep dev m s).1 = m ∧ ∀ n : ℕ, rvStep dev (m + n : ℕ) s =
        (m + (rvStep dev n (rvStep dev m s).2).1, (rvStep dev n (rvStep dev m s).2).2)) ∨
      ∀ n : ℕ, rvStep dev (m + n : ℕ) s = rvStep dev m s ∧
        (rvStep dev m s).2.RestsUnder dev n := by
  by_cases hawake : s.initialized = true ∧ s.wfiSleep = false
  · have hs : Running s s := ⟨rfl, hawake.1, hirq, hawake.2⟩
    simp only [hs.rvStep_eq dev]
    by_cases hall : ∀ t, BreakLoop.Visits (iteration dev s.profiler.profilingEnabled) m s t →
        (iteration dev s.profiler.profilingEnabled t).1 = true
    · have hrun := (BreakLoop.loop_invariant_visits (I := Running s) hs
        fun t ht hI => hI.next dev hd.silent _ (hall t ht)).2
      have hadd : ∀ n, _ := fun n =>
        (@BreakLoop.loop_add _ (iteration dev s.profiler.profilingEnabled) m n s).resolve_right
          fun ⟨t, ht, hbreak, _⟩ => Bool.false_ne_true (hbreak.symm.trans (hall t ht))
      refine .inl ⟨(hadd 0).2.1, fun n => ?_⟩
      rw [hrun.rvStep_eq, (hadd n).2.2]
    · refine .inr fun n => ?_
      rcases @BreakLoop.loop_add _ (iteration dev s.profiler.profilingEnabled) m n s with
        ⟨hall', -, -⟩ | ⟨t, ht, hbreak, hend, hadd⟩
      · exact absurd hall' hall
      · have hrun : Running s t := BreakLoop.visits_invariant (I := Running s)
          (fun u hu hgoes => hu.next dev hd.silent _ hgoes) hs ht
        rw [hadd, hend]
        exact ⟨rfl, hrun.rests hd hbreak n⟩
  · refine .inr fun n => ?_
    rw [State.RestsUnder, rvStep_resting dev hirq hawake, rvStep_resting dev hirq hawake,
      rvStep_resting dev hirq hawake]
    exact ⟨rfl, s.trace, rfl⟩

theorem rvStep_irqMask (hd : dev.Passive) (hirq : s.irqMask = 0) (n : ℤ) :
    (rvStep dev n s).2.irqMask = 0 := by
  refine rvStep_invariant dev (I := fun t : State δ => t.irqMask = 0) hirq ?_ ?_
  · exact fun hdispatch => absurd hdispatch.2.2 (not_interrupted hirq)
  · exact fun t ht => ((iteration_step dev _).irqMask hd.silent).trans ht

theorem rvStep_count_le (hirq : s.irqMask = 0) (n : ℕ) : (rvStep dev n s).1 ≤ n := by
  have hbound := (rvStep_retires dev (n := n) fun hd => not_interrupted hirq hd.2.2).2
  omega

end Herve
