import Herve.Guest.Program

/-! The calls of a harness as the guest sees them: an interrupt raised, a call that finds the
guest asleep, one that takes an interrupt, and one that runs the program up to its next WFI. -/

namespace Herve
open RiscV Paths

variable {δ : Type} (dev : Device δ)

namespace Guest

def Interrupted (g : Guest δ) : Prop :=
  g.irqMask &&& g.csrMie ≠ 0 ∧ g.csrMstatus &&& 0x8#32 ≠ 0
  deriving Decidable

/-- Awake in the handler of the lowest interrupt that is pending and enabled. -/
def dispatch (g : Guest δ) : Guest δ :=
  let cause := ctz32 (g.irqMask &&& g.csrMie)
  { g with
    csrMcause := BitVec.ofNat 32 cause
    csrMepc := g.pc
    irqMask := g.irqMask &&& ~~~(1#32 <<< cause)
    csrMstatus := g.csrMstatus &&& ~~~0x8#32
    pc := handlerAddress g.csrMtvec cause
    wfiSleep := false }

/-- At a WFI that puts the hart to sleep. -/
def Waits (program : List Word) (g : Guest δ) : Prop :=
  g.At program 0x10500073#32 ∧ ¬ (g.csrMstatus &&& 0x8#32 ≠ 0 ∧ g.irqMask ≠ 0)

/-- At an EBREAK, which stops every call. -/
def Halts (program : List Word) (g : Guest δ) : Prop := g.At program 0x00100073#32

end Guest

/-- The emulator runs the program for the guest. -/
structure State.Hosts (s : State δ) (program : List Word) (g : Guest δ) : Prop where
  guest : s.guest = g
  program : s.RunsProgram program

namespace State.Hosts
variable {s : State δ} {program : List Word} {g g' : Guest δ}

theorem interrupted_iff (h : s.Hosts program g) : s.Interrupted ↔ g.Interrupted := by
  rw [← h.guest]
  exact and_congr Iff.rfl decide_eq_true_iff

theorem rvSetIrq (h : s.Hosts program g) (mask : Word) :
    (rvSetIrq mask s).Hosts program { g with irqMask := mask } :=
  ⟨congrArg (fun g : Guest δ => { g with irqMask := mask }) h.guest, h.program.congr rfl⟩

theorem rvStep_asleep (h : s.Hosts program g) (hsleep : g.wfiSleep = true)
    (hint : ¬ g.Interrupted) (n : ℤ) : rvStep dev n s = (0, s) := by
  rw [← h.interrupted_iff] at hint
  have hasleep : s.wfiSleep = true := (congrArg Guest.wfiSleep h.guest).trans hsleep
  refine rvStep_idle dev (fun hd => hint hd.2.2) fun hr => ?_
  exact Bool.false_ne_true (hr.2.2.1.symm.trans hasleep)

theorem rvStep_interrupted (h : s.Hosts program g) (hint : g.Interrupted) {n : ℤ} (hn : 0 < n) :
    (rvStep dev n s).1 = 1 ∧ (rvStep dev n s).2.Hosts program g.dispatch := by
  rw [rvStep_dispatch dev ⟨h.program.initialized, hn, h.interrupted_iff.2 hint⟩]
  exact ⟨rfl, congrArg Guest.dispatch h.guest, h.program.congr rfl⟩

theorem iteration_step (h : s.Hosts program g) (hstep : g.Step dev program g')
    (profiled : Bool) :
    (iteration dev profiled s).1 = true ∧ (iteration dev profiled s).2.Hosts program g' := by
  obtain ⟨rfl, hprogram⟩ := h
  obtain ⟨hok, hguest, hkeeps⟩ := hstep.iteration hprogram profiled
  exact ⟨hok, hguest, hkeeps⟩

theorem iteration_waits (h : s.Hosts program g) (hwaits : g.Waits program) (profiled : Bool) :
    (iteration dev profiled s).1 = false ∧
      (iteration dev profiled s).2.Hosts program { g with wfiSleep := true } := by
  obtain ⟨rfl, hprogram⟩ := h
  obtain ⟨hat, hidle⟩ := hwaits
  obtain ⟨hf, hinsn, e, hfetched⟩ := hprogram.fetch dev hat
  have hsleep : ¬ ((s.log e).csrMstatus &&& 0x8#32 ≠ 0 ∧ (s.log e).irqMask ≠ 0) := hidle
  have hrun : iteration dev profiled s = (false, { s.log e with wfiSleep := true }) := by
    rw [iteration_base dev profiled hf (hinsn ▸ by decide), hinsn, hfetched, stepBase]
    have hexec : executeInstruction dev 0x10500073#32 (s.log e) =
        (false, { s.log e with wfiSleep := true }) := if_neg hsleep
    rw [hexec]
    rfl
  rw [hrun]
  exact ⟨rfl, rfl, hprogram.congr rfl⟩

theorem iteration_halts (h : s.Hosts program g) (hhalts : g.Halts program) (profiled : Bool) :
    (iteration dev profiled s).1 = false ∧ (iteration dev profiled s).2.Hosts program g := by
  obtain ⟨rfl, hprogram⟩ := h
  obtain ⟨hf, hinsn, e, hfetched⟩ := hprogram.fetch dev hhalts
  have hrun : iteration dev profiled s = (false, s.log e) := by
    rw [iteration_base dev profiled hf (hinsn ▸ by decide), hinsn, hfetched]
    rfl
  rw [hrun]
  exact ⟨rfl, rfl, hprogram.congr rfl⟩

/-- A call whose instructions run out on the way. -/
theorem rvStep_path (h : s.Hosts program g) (hawake : g.wfiSleep = false)
    (hint : ¬ g.Interrupted) {n : ℕ} (hpath : Path (Guest.Step dev program) n g g') :
    (rvStep dev n s).1 = n ∧ (rvStep dev n s).2.Hosts program g' := by
  have hasleep : s.wfiSleep = false := (congrArg Guest.wfiSleep h.guest).trans hawake
  rw [← h.interrupted_iff] at hint
  obtain ⟨t, ht, hloop⟩ := loop_path (R := fun g s => State.Hosts s program g)
    (fun _ _ _ hs hstep => hs.iteration_step dev hstep s.profiler.profilingEnabled) hpath h 0
  rw [rvStep_loop dev _ h.program.initialized hasleep hint, ← Nat.add_zero n, hloop]
  exact ⟨rfl, ht⟩

/-- A call with instructions to spare runs an awake guest up to the instruction that stops it. -/
theorem rvStep_until {g'' : Guest δ} (h : s.Hosts program g) (hawake : g.wfiSleep = false)
    (hint : ¬ g.Interrupted) {n : ℕ} (hpath : Path (Guest.Step dev program) n g g')
    (hstop : ∀ (t : State δ) (profiled : Bool), t.Hosts program g' →
      (iteration dev profiled t).1 = false ∧ (iteration dev profiled t).2.Hosts program g'')
    {m : ℕ} (hm : n < m) :
    (rvStep dev m s).1 = n ∧ (rvStep dev m s).2.Hosts program g'' := by
  have hasleep : s.wfiSleep = false := (congrArg Guest.wfiSleep h.guest).trans hawake
  rw [← h.interrupted_iff] at hint
  obtain ⟨k, rfl⟩ := Nat.exists_eq_add_of_lt hm
  obtain ⟨t, ht, hloop⟩ := loop_path (R := fun g s => State.Hosts s program g)
    (fun _ _ _ hs hstep => hs.iteration_step dev hstep s.profiler.profilingEnabled) hpath h (k + 1)
  obtain ⟨hfalse, hkeep⟩ := hstop t s.profiler.profilingEnabled ht
  rw [rvStep_loop dev _ h.program.initialized hasleep hint, Nat.add_assoc, hloop,
    BreakLoop.loop_succ_false hfalse]
  exact ⟨rfl, hkeep⟩

theorem rvStep_until_wfi (h : s.Hosts program g) (hawake : g.wfiSleep = false)
    (hint : ¬ g.Interrupted) {n : ℕ} (hpath : Path (Guest.Step dev program) n g g')
    (hwaits : g'.Waits program) {m : ℕ} (hm : n < m) :
    (rvStep dev m s).1 = n ∧
      (rvStep dev m s).2.Hosts program { g' with wfiSleep := true } :=
  h.rvStep_until dev hawake hint hpath
    (fun _ profiled ht => ht.iteration_waits dev hwaits profiled) hm

theorem rvStep_until_ebreak (h : s.Hosts program g) (hawake : g.wfiSleep = false)
    (hint : ¬ g.Interrupted) {n : ℕ} (hpath : Path (Guest.Step dev program) n g g')
    (hhalts : g'.Halts program) {m : ℕ} (hm : n ≤ m) :
    (rvStep dev m s).1 = n ∧ (rvStep dev m s).2.Hosts program g' := by
  rcases hm.eq_or_lt with rfl | hlt
  · exact h.rvStep_path dev hawake hint hpath
  · exact h.rvStep_until dev hawake hint hpath
      (fun _ profiled ht => ht.iteration_halts dev hhalts profiled) hlt

end State.Hosts
end Herve
