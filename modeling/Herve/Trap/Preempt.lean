import Herve.Refine.Hart
import Herve.Run.Alike

/-! Preemption: an interrupt whose handler returns at once leaves the interrupted program as
if it had not been raised. -/

namespace Herve
open RiscV

variable {δ : Type} (dev : Device δ) {s : State δ}

def State.handler (s : State δ) : Word := handlerAddress s.csrMtvec (ctz32 s.pending)

def State.quiet (s : State δ) : State δ := { s with irqMask := 0 }

theorem State.quiet_alike (s : State δ) : s.quiet.Alike s :=
  .mk s.csrMepc s.csrMcause s.csrMcycle (.mk (.mk s.irqMask rfl))

theorem rvStep_uninitialized (n : ℤ) (h : s.initialized = false) : rvStep dev n s = (0, s) :=
  if_pos (.inl h)

theorem mstatus_restored (hmie : s.mie = true) :
    s.csrMstatus &&& ~~~0x8#32 ||| 0x8#32 = s.csrMstatus := by
  have hne : s.csrMstatus &&& BitVec.twoPow 32 3 ≠ 0#32 := of_decide_eq_true hmie
  have hbit : s.csrMstatus &&& BitVec.twoPow 32 3 = BitVec.twoPow 32 3 := by
    rw [BitVec.and_twoPow] at hne ⊢
    split_ifs at hne ⊢
    · rfl
    · exact absurd rfl hne
  calc s.csrMstatus &&& ~~~BitVec.twoPow 32 3 ||| BitVec.twoPow 32 3
      = s.csrMstatus &&& ~~~BitVec.twoPow 32 3 ||| s.csrMstatus &&& BitVec.twoPow 32 3 := by
        rw [hbit]
    _ = s.csrMstatus := by
        rw [← BitVec.and_or_distrib_left, BitVec.not_or_self, BitVec.and_allOnes]

theorem iteration_mret (profiled : Bool) (hhalted : s.htifHalted = false) (hmie : s.mie = true)
    (hram : s.RamAccess s.handler 4) (hmret : s.hart.load 4 s.handler = 0x30200073#32) :
    (iteration dev profiled s.dispatch).1 = true ∧
      s.quiet.Alike (iteration dev profiled s.dispatch).2 := by
  have hf : s.dispatch.CanFetch := ⟨hhalted, hram.valid (by decide)⟩
  have hram' : s.dispatch.RamAccess s.handler Load.lw.width :=
    ⟨hram.not_htif, hram.not_mmio, hram.base_le, hram.lt_size⟩
  have hread := loadData_ram dev hram'
  have hinsn : s.dispatch.fetchedInsn dev = 0x30200073#32 :=
    (congrArg Prod.fst hread).trans ((s.memcpyFrom_hart hram (by decide)).trans hmret)
  have hfetched : s.dispatch.fetched dev =
      s.dispatch.log (.host true (s.handler - s.memoryBase).toNat 4) :=
    congrArg (fun b => { s.dispatch with toBus := b }) (congrArg Prod.snd hread)
  rw [iteration_base dev profiled hf (by rw [hinsn]; decide), hinsn, hfetched]
  refine ⟨rfl, ?_⟩
  let t := s.dispatch.log (.host true (s.handler - s.memoryBase).toNat 4)
  change s.quiet.Alike (State.count { t with
    pc := s.pc, csrMstatus := s.csrMstatus &&& ~~~0x8#32 ||| 0x8#32 } 0x30200073#32)
  rw [mstatus_restored hmie]
  have hdispatch : s.quiet.toBus.Alike s.dispatch.toBus :=
    (Bus.Alike.mk s.dispatch.irqMask rfl).log_right (e := .dispatch (ctz32 s.pending)) rfl
  have hend : s.quiet.toBus.Alike (t.toBus.log (.retire 0x30200073#32 s.mie)) :=
    (hdispatch.log_right rfl).log_right rfl
  exact .mk s.pc (BitVec.ofNat 32 (ctz32 s.pending)) (s.csrMcycle + 1) (.mk hend)

/-- An interrupt taken and returned from at once, and then `n` instructions: the interrupted
program, which does not use the SYSTEM opcode, ends as if it had run undisturbed. Only the
interrupt mask, `mepc`, `mcause`, `mcycle` and log entries other than output can differ. -/
theorem preemption_transparent (n : ℕ) (hhalted : s.htifHalted = false)
    (hsleep : s.wfiSleep = false) (hmie : s.mie = true) (hpending : s.irqMask &&& s.csrMie ≠ 0)
    (hram : s.RamAccess s.handler 4) (hmret : s.hart.load 4 s.handler = 0x30200073#32)
    (hsys : ∀ t, Iterates dev n s.quiet t → opcode (t.fetchedInsn dev) ≠ 0x73#32) :
    (rvStep dev n s.quiet).2.Alike (rvStep dev (1 + n) (rvStep dev 1 s).2).2 := by
  cases hinit : s.initialized with
  | false =>
    have hinit' : s.quiet.initialized = false := hinit
    rw [rvStep_uninitialized dev n hinit', rvStep_uninitialized dev 1 hinit,
      rvStep_uninitialized dev (1 + n) hinit]
    exact s.quiet_alike
  | true =>
    have hquiet : ¬ s.quiet.Interrupted := fun h => h.1 BitVec.zero_and
    have hmasked : ¬ s.dispatch.Interrupted := fun h =>
      Bool.false_ne_true ((dispatch_mie s).symm.trans h.2)
    have hcast : 1 + (n : ℤ) = ((n + 1 : ℕ) : ℤ) := by omega
    obtain ⟨hok, hback⟩ :=
      iteration_mret dev s.profiler.profilingEnabled hhalted hmie hram hmret
    have hmain : rvStep dev n s.quiet =
        BreakLoop.loop (iteration dev s.profiler.profilingEnabled) n s.quiet :=
      rvStep_loop dev n hinit hsleep hquiet
    have hboth : rvStep dev (1 + n) (rvStep dev 1 s).2 =
        BreakLoop.loop (iteration dev s.profiler.profilingEnabled) (n + 1) s.dispatch := by
      rw [rvStep_dispatch dev ⟨hinit, one_pos, hpending, hmie⟩, hcast,
        State.wake_of_awake hsleep]
      exact rvStep_loop dev (n + 1) hinit hsleep hmasked
    rw [hmain, hboth, BreakLoop.loop_succ_true hok]
    -- after MRET both runs have the same `n` iterations before them
    refine (BreakLoop.loop_simulation (R := State.Alike)
      (fun t u ht htu => htu.iteration dev s.profiler.profilingEnabled ht) (fun t ht => ?_) hback).2
    have hn : 0 < (n : ℤ) := by
      cases n with
      | zero => cases ht
      | succ n => omega
    exact hsys t ⟨⟨hinit, hn, hsleep, hquiet⟩, ht⟩

/-- Two instructions that do nothing, then MRET, where timer interrupt 7 is sent. -/
def State.preempted : State Unit :=
  { State.holding 0x13 with
    memory := fun i => byteOf (if i < 8 then 0x13#32 else 0x30200073#32) (i % 4)
    irqMask := 0x80#32, csrMstatus := 0x8#32, csrMtvec := 0x80000008#32 }

theorem preemption_transparent_timer :
    (rvStep herveStubs 1 State.preempted.quiet).2.Alike
      (rvStep herveStubs (1 + 1) (rvStep herveStubs 1 State.preempted).2).2 := by
  refine preemption_transparent herveStubs 1 rfl rfl (by decide) (by decide)
    ⟨by decide, by decide, by decide, by decide⟩ (by decide) fun t ht => ?_
  have hvisit : BreakLoop.Visits (iteration herveStubs false) 1 State.preempted.quiet t := ht.2
  cases hvisit with
  | here => decide
  | next _ hnone => cases hnone

end Herve
