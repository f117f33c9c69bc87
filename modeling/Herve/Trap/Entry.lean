import Herve.Run.Iteration

/-! Interrupt entry and return. The emulator keeps the one bit `MIE` of the trap stack:
entry clears it, MRET sets it, and `mcause` is the bare number of the interrupt. -/

namespace Herve
open RiscV AppendLog

variable {δ : Type} (dev : Device δ)

/-- Entry to the handler of interrupt `c`, as the emulator has it. -/
structure TrapEntry (c : ℕ) (s t : State δ) : Prop where
  mepc : t.csrMepc = s.pc
  mcause : t.csrMcause = BitVec.ofNat 32 c
  mstatus : t.csrMstatus = s.csrMstatus &&& ~~~0x8#32
  pc : t.pc = if s.csrMtvec &&& 0x3#32 = 0 then s.csrMtvec &&& ~~~0x3#32
    else (s.csrMtvec &&& ~~~0x3#32) + 4 * BitVec.ofNat 32 c

structure TrapReturn (s t : State δ) : Prop where
  pc : t.pc = s.csrMepc
  mstatus : t.csrMstatus = s.csrMstatus ||| 0x8#32

/-- Entry by the privileged architecture: bit 31 of `mcause` is set, and `MPIE`, bit 7 of
`mstatus`, keeps the old `MIE`. -/
structure MachineEntry (c : ℕ) (s t : State δ) : Prop where
  mepc : t.csrMepc = s.pc
  mcause : t.csrMcause = 0x80000000#32 + BitVec.ofNat 32 c
  mpie : t.csrMstatus.getLsbD 7 = s.csrMstatus.getLsbD 3
  mie : t.csrMstatus.getLsbD 3 = false
  pc : t.pc = if s.csrMtvec &&& 0x3#32 = 0 then s.csrMtvec &&& ~~~0x3#32
    else (s.csrMtvec &&& ~~~0x3#32) + 4 * BitVec.ofNat 32 c

structure MachineReturn (s t : State δ) : Prop where
  pc : t.pc = s.csrMepc
  mie : t.csrMstatus.getLsbD 3 = s.csrMstatus.getLsbD 7
  mpie : t.csrMstatus.getLsbD 7 = true

theorem rvStep_dispatch_of_mem {n : ℤ} {s : State δ} {c : ℕ}
    (h : .dispatch c ∈ newEvents s.toBus (rvStep dev n s).2.toBus) :
    s.Dispatches n ∧ c = ctz32 s.pending ∧
      newEvents s.toBus (rvStep dev n s).2.toBus = [.dispatch c] := by
  by_cases hd : s.Dispatches n
  · rw [rvStep_dispatch dev hd, newEvents_of_append rfl] at h ⊢
    have hc : c = ctz32 s.pending := by
      rw [List.mem_singleton, Event.dispatch.injEq] at h
      exact h
    exact ⟨hd, hc, by rw [hc]; rfl⟩
  by_cases hr : s.Runs n
  · rw [rvStep_run dev hr] at h
    have hstep := loop_step dev s.profiler.profilingEnabled (s := s) n.toNat
    exact (hstep.trace.iff_forall_drop.1 hstep.trace _ h).elim
  · rw [rvStep_idle dev hd hr, newEvents_of_append (List.append_nil _).symm] at h
    exact nomatch h

theorem trap_entry {n : ℤ} {s : State δ} {c : ℕ}
    (h : .dispatch c ∈ newEvents s.toBus (rvStep dev n s).2.toBus) :
    TrapEntry c s (rvStep dev n s).2 := by
  obtain ⟨hd, rfl, _⟩ := rvStep_dispatch_of_mem dev h
  rw [rvStep_dispatch dev hd]
  refine ⟨rfl, rfl, rfl, ?_⟩
  show handlerAddress s.csrMtvec (ctz32 s.pending) = _
  unfold handlerAddress
  by_cases h0 : s.csrMtvec &&& 0x3#32 = 0
  · rw [if_neg (not_not_intro h0), if_pos h0]
  · rw [if_pos h0, if_neg h0, BitVec.mul_comm]

theorem trap_return (s : State δ) :
    TrapReturn s (executeInstruction dev 0x30200073#32 s).2 := ⟨rfl, rfl⟩

theorem trap_entry_return :
    (∀ (n : ℤ) (s : State δ) (c : ℕ),
      .dispatch c ∈ newEvents s.toBus (rvStep dev n s).2.toBus →
        TrapEntry c s (rvStep dev n s).2) ∧
    ∀ s : State δ, (executeInstruction dev 0x30200073#32 s).1 = true ∧
      TrapReturn s (executeInstruction dev 0x30200073#32 s).2 :=
  ⟨fun _ _ _ => trap_entry dev, fun s => ⟨rfl, trap_return dev s⟩⟩

def State.timerPending : State Unit :=
  { State.holding 0x13 with
    irqMask := 0x80#32, csrMstatus := 0x8#32, csrMtvec := 0x80000004#32 }

theorem trap_entry_return_timer : TrapEntry 7 State.timerPending
    (rvStep herveStubs 1 State.timerPending).2 :=
  (trap_entry_return herveStubs).1 1 State.timerPending 7 (by decide)

/-- The timer interrupt is dispatched without the interrupt bit and without `MPIE`; MRET
sets `MIE` where `MPIE` is clear. -/
theorem not_machine_trap :
    .dispatch 7 ∈ newEvents State.timerPending.toBus
        (rvStep herveStubs 1 State.timerPending).2.toBus ∧
      ¬ MachineEntry 7 State.timerPending (rvStep herveStubs 1 State.timerPending).2 ∧
      ¬ MachineReturn State.timerPending
        (executeInstruction herveStubs 0x30200073#32 State.timerPending).2 := by
  refine ⟨by decide, fun h => ?_, fun h => ?_⟩
  · exact absurd h.mcause (by decide)
  · exact absurd h.mie (by decide)

end Herve
