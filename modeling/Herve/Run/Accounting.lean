import Herve.Run.Fetch

/-! What `rv_step` returns, what retired and what `mcycle` counts. The three agree in the loops; a
call that dispatches an interrupt returns 1 without executing anything. -/

namespace Herve
open RiscV

variable {δ : Type} (dev : Device δ)

def Event.IsRetire : Event → Bool
  | .retire _ _ => true
  | _ => false

/-- The number of instructions that retired between two states of one run. -/
def retired (s t : Bus δ) : ℕ := (newEvents s t).countP Event.IsRetire

/-- The count that a call returns is within its bound, and it is what retired and what `mcycle`
has gone up by. -/
structure Accounted (n : ℤ) (s : State δ) : Prop where
  returns : (rvStep dev n s).1 = retired s.toBus (rvStep dev n s).2.toBus
  bound : ((rvStep dev n s).1 : ℤ) ≤ max n 0
  mcycle : (rvStep dev n s).2.csrMcycle = s.csrMcycle + BitVec.ofNat 64 (rvStep dev n s).1

/-! ## One iteration -/

/-- From `s` to `t`, `k` instructions retired and `mcycle` went up by `k`. -/
def Retires (k : ℕ) (s t : State δ) : Prop :=
  (∃ es, t.trace = s.trace ++ es ∧ es.countP Event.IsRetire = k) ∧
    t.csrMcycle = s.csrMcycle + BitVec.ofNat 64 k

theorem Retires.refl (s : State δ) : Retires 0 s s :=
  ⟨⟨[], (List.append_nil _).symm, rfl⟩, (BitVec.add_zero _).symm⟩

theorem Retires.trans (k l : ℕ) (s t u : State δ) (h : Retires k s t) (h' : Retires l t u) :
    Retires (k + l) s u := by
  obtain ⟨⟨es, htrace, rfl⟩, hcycle⟩ := h
  obtain ⟨⟨fs, htrace', rfl⟩, hcycle'⟩ := h'
  refine ⟨⟨es ++ fs, ?_, List.countP_append⟩, ?_⟩
  · rw [htrace', htrace, List.append_assoc]
  · rw [hcycle', hcycle, BitVec.ofNat_add, BitVec.add_assoc]

theorem countP_of_isBus {es : List Event} (h : ∀ e ∈ es, e.IsBus) :
    es.countP Event.IsRetire = 0 := by
  refine List.countP_eq_zero.2 fun e he hretire => ?_
  have hbus := h e he
  cases e <;> first | exact hbus | exact Bool.false_ne_true hretire

theorem executeInstruction_mcycle (insn : Word) (s : State δ) :
    (executeInstruction dev insn s).2.csrMcycle = s.csrMcycle := by
  rw [executeInstruction]
  split_ifs with hsys
  · have hcsr : (executeCsr insn s).csrMcycle = s.csrMcycle := (csrWrite_frame s _ _).2
    exact executeSystem_keeps State.csrMcycle (fun _ _ _ => rfl) rfl rfl hcsr
  · obtain ⟨p, hp⟩ := executeCore_arm dev insn s
    rw [hp]

theorem step_mcycle (p : Parcel) (profiled : Bool) (s : State δ) :
    (p.step dev profiled s).2.csrMcycle =
      s.csrMcycle + BitVec.ofNat 64 (if (p.step dev profiled s).1 then 1 else 0) := by
  cases p with
  | compressed cInsn =>
    rw [Parcel.step, stepCompressed]
    cases hok : (executeCompressed dev cInsn s.toCore).1
    · simp only [hok]
      exact (BitVec.add_zero _).symm
    · simp only [hok]
      rfl
  | base insn =>
    have hkeep := executeInstruction_mcycle dev insn s
    rw [Parcel.step, stepBase]
    cases hok : (executeInstruction dev insn s).1
    · simp only [hok]
      exact hkeep.trans (BitVec.add_zero _).symm
    · simp only [hok]
      exact congrArg (· + 1) hkeep

theorem step_retires (p : Parcel) (profiled : Bool) (s : State δ) :
    Retires (if (p.step dev profiled s).1 then 1 else 0) s (p.step dev profiled s).2 := by
  refine ⟨?_, step_mcycle dev p profiled s⟩
  rcases p.step_logs dev profiled s with ⟨hok, htrace⟩ | ⟨hok, es, mie, hbus, htrace⟩
  · rw [hok, htrace]
    exact ⟨[], (List.append_nil _).symm, rfl⟩
  · rw [hok, htrace]
    refine ⟨es ++ [.retire p.word mie], List.append_assoc _ _ _, ?_⟩
    rw [List.countP_append, countP_of_isBus hbus]
    rfl

theorem fetched_retires (s : State δ) : Retires 0 s (s.fetched dev) := by
  have hread : Access dev s.toBus (s.fetched dev).toBus s.pc 4 := Access.readU32 _ _
  obtain ⟨es, htrace, hbus⟩ := hread.isBus.trace
  exact ⟨⟨es, htrace, countP_of_isBus hbus⟩, (BitVec.add_zero _).symm⟩

theorem iteration_counts (profiled : Bool) (s : State δ) :
    Retires (if (iteration dev profiled s).1 then 1 else 0) s (iteration dev profiled s).2 := by
  by_cases hf : s.CanFetch
  · have hstep := step_retires dev (parcelOf (s.fetchedInsn dev)) profiled (s.fetched dev)
    have hboth := (fetched_retires dev s).trans _ _ _ _ _ hstep
    rw [Nat.zero_add] at hboth
    rw [iteration_parcel dev profiled hf]
    exact hboth
  · rw [iteration_stop dev profiled hf]
    exact .refl s

/-! ## One call -/

theorem newEvents_retires {k : ℕ} {s t : State δ} (h : Retires k s t) :
    retired s.toBus t.toBus = k := by
  obtain ⟨⟨es, htrace, hcount⟩, _⟩ := h
  rw [retired, newEvents_of_append htrace, hcount]

theorem rvStep_retires {n : ℤ} {s : State δ} (hd : ¬ s.Dispatches n) :
    Retires (rvStep dev n s).1 s (rvStep dev n s).2 ∧ ((rvStep dev n s).1 : ℤ) ≤ max n 0 := by
  by_cases hr : s.Runs n
  · have hloop := BreakLoop.loop_measured (C := Retires) .refl
      (iteration_counts dev s.profiler.profilingEnabled) Retires.trans n.toNat s
    rw [← rvStep_run dev hr] at hloop
    obtain ⟨hretires, hle⟩ := hloop
    exact ⟨hretires, by omega⟩
  · rw [rvStep_idle dev hd hr]
    exact ⟨.refl s, le_max_right _ _⟩

/-- Exactly the calls that dispatch no interrupt are accounted for. -/
theorem accounted_iff (n : ℤ) (s : State δ) : Accounted dev n s ↔ ¬ s.Dispatches n := by
  by_cases hd : s.Dispatches n
  -- the dispatch is one log entry, and not a retirement
  · refine iff_of_false (fun h => ?_) (not_not_intro hd)
    have hreturns := h.returns
    rw [rvStep_dispatch dev hd, retired, newEvents_of_append rfl] at hreturns
    exact one_ne_zero hreturns
  · obtain ⟨hretires, hbound⟩ := rvStep_retires dev hd
    exact iff_of_true ⟨(newEvents_retires hretires).symm, hbound, hretires.2⟩ hd

/-- A pending timer interrupt: the call returns 1, with nothing retired and `mcycle` as it was. -/
theorem dispatch_not_accounted :
    let s := rvSetIrq 0x80 { State.booted [0x13] with csrMstatus := 8 }
    (rvStep herveStubs 10 s).1 = 1 ∧
      retired s.toBus (rvStep herveStubs 10 s).2.toBus = 0 ∧
      (rvStep herveStubs 10 s).2.csrMcycle = s.csrMcycle ∧ ¬ Accounted herveStubs 10 s :=
  ⟨by decide, by decide, by decide, fun h => absurd h.returns (by decide)⟩

end Herve
