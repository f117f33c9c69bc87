import Herve.Lib.IrqController
import Herve.Trap.Entry

/-! Interrupt delivery over whole runs of calls: the emulator behind a silent device is an
interrupt controller, so interrupts do not nest and none is lost or taken twice. -/

namespace Herve
open RiscV AppendLog IrqController

variable {δ : Type} (dev : Device δ)

/-! ## The lowest set bit -/

def bits (x : Word) : Set ℕ := {i | x.getLsbD i = true}

theorem and_one_eq_zero_iff (x : Word) : x &&& 1 = 0 ↔ x.getLsbD 0 = false := by
  show x &&& 1#32 = 0#32 ↔ _
  rw [BitVec.and_one_eq_setWidth_ofBool_getLsbD]
  cases x.getLsbD 0 <;> decide

/-- The loop counts the zeros below the lowest set bit. -/
theorem ctzLoop_spec {fuel : ℕ} (n : ℕ) {x : Word} (h : ∃ i < fuel, x.getLsbD i = true) :
    ∃ j, ctzLoop fuel n x = n + j ∧ x.getLsbD j = true ∧ ∀ i < j, x.getLsbD i = false := by
  induction fuel generalizing n x with
  | zero => exact absurd h (by simp)
  | succ fuel ih =>
    obtain ⟨i, hi, hbit⟩ := h
    rw [ctzLoop]
    by_cases h0 : x &&& 1 = 0
    -- a clear bit is shifted out, so the bits that are left are one place lower
    · rw [if_pos h0]
      rw [and_one_eq_zero_iff] at h0
      have hshift : ∀ k, (x >>> 1).getLsbD k = x.getLsbD (k + 1) := by
        intro k
        rw [BitVec.getLsbD_ushiftRight, Nat.add_comm]
      have hpos : i ≠ 0 := by
        rintro rfl
        exact Bool.false_ne_true (h0.symm.trans hbit)
      obtain ⟨j, hj, hset, hbelow⟩ := ih (n + 1) (x := x >>> 1)
        ⟨i - 1, by omega, by rw [hshift, Nat.sub_add_cancel (by omega)]; exact hbit⟩
      refine ⟨j + 1, by omega, (hshift j).symm.trans hset, fun k hk => ?_⟩
      rcases k with _ | k
      · exact h0
      · exact (hshift k).symm.trans (hbelow k (by omega))
    · rw [if_neg h0]
      rw [and_one_eq_zero_iff, Bool.not_eq_false] at h0
      exact ⟨0, rfl, h0, fun k hk => absurd hk k.not_lt_zero⟩

theorem ctz32_isLeast {x : Word} (hx : x ≠ 0) : IsLeast (bits x) (ctz32 x) := by
  have hbit : ∃ i < 32, x.getLsbD i = true := by
    by_contra hnone
    refine hx (BitVec.eq_of_getLsbD_eq fun i hi => ?_)
    show x.getLsbD i = (0#32).getLsbD i
    rw [BitVec.getLsbD_zero]
    by_contra hset
    exact hnone ⟨i, hi, by simpa using hset⟩
  obtain ⟨j, hj, hset, hbelow⟩ := ctzLoop_spec 0 hbit
  rw [ctz32, if_neg hx, hj, Nat.zero_add]
  refine ⟨hset, fun i hi => ?_⟩
  by_contra hlt
  exact Bool.false_ne_true ((hbelow i (not_le.1 hlt)).symm.trans hi)

theorem getLsbD_clear (x : Word) (c i : ℕ) :
    (x &&& ~~~(1#32 <<< c)).getLsbD i = (x.getLsbD i && decide (i ≠ c)) := by
  by_cases hi : i < 32
  · have hone : (1#32 <<< c).getLsbD i = decide (i = c) := by
      rw [BitVec.getLsbD_shiftLeft, BitVec.getLsbD_one]
      by_cases hic : i = c
      · simp [hic, hic ▸ hi]
      · simp [hic]
        omega
    rw [BitVec.getLsbD_and, BitVec.getLsbD_not, hone]
    simp [hi]
  · rw [BitVec.getLsbD_of_ge _ _ (by omega), BitVec.getLsbD_of_ge _ _ (by omega), Bool.false_and]

/-! ## The emulator as an interrupt controller -/

def State.controller (s : State δ) : Controller ℕ where
  pending := bits s.irqMask
  enabled := s.mie

def Event.label : Event → Option (Label ℕ Word)
  | .setIrq mask => some (.set (bits mask))
  | .dispatch c => some (.take c)
  | .retire insn mie => some (.guest insn mie)
  | _ => none

def labels (es : List Event) : List (Label ℕ Word) := es.filterMap Event.label

theorem labels_bus {es : List Event} (h : ∀ e ∈ es, e.IsBus) : labels es = [] := by
  rw [labels, List.filterMap_eq_nil_iff]
  intro e he
  have hbus := h e he
  cases e <;> first | rfl | exact hbus.elim

/-- What is logged from `s` to `t` is a run of the controller. -/
def Refines (s t : State δ) : Prop :=
  ∃ es, t.trace = s.trace ++ es ∧ Run WritesMstatus s.controller (labels es) t.controller

theorem Refines.refl (s : State δ) : Refines s s :=
  ⟨[], (List.append_nil _).symm, .nil _⟩

theorem Refines.trans {s t u : State δ} (h : Refines s t) (h' : Refines t u) : Refines s u := by
  obtain ⟨es, hes, hrun⟩ := h
  obtain ⟨fs, hfs, hrun'⟩ := h'
  refine ⟨es ++ fs, by rw [hfs, hes, List.append_assoc], ?_⟩
  rw [labels, List.filterMap_append]
  exact hrun.append hrun'

/-- Every run recorded in the log, from the entries past the old end. -/
theorem Refines.run {s t : State δ} (h : Refines s t) :
    Run WritesMstatus s.controller (labels (newEvents s.toBus t.toBus)) t.controller := by
  obtain ⟨es, hes, hrun⟩ := h
  rwa [newEvents_of_append hes]

variable {dev}

theorem iteration_refines (hd : dev.Silent) (profiled : Bool) (s : State δ) :
    Refines s (iteration dev profiled s).2 := by
  by_cases hf : s.CanFetch
  · obtain ⟨b, htouch, hend⟩ := iteration_touches dev profiled hf
    have hfetch : Access dev s.toBus (s.fetched dev).toBus s.pc 4 := Access.readU32 _ _
    have hstep := hfetch.isBus.trans htouch.isBus
    have hirq := hstep.irqMask hd
    obtain ⟨es, hes, hbus⟩ := hstep.trace
    -- an iteration that stops is no step of the controller, one that retires is a guest step
    rcases hend with ⟨hend, hmstatus⟩ | ⟨insn, hend, hmstatus⟩
    · have hctl : (iteration dev profiled s).2.controller = s.controller := by
        unfold State.controller State.mie
        rw [hend, hirq, hmstatus]
      refine ⟨es, by rw [hend, hes], ?_⟩
      rw [labels_bus hbus, hctl]
      exact .nil _
    · have hctl : (iteration dev profiled s).2.controller =
          { s.controller with enabled := (iteration dev profiled s).2.mie } := by
        unfold State.controller
        rw [hend]
        exact congrArg (fun m => Controller.mk (bits m) _) hirq
      refine ⟨es ++ [.retire insn (iteration dev profiled s).2.mie], ?_, ?_⟩
      · rw [hend, Bus.log, hes, List.append_assoc]
      · have hlabels : labels (es ++ [.retire insn (iteration dev profiled s).2.mie]) =
            [.guest insn (iteration dev profiled s).2.mie] := by
          rw [labels, List.filterMap_append, ← labels, labels_bus hbus]
          rfl
        rw [hlabels, hctl]
        refine (Step.guest (hmstatus.imp_left fun h => ?_)).run
        show State.mie _ = s.mie
        rw [State.mie, State.mie, h]
  · rw [iteration_stop dev profiled hf]
    exact .refl s

theorem dispatch_irqMask (s : State δ) (i : ℕ) :
    s.wake.dispatch.irqMask.getLsbD i =
      (s.irqMask.getLsbD i && decide (i ≠ ctz32 s.pending)) :=
  getLsbD_clear s.irqMask (ctz32 s.pending) i

theorem pending_isLeast {s : State δ} (h : s.pending ≠ 0) :
    IsLeast (bits s.irqMask ∩ bits s.csrMie) (ctz32 s.pending) := by
  have hpending : bits s.pending = bits s.irqMask ∩ bits s.csrMie := by
    ext i
    simp [bits, State.pending]
  exact hpending ▸ ctz32_isLeast h

theorem dispatch_refines {s : State δ} (h : s.Interrupted) : Refines s s.wake.dispatch := by
  refine ⟨[.dispatch (ctz32 s.pending)], rfl, ?_⟩
  have hctl : s.wake.dispatch.controller =
      { pending := s.controller.pending \ {ctz32 s.pending}, enabled := false } := by
    refine congrArg₂ Controller.mk ?_ (dispatch_mie s.wake)
    ext i
    simp [bits, State.controller, dispatch_irqMask]
  rw [hctl]
  exact (Step.take (bits s.csrMie) h.2 (pending_isLeast h.1)).run

theorem call_refines (hd : dev.Silent) (s : State δ) (k : Call) : Refines s (call dev s k) := by
  cases k with
  | setIrq mask => exact ⟨[.setIrq mask], rfl, (Step.set _ _).run⟩
  | step n =>
    refine rvStep_invariant dev (I := fun t => Refines s t) (.refl s) ?_ ?_
    · exact fun hdis => dispatch_refines hdis.2.2
    · exact fun t ht => ht.trans (iteration_refines hd _ t)

theorem runCalls_refines (hd : dev.Silent) (calls : List Call) (s : State δ) :
    Refines s (runCalls dev calls s) := by
  induction calls generalizing s with
  | nil => exact .refl s
  | cons k calls ih => exact (call_refines hd s k).trans (ih (call dev s k))

/-! ## What the log says -/

def dispatched (es : List Event) : List ℕ :=
  es.filterMap fun e => match e with
    | .dispatch c => some c
    | _ => none

theorem taken_labels (es : List Event) : taken (labels es) = dispatched es := by
  induction es with
  | nil => rfl
  | cons e es ih =>
    cases e with
    | dispatch c => exact congrArg (c :: ·) ih
    | _ => exact ih

theorem call_dispatch {s : State δ} {k : Call} {c : ℕ}
    (h : .dispatch c ∈ newEvents s.toBus (call dev s k).toBus) :
    s.Interrupted ∧ c = ctz32 s.pending ∧ call dev s k = s.wake.dispatch := by
  cases k with
  | setIrq mask =>
    have hnew : newEvents s.toBus (call dev s (.setIrq mask)).toBus = [.setIrq mask] :=
      newEvents_of_append rfl
    rw [hnew] at h
    cases List.mem_singleton.1 h
  | step n =>
    obtain ⟨hdis, hc, _⟩ := rvStep_dispatch_of_mem dev h
    exact ⟨hdis.2.2, hc, congrArg Prod.snd (rvStep_dispatch dev hdis)⟩

def Event.IsStep : Event → Prop
  | .setIrq _ => False
  | _ => True

variable (dev)

theorem rvStep_extends (n : ℤ) (s : State δ) :
    Extends Event.IsStep s.trace (rvStep dev n s).2.trace := by
  have hstep : ∀ e : Event, e.IsIteration → e.IsStep := fun e he => by cases e <;> trivial
  refine rvStep_invariant dev (I := fun t : State δ => Extends Event.IsStep s.trace t.trace)
    (.refl _ _) ?_ ?_
  · exact fun _ => (Extends.refl _ _).append trivial
  · exact fun t ht => ht.trans ((iteration_step dev _).trace.mono hstep)

theorem runCalls_extends {calls : List Call} (hcalls : ∀ mask, .setIrq mask ∉ calls)
    (s : State δ) : Extends Event.IsStep s.trace (runCalls dev calls s).trace := by
  induction calls generalizing s with
  | nil => exact .refl _ _
  | cons k calls ih =>
    have htail := ih (fun mask h => hcalls mask (List.mem_cons_of_mem _ h)) (call dev s k)
    cases k with
    | setIrq mask => exact absurd List.mem_cons_self (hcalls mask)
    | step n => exact (rvStep_extends dev n s).trans htail

variable {dev}

/-- Interrupt delivery under any interleaving of calls: one is taken only when enabled and
raised, the lowest first; none is taken again before the guest sets `mstatus.MIE`; and while
`rv_set_irq` is not called none is taken twice and none is lost. -/
theorem interrupt_delivery (hd : dev.Silent) :
    (∀ (s : State δ) (k : Call) (c : ℕ),
      .dispatch c ∈ newEvents s.toBus (call dev s k).toBus →
        newEvents s.toBus (call dev s k).toBus = [.dispatch c] ∧
        s.mie = true ∧ s.irqMask &&& s.csrMie ≠ 0 ∧
        IsLeast {i | s.irqMask.getLsbD i = true ∧ s.csrMie.getLsbD i = true} c ∧
        (∀ i, (call dev s k).irqMask.getLsbD i = (s.irqMask.getLsbD i && decide (i ≠ c))) ∧
        (call dev s k).mie = false) ∧
    (∀ (s : State δ) (calls : List Call) (es₁ es₂ es₃ : List Event) (c d : ℕ),
      newEvents s.toBus (runCalls dev calls s).toBus =
          es₁ ++ .dispatch c :: es₂ ++ .dispatch d :: es₃ →
        ∃ insn, .retire insn true ∈ es₂ ∧ WritesMstatus insn) ∧
    ∀ (s : State δ) (calls : List Call), (∀ mask, .setIrq mask ∉ calls) →
      (dispatched (newEvents s.toBus (runCalls dev calls s).toBus)).Nodup ∧
      ∀ i, (runCalls dev calls s).irqMask.getLsbD i =
        (s.irqMask.getLsbD i &&
          decide (i ∉ dispatched (newEvents s.toBus (runCalls dev calls s).toBus))) := by
  refine ⟨fun s k c h => ?_, fun s calls es₁ es₂ es₃ c d h => ?_, fun s calls hcalls => ?_⟩
  · obtain ⟨hint, rfl, hcall⟩ := call_dispatch h
    rw [hcall]
    exact ⟨newEvents_of_append rfl, hint.2, hint.1, pending_isLeast hint.1,
      dispatch_irqMask s, dispatch_mie s.wake⟩
  · have hrun := (runCalls_refines hd calls s).run
    rw [h] at hrun
    simp only [labels, List.filterMap_append, List.filterMap_cons, Event.label] at hrun
    obtain ⟨insn, hmem, hwrites⟩ := hrun.not_nested
    obtain ⟨e, he, hlabel⟩ := List.mem_filterMap.1 hmem
    refine ⟨insn, ?_, hwrites⟩
    cases e with
    | retire w b => cases hlabel; exact he
    | _ => cases hlabel
  · have hrun := (runCalls_refines hd calls s).run
    obtain ⟨hnodup, _, hpending⟩ := hrun.taken_spec fun m hm => by
      obtain ⟨e, he, hlabel⟩ := List.mem_filterMap.1 hm
      have hext := runCalls_extends dev hcalls s
      have hstep := (Extends.iff_forall_drop hext).1 hext e he
      cases e with
      | setIrq mask => exact hstep.elim
      | _ => cases hlabel
    rw [taken_labels] at hnodup hpending
    refine ⟨hnodup, fun i => ?_⟩
    have hi : (runCalls dev calls s).irqMask.getLsbD i = true ↔
        s.irqMask.getLsbD i = true ∧
          i ∉ dispatched (newEvents s.toBus (runCalls dev calls s).toBus) :=
      Set.ext_iff.1 hpending i
    rw [Bool.eq_iff_iff, hi, Bool.and_eq_true, decide_eq_true_iff]

/-- Sources 1 and 2 are raised; the call takes source 1. -/
theorem interrupt_delivery_lowest :
    let s := { State.holding 0x13#32 with irqMask := 6#32, csrMstatus := 8#32 }
    .dispatch 1 ∈ newEvents s.toBus (call herveStubs s (.step 5)).toBus ∧
      (call herveStubs s (.step 5)).irqMask.getLsbD 1 = false ∧
      (call herveStubs s (.step 5)).irqMask.getLsbD 2 = true := by
  intro s
  have hmem : .dispatch 1 ∈ newEvents s.toBus (call herveStubs s (.step 5)).toBus := by decide
  obtain ⟨_, _, _, _, hirq, _⟩ := (interrupt_delivery herveStubs_silent).1 s (.step 5) 1 hmem
  exact ⟨hmem, (hirq 1).trans (by decide), (hirq 2).trans (by decide)⟩

end Herve
