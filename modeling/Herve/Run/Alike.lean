import Herve.Run.Congruence
import Herve.Run.Iteration

/-! What a program without SYSTEM instructions cannot see: the interrupt mask, the trap and
cycle registers, and which entries of the log are not output. Two states that differ only
there stay so under an iteration of the loops. -/

namespace Herve
open RiscV

variable {δ : Type} (dev : Device δ)

/-- MMIO calls and printed characters. -/
def Event.isOutput : Event → Bool
  | .mmioRead _ _ | .mmioWrite _ _ | .putchar _ => true
  | _ => false

def outputs (es : List Event) : List Event := es.filter Event.isOutput

/-- The same bus with another interrupt mask and another log of the same output. -/
inductive Bus.Alike (b : Bus δ) : Bus δ → Prop
  | mk (irqMask : Word) {trace : List Event} : outputs trace = outputs b.trace →
      Bus.Alike b { b with irqMask := irqMask, trace := trace }

inductive Core.Alike (c : Core δ) : Core δ → Prop
  | mk {b : Bus δ} : c.toBus.Alike b → Core.Alike c { c with toBus := b }

/-- The same state with an alike core and other trap and cycle registers. -/
inductive State.Alike (s : State δ) : State δ → Prop
  | mk (mepc mcause : Word) (mcycle : BitVec 64) {c : Core δ} : s.toCore.Alike c →
      State.Alike s { s with
        toCore := c, csrMepc := mepc, csrMcause := mcause, csrMcycle := mcycle }

/-! ## Accesses -/

theorem outputs_append (es fs : List Event) : outputs (es ++ fs) = outputs es ++ outputs fs :=
  List.filter_append ..

theorem outputs_concat {es fs : List Event} (h : outputs es = outputs fs) (e : Event) :
    outputs (es ++ [e]) = outputs (fs ++ [e]) := by
  rw [outputs_append, outputs_append, h]

namespace Bus.Alike
variable {b b' : Bus δ}

theorem log (h : b.Alike b') (e : Event) : (b.log e).Alike (b'.log e) := by
  obtain ⟨irqMask, h⟩ := h
  exact .mk irqMask (outputs_concat h e)

theorem log_right (h : b.Alike b') {e : Event} (he : e.isOutput = false) :
    b.Alike (b'.log e) := by
  obtain ⟨irqMask, h⟩ := h
  have hnone : outputs [e] = [] := List.filter_cons_of_neg (by simp [he])
  refine .mk irqMask ?_
  rw [outputs_append, h, hnone, List.append_nil]

theorem congruence : Bus.Congruence dev Bus.Alike where
  memory h := by cases h; rfl
  memorySize h := by cases h; rfl
  memoryBase h := by cases h; rfl
  htifFromhostLo h := by cases h; rfl
  htifFromhostHi h := by cases h; rfl
  htifHalted h := by cases h; rfl
  log e h := h.log e
  memcpyTo i n v h := by
    obtain ⟨irqMask, h⟩ := h
    exact .mk irqMask (outputs_concat h _)
  dpiMmioRead addr h := by
    obtain ⟨irqMask, h⟩ := h
    exact ⟨rfl, .mk _ (outputs_concat h _)⟩
  dpiMmioWrite addr value h := by
    obtain ⟨irqMask, h⟩ := h
    exact .mk _ (outputs_concat h _)
  setTohostLo v h := by
    obtain ⟨irqMask, h⟩ := h
    exact .mk irqMask h
  setTohostHi v h := by
    obtain ⟨irqMask, h⟩ := h
    exact .mk irqMask h
  setFromhostLo v h := by
    obtain ⟨irqMask, h⟩ := h
    exact .mk irqMask h
  setFromhostHi v h := by
    obtain ⟨irqMask, h⟩ := h
    exact .mk irqMask h
  exit code h := by
    obtain ⟨irqMask, h⟩ := h
    exact .mk irqMask h

end Bus.Alike

/-! ## Instructions -/

theorem Core.Alike.run {c c' : Core δ} (h : c.Alike c') (a : Arm) (nextPc : Word) :
    (a.run dev nextPc c').1 = (a.run dev nextPc c).1 ∧
      (a.run dev nextPc c).2.Alike (a.run dev nextPc c').2 := by
  obtain ⟨hb⟩ := h
  obtain ⟨hok, b', hb', hrun⟩ := (Bus.Alike.congruence dev).run hb a nextPc
  rw [hrun]
  exact ⟨hok, .mk hb'⟩

theorem Core.Alike.stepPast {c c' : Core δ} (h : c.Alike c') (pc : Word) :
    (stepPast pc c).Alike (stepPast pc c') := by
  obtain ⟨hb⟩ := h
  unfold Herve.stepPast
  dsimp only
  split_ifs <;> exact .mk hb

namespace State.Alike
variable {s t : State δ}

theorem recordInsn (h : s.Alike t) (type : InsnType) (pc insn : Word) :
    (s.recordInsn type pc insn).Alike (t.recordInsn type pc insn) := by
  obtain ⟨mepc, mcause, mcycle, hc⟩ := h
  unfold State.recordInsn
  dsimp only
  split_ifs <;> exact .mk mepc mcause mcycle hc

theorem count (h : s.Alike t) (insn : Word) : (s.count insn).Alike (t.count insn) := by
  obtain ⟨mepc, mcause, mcycle, ⟨hb⟩⟩ := h
  exact .mk mepc mcause _ (.mk (hb.log _))

theorem executeInstruction (h : s.Alike t) {insn : Word} (hsys : opcode insn ≠ 0x73#32) :
    (executeInstruction dev insn t).1 = (executeInstruction dev insn s).1 ∧
      (executeInstruction dev insn s).2.Alike (executeInstruction dev insn t).2 := by
  rw [Herve.executeInstruction, Herve.executeInstruction, if_neg hsys, if_neg hsys]
  obtain ⟨mepc, mcause, mcycle, ⟨hb⟩⟩ := h
  obtain ⟨hok, hc⟩ :=
    (Core.Alike.mk hb).run dev (decodeInstruction insn s.regs s.pc).2 (s.pc + 4)
  exact ⟨hok, (mk mepc mcause mcycle hc).recordInsn _ _ _⟩

theorem stepBase (h : s.Alike t) {insn : Word} (hsys : opcode insn ≠ 0x73#32) :
    (stepBase dev insn t).1 = (stepBase dev insn s).1 ∧
      (stepBase dev insn s).2.Alike (stepBase dev insn t).2 := by
  obtain ⟨hok, hs⟩ := h.executeInstruction dev hsys
  unfold Herve.stepBase
  simp only [hok]
  split_ifs
  · exact ⟨rfl, hs.count insn⟩
  · exact ⟨rfl, hs⟩

theorem stepCompressed (h : s.Alike t) (profiled : Bool) (cInsn : BitVec 16) :
    (stepCompressed dev profiled cInsn t).1 = (stepCompressed dev profiled cInsn s).1 ∧
      (stepCompressed dev profiled cInsn s).2.Alike (stepCompressed dev profiled cInsn t).2 := by
  obtain ⟨mepc, mcause, mcycle, ⟨hb⟩⟩ := h
  obtain ⟨hok, hc⟩ := (Core.Alike.mk hb).run dev (decodeCompressed cInsn s.regs s.pc) s.pc
  unfold Herve.stepCompressed executeCompressed
  simp only [hok]
  split_ifs
  · exact ⟨rfl, (mk mepc mcause mcycle (hc.stepPast s.pc)).count _⟩
  · exact ⟨rfl, (mk mepc mcause mcycle (hc.stepPast s.pc)).count _⟩
  · exact ⟨rfl, .mk mepc mcause mcycle hc⟩

/-- An iteration cannot tell alike states apart before a SYSTEM instruction. -/
theorem iteration (h : s.Alike t) (profiled : Bool)
    (hsys : opcode (s.fetchedInsn dev) ≠ 0x73#32) :
    (iteration dev profiled t).1 = (iteration dev profiled s).1 ∧
      (iteration dev profiled s).2.Alike (iteration dev profiled t).2 := by
  obtain ⟨mepc, mcause, mcycle, ⟨hb⟩⟩ := h
  have hR := Bus.Alike.congruence dev
  obtain ⟨hinsn, hb'⟩ := hR.readU32 hb s.pc
  have hs := State.Alike.mk (s := s.fetched dev) mepc mcause mcycle (.mk hb')
  unfold Herve.iteration
  simp only [hR.htifHalted hb, hR.validMemoryAccess hb, hinsn]
  split_ifs
  · exact ⟨rfl, .mk mepc mcause mcycle (.mk hb)⟩
  · exact ⟨rfl, .mk mepc mcause mcycle (.mk hb)⟩
  · exact hs.stepCompressed dev profiled _
  · exact hs.stepBase dev hsys

end State.Alike
end Herve
