import Herve.Guest.Program

/-! Straight-line code: what it does to a guest wherever it stands in a program, put together from
what its instructions do. -/

namespace Herve.Guest
open RiscV Paths

variable {δ : Type} {dev : Device δ}

theorem regs_next_setReg (g : Guest δ) {r : Reg} (h : r ≠ 0) (v : Word) :
    (g.setReg r v).next.regs r = v :=
  (congrFun (if_pos h) r).trans (Function.update_self r v g.regs)

theorem regs_next_setReg_of_ne (g : Guest δ) {r r' : Reg} (h : r' ≠ r) (v : Word) :
    (g.setReg r v).next.regs r' = g.regs r' := by
  show writeReg r v g.regs r' = g.regs r'
  unfold writeReg
  split_ifs
  · exact Function.update_of_ne h v g.regs
  · rfl

/-- Wherever it stands, the code is run through from a guest with `P` to one with `Q`. -/
def Straight (dev : Device δ) (code : List Word) (P Q : Guest δ → Prop) : Prop :=
  ∀ (before after : List Word) (g : Guest δ), g.pc = BitVec.ofNat 32 (4 * before.length) → P g →
    ∃ g', Path (Step dev (before ++ code ++ after)) code.length g g' ∧
      g'.pc = BitVec.ofNat 32 (4 * (before ++ code).length) ∧ Q g'

namespace Straight
variable {code code' : List Word} {P P' Q Q' R : Guest δ → Prop}

theorem nil : Straight dev [] P P := by
  intro before after g hpc hP
  exact ⟨g, .refl, by rwa [List.append_nil], hP⟩

theorem append (h : Straight dev code P Q) (h' : Straight dev code' Q R) :
    Straight dev (code ++ code') P R := by
  intro before after g hpc hP
  obtain ⟨g₁, hpath, hpc₁, hQ⟩ := h before (code' ++ after) g hpc hP
  obtain ⟨g₂, hpath', hpc₂, hR⟩ := h' (before ++ code) after g₁ hpc₁ hQ
  have hcode : before ++ (code ++ code') = before ++ code ++ code' :=
    (List.append_assoc _ _ _).symm
  rw [List.length_append, hcode]
  rw [← List.append_assoc] at hpath
  exact ⟨g₂, hpath.trans hpath', hpc₂, hR⟩

theorem mono (hP : ∀ g, P' g → P g) (hQ : ∀ g, Q g → Q' g) (h : Straight dev code P Q) :
    Straight dev code P' Q' := by
  intro before after g hpc hP'
  obtain ⟨g', hpath, hpc', hQ₁⟩ := h before after g hpc (hP g hP')
  exact ⟨g', hpath, hpc', hQ g' hQ₁⟩

/-- An instruction after which the next one follows. -/
theorem one {insn : Word}
    (h : ∀ (program : List Word) (g : Guest δ), g.At program insn → P g →
      ∃ g' : Guest δ, g.Step dev program g'.next ∧ g'.pc = g.pc ∧ Q g'.next) :
    Straight dev [insn] P Q := by
  intro before after g hpc hP
  have hat : g.At (before ++ [insn] ++ after) insn := by
    refine ⟨before.length, ?_, hpc⟩
    rw [List.append_assoc, List.getElem?_append_right le_rfl, Nat.sub_self]
    rfl
  obtain ⟨g', hstep, hpc', hQ⟩ := h _ g hat hP
  refine ⟨g'.next, .head hstep .refl, ?_, hQ⟩
  have hnext : g'.next.pc = g'.pc + 4 := rfl
  rw [hnext, hpc', hpc, List.length_append, Nat.mul_add, BitVec.ofNat_add]
  rfl

/-- Code written out piece by piece, one for each entry of a list. -/
theorem flatMap {α β : Type} {piece : α → List Word} {I : β → Guest δ → Prop} {f : β → α → β}
    (h : ∀ b a, Straight dev (piece a) (I b) (I (f b a))) (l : List α) (b : β) :
    Straight dev (l.flatMap piece) (I b) (I (l.foldl f b)) := by
  induction l generalizing b with
  | nil => exact nil
  | cons a l ih =>
    rw [List.flatMap_cons, List.foldl_cons]
    exact (h b a).append (ih (f b a))

end Straight
end Herve.Guest
