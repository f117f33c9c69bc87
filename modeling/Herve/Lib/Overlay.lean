import Mathlib

/-! Arrays overwritten block by block. Blocks that do not overlap may be put down in any order:
each is read back whole, and what none of them covers stays. -/

namespace Overlay
universe u
variable {α : Type u}

/-- Values, and the index that the first one goes to. -/
structure Block (α : Type u) where
  start : ℕ
  data : List α

def Block.Covers (b : Block α) (i : ℕ) : Prop := b.start ≤ i ∧ i < b.start + b.data.length

instance (b : Block α) (i : ℕ) : Decidable (b.Covers i) := inferInstanceAs (Decidable (_ ∧ _))

def Block.Disjoint (b c : Block α) : Prop := ∀ i, b.Covers i → ¬ c.Covers i

theorem Block.covers_lt {b : Block α} {i : ℕ} (h : b.Covers i) : i - b.start < b.data.length := by
  have hi := h.2
  have hstart := h.1
  omega

/-- The array once `b` has been put down on it. -/
def Block.put (array : ℕ → α) (b : Block α) : ℕ → α := fun i =>
  if h : b.Covers i then b.data.get ⟨i - b.start, Block.covers_lt h⟩ else array i

def putAll (blocks : List (Block α)) (array : ℕ → α) : ℕ → α := blocks.foldl Block.put array

variable {blocks : List (Block α)} {array : ℕ → α} {b : Block α} {i : ℕ}

theorem put_of_not_covers (h : ¬ b.Covers i) : b.put array i = array i := dif_neg h

theorem put_at {k : ℕ} (hk : k < b.data.length) : b.put array (b.start + k) = b.data[k] := by
  have hcovers : b.Covers (b.start + k) := ⟨Nat.le_add_right _ _, Nat.add_lt_add_left hk _⟩
  rw [Block.put, dif_pos hcovers, List.get_eq_getElem]
  congr 1
  exact Nat.add_sub_cancel_left _ _

theorem putAll_of_not_covers (h : ∀ b ∈ blocks, ¬ b.Covers i) :
    putAll blocks array i = array i := by
  induction blocks generalizing array with
  | nil => rfl
  | cons b blocks ih =>
    obtain ⟨hb, hblocks⟩ := List.forall_mem_cons.1 h
    exact (ih hblocks).trans (put_of_not_covers hb)

theorem putAll_at (hdisjoint : blocks.Pairwise Block.Disjoint) (hb : b ∈ blocks) {k : ℕ}
    (hk : k < b.data.length) : putAll blocks array (b.start + k) = b.data[k] := by
  induction blocks generalizing array with
  | nil => exact absurd hb List.not_mem_nil
  | cons c blocks ih =>
    obtain ⟨hc, hblocks⟩ := List.pairwise_cons.1 hdisjoint
    rcases List.mem_cons.1 hb with rfl | hb
    -- the blocks after this one leave it alone
    · have hcovers : b.Covers (b.start + k) := ⟨Nat.le_add_right _ _, Nat.add_lt_add_left hk _⟩
      have hrest : putAll blocks (b.put array) (b.start + k) = b.put array (b.start + k) :=
        putAll_of_not_covers fun d hd => hc d hd _ hcovers
      exact hrest.trans (put_at hk)
    · exact ih hblocks hb

end Overlay
