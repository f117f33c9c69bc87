import Mathlib

/-! A priority interrupt controller in the abstract: a set of pending sources, a global
enable flag that taking an interrupt clears, and guest operations that move the flag. What
holds over any run: interrupts do not nest, and none is lost or taken twice. -/

namespace IrqController
universe u v
variable {ι : Type u} {κ : Type v}

structure Controller (ι : Type u) where
  pending : Set ι
  enabled : Bool

/-- What happens to a controller: its sources are set from outside, the least of those pending
is taken, or the guest performs `k` and leaves the flag at `enabled`. -/
inductive Label (ι : Type u) (κ : Type v)
  | set (sources : Set ι)
  | take (i : ι)
  | guest (k : κ) (enabled : Bool)

/-- `Enables k` are the guest operations that may move the flag. -/
inductive Step [LE ι] (Enables : κ → Prop) : Controller ι → Label ι κ → Controller ι → Prop
  | set (c : Controller ι) (sources : Set ι) :
      Step Enables c (.set sources) { c with pending := sources }
  | take {c : Controller ι} {i : ι} (mask : Set ι) : c.enabled = true →
      IsLeast (c.pending ∩ mask) i →
      Step Enables c (.take i) { pending := c.pending \ {i}, enabled := false }
  | guest {c : Controller ι} {k : κ} {b : Bool} : b = c.enabled ∨ Enables k →
      Step Enables c (.guest k b) { c with enabled := b }

inductive Run [LE ι] (Enables : κ → Prop) :
    Controller ι → List (Label ι κ) → Controller ι → Prop
  | nil (c : Controller ι) : Run Enables c [] c
  | cons {c d e : Controller ι} {l : Label ι κ} {ls : List (Label ι κ)} :
      Step Enables c l d → Run Enables d ls e → Run Enables c (l :: ls) e

def taken : List (Label ι κ) → List ι
  | [] => []
  | .take i :: ls => i :: taken ls
  | .set _ :: ls | .guest _ _ :: ls => taken ls

variable [LE ι] {Enables : κ → Prop} {c d e : Controller ι} {ls ms : List (Label ι κ)}

theorem Step.run {l : Label ι κ} (h : Step Enables c l d) : Run Enables c [l] d :=
  .cons h (.nil d)

theorem Run.append (h : Run Enables c ls d) (h' : Run Enables d ms e) :
    Run Enables c (ls ++ ms) e := by
  induction h with
  | nil => exact h'
  | cons hstep _ ih => exact .cons hstep (ih h')

theorem Run.split (h : Run Enables c (ls ++ ms) e) :
    ∃ d, Run Enables c ls d ∧ Run Enables d ms e := by
  induction ls generalizing c with
  | nil => exact ⟨c, .nil c, h⟩
  | cons l ls ih =>
    cases h with
    | cons hstep hrest =>
      obtain ⟨d, hls, hms⟩ := ih hrest
      exact ⟨d, .cons hstep hls, hms⟩

/-- The flag is only raised by a guest operation that may raise it. -/
theorem Run.enabled_of_disabled (h : Run Enables c ls d) (hc : c.enabled = false)
    (hd : d.enabled = true) : ∃ k, .guest k true ∈ ls ∧ Enables k := by
  induction h with
  | nil => exact absurd (hc.symm.trans hd) Bool.false_ne_true
  | cons hstep _ ih =>
    cases hstep with
    | set sources =>
      obtain ⟨k, hk, hen⟩ := ih hc hd
      exact ⟨k, List.mem_cons_of_mem _ hk, hen⟩
    | take mask hen _ => exact absurd (hc.symm.trans hen) Bool.false_ne_true
    | @guest k b hk =>
      cases b with
      | false =>
        obtain ⟨k', hk', hen⟩ := ih rfl hd
        exact ⟨k', List.mem_cons_of_mem _ hk', hen⟩
      | true =>
        rcases hk with hk | hk
        · exact absurd (hc.symm.trans hk.symm) Bool.false_ne_true
        · exact ⟨k, List.mem_cons_self, hk⟩

theorem Run.not_nested {l₁ l₂ l₃ : List (Label ι κ)} {i j : ι}
    (h : Run Enables c (l₁ ++ .take i :: l₂ ++ .take j :: l₃) d) :
    ∃ k, .guest k true ∈ l₂ ∧ Enables k := by
  obtain ⟨c₂, hpre, hpost⟩ := h.split
  obtain ⟨c₁, _, hmid⟩ := hpre.split
  cases hmid with
  | cons htake hl₂ =>
    cases htake with
    | take =>
      cases hpost with
      | cons htake' _ =>
        cases htake' with
        | take _ hen _ => exact hl₂.enabled_of_disabled rfl hen

/-- With the sources left alone from outside, none is taken twice, and those taken are exactly
those that are no longer pending. -/
theorem Run.taken_spec (h : Run Enables c ls d) (hset : ∀ m, .set m ∉ ls) :
    (taken ls).Nodup ∧ (∀ i ∈ taken ls, i ∈ c.pending) ∧
      d.pending = c.pending \ {i | i ∈ taken ls} := by
  induction h with
  | nil c => exact ⟨List.nodup_nil, fun _ h => (nomatch h), by simp [taken]⟩
  | @cons c c' e l ls hstep _ ih =>
    obtain ⟨hnodup, hmem, hrest⟩ := ih fun m hm => hset m (List.mem_cons_of_mem _ hm)
    cases hstep with
    | set sources => exact absurd List.mem_cons_self (hset sources)
    | guest _ => exact ⟨hnodup, hmem, hrest⟩
    | @take i mask _ hleast =>
      have hi : i ∉ taken ls := fun h => (hmem i h).2 rfl
      refine ⟨List.nodup_cons.2 ⟨hi, hnodup⟩, ?_, ?_⟩
      · intro j hj
        rcases List.mem_cons.1 hj with rfl | hj
        · exact hleast.1.1
        · exact (hmem j hj).1
      · rw [hrest]
        ext j
        simp [taken, and_assoc]

end IrqController
