import Herve.Lib.BreakLoop

/-! A bounded loop that follows the paths of a transition relation: if its body carries out one
step from every state that represents the start of one, the loop carries out the path. -/

namespace Paths
open BreakLoop
universe u v
variable {α : Type u} {σ : Type v}

/-- `Path r n a b`: `n` steps of `r` lead from `a` to `b`. -/
inductive Path (r : α → α → Prop) : ℕ → α → α → Prop
  | refl {a : α} : Path r 0 a a
  | head {n : ℕ} {a b c : α} : r a b → Path r n b c → Path r (n + 1) a c

namespace Path
variable {r q : α → α → Prop}

theorem trans {m n : ℕ} {a b c : α} (h : Path r m a b) (k : Path r n b c) : Path r (m + n) a c := by
  induction h with
  | refl => rwa [Nat.zero_add]
  | head hr _ ih =>
    rw [Nat.succ_add]
    exact .head hr (ih k)

theorem mono (hrq : ∀ a b, r a b → q a b) {n : ℕ} {a b : α} (h : Path r n a b) : Path q n a b := by
  induction h with
  | refl => exact .refl
  | head hr _ ih => exact .head (hrq _ _ hr) ih

theorem split {m n : ℕ} {a c : α} (h : Path r (m + n) a c) :
    ∃ b, Path r m a b ∧ Path r n b c := by
  induction m generalizing a with
  | zero => exact ⟨a, .refl, by rwa [Nat.zero_add] at h⟩
  | succ m ih =>
    rw [Nat.succ_add] at h
    cases h with
    | head hr hrest =>
      obtain ⟨b, hfirst, hsecond⟩ := ih hrest
      exact ⟨b, .head hr hfirst, hsecond⟩

/-- Where every step leads to a state with `P`, a path from such a state does. -/
theorem keeps {P : α → Prop} (hr : ∀ a b, r a b → P b) {n : ℕ} {a b : α} (h : Path r n a b)
    (ha : P a) : P b := by
  induction h with
  | refl => exact ha
  | head hab _ ih => exact ih (hr _ _ hab)

end Path

variable {r : α → α → Prop} {R : α → σ → Prop} {body : σ → Bool × σ}

/-- A loop with passes to spare is, after a path, where the rest of the passes lead. -/
theorem loop_path (hbody : ∀ a b s, R a s → r a b → (body s).1 = true ∧ R b (body s).2)
    {n : ℕ} {a b : α} (h : Path r n a b) {s : σ} (hs : R a s) (m : ℕ) :
    ∃ t, R b t ∧ loop body (n + m) s = (n + (loop body m t).1, (loop body m t).2) := by
  induction h generalizing s with
  | refl => exact ⟨s, hs, by rw [Nat.zero_add, Nat.zero_add]⟩
  | @head n a b c hr _ ih =>
    obtain ⟨hgo, hb⟩ := hbody a b s hs hr
    obtain ⟨t, ht, hloop⟩ := ih hb
    refine ⟨t, ht, ?_⟩
    rw [Nat.succ_add, loop_succ_true hgo, hloop]
    exact congrArg (Prod.mk · _) (Nat.succ_add n _).symm

/-! ## Labelled runs -/

section
universe w
variable {ℓ : Type w}

/-- `Run step a ls b`: the steps labelled `ls` lead from `a` to `b`. -/
inductive Run (step : α → ℓ → α → Prop) : α → List ℓ → α → Prop
  | nil (a : α) : Run step a [] a
  | cons {a b c : α} {l : ℓ} {ls : List ℓ} :
      step a l b → Run step b ls c → Run step a (l :: ls) c

variable {step : α → ℓ → α → Prop}

theorem Run.single {a b : α} {l : ℓ} (h : step a l b) : Run step a [l] b := .cons h (.nil b)

theorem Run.append {a b c : α} {ls ms : List ℓ} (h : Run step a ls b) (k : Run step b ms c) :
    Run step a (ls ++ ms) c := by
  induction h with
  | nil => exact k
  | cons hs _ ih => exact .cons hs (ih k)

/-- A run with labels in `P`, of which `k` count. -/
def RunOf (step : α → ℓ → α → Prop) (P : ℓ → Prop) (counts : ℓ → Bool) (k : ℕ) (a b : α) : Prop :=
  ∃ ls, Run step a ls b ∧ (∀ l ∈ ls, P l) ∧ ls.countP counts = k

variable {P : ℓ → Prop} {counts : ℓ → Bool}

theorem RunOf.refl (a : α) : RunOf step P counts 0 a a :=
  ⟨[], .nil a, fun _ hl => absurd hl List.not_mem_nil, rfl⟩

theorem RunOf.single {a b : α} {l : ℓ} (h : step a l b) (hl : P l) :
    RunOf step P counts (if counts l then 1 else 0) a b :=
  ⟨[l], .single h, fun _ hm => List.mem_singleton.1 hm ▸ hl, List.countP_singleton⟩

theorem RunOf.trans {j k : ℕ} {a b c : α} (h : RunOf step P counts j a b)
    (h' : RunOf step P counts k b c) : RunOf step P counts (j + k) a c := by
  obtain ⟨ls, hrun, hls, rfl⟩ := h
  obtain ⟨ms, hrun', hms, rfl⟩ := h'
  exact ⟨ls ++ ms, hrun.append hrun', List.forall_mem_append.2 ⟨hls, hms⟩, List.countP_append⟩

/-- A loop whose passes are runs is a run, with one label that counts for each pass that goes on. -/
theorem loop_run {view : σ → α} {I : σ → Prop} {n : ℕ} {s : σ} (hs : I s)
    (hbody : ∀ t, Visits body n s t → I t → I (body t).2 ∧
      RunOf step P counts (if (body t).1 then 1 else 0) (view t) (view (body t).2)) :
    I (loop body n s).2 ∧
      RunOf step P counts (loop body n s).1 (view s) (view (loop body n s).2) := by
  induction n generalizing s with
  | zero => exact ⟨hs, .refl _⟩
  | succ n ih =>
    obtain ⟨hnext, hrun⟩ := hbody s .here hs
    cases hgo : (body s).1 with
    | false =>
      rw [loop_succ_false hgo]
      rw [hgo] at hrun
      exact ⟨hnext, hrun⟩
    | true =>
      obtain ⟨hend, hrest⟩ := ih hnext fun t ht => hbody t (.next hgo ht)
      rw [loop_succ_true hgo]
      rw [hgo] at hrun
      refine ⟨hend, ?_⟩
      rw [Nat.add_comm]
      exact hrun.trans hrest

end

end Paths
