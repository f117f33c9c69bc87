import Mathlib

/-! Bounded loops whose body may break: the loop itself, the states its iterations
start in, and the rules by which a property of the body becomes one of the loop. -/

namespace BreakLoop
universe u v
variable {σ : Type u} {τ : Type v}

/-- Run `body` at most `n` times, stopping after the first run that returns `false`. The
result counts the runs that returned `true`. -/
def loop (body : σ → Bool × σ) : ℕ → σ → ℕ × σ
  | 0, s => (0, s)
  | n + 1, s =>
    if (body s).1 then ((loop body n (body s).2).1 + 1, (loop body n (body s).2).2)
    else (0, (body s).2)

/-- `Visits body n s t`: the loop of `n` from `s` starts an iteration in state `t`. -/
inductive Visits (body : σ → Bool × σ) : ℕ → σ → σ → Prop
  | here {n : ℕ} {s : σ} : Visits body (n + 1) s s
  | next {n : ℕ} {s t : σ} : (body s).1 = true → Visits body n (body s).2 t →
      Visits body (n + 1) s t

variable {body : σ → Bool × σ}

theorem loop_succ_true {n : ℕ} {s : σ} (h : (body s).1 = true) :
    loop body (n + 1) s = ((loop body n (body s).2).1 + 1, (loop body n (body s).2).2) := by
  rw [loop, if_pos h]

theorem loop_succ_false {n : ℕ} {s : σ} (h : (body s).1 = false) :
    loop body (n + 1) s = (0, (body s).2) := by
  rw [loop, h, if_neg Bool.false_ne_true]

theorem loop_invariant {I : σ → Prop} (hbody : ∀ s, I s → I (body s).2) {s : σ} (h : I s)
    (n : ℕ) : I (loop body n s).2 := by
  induction n generalizing s with
  | zero => exact h
  | succ n ih =>
    cases hb : (body s).1 with
    | true =>
      rw [loop_succ_true hb]
      exact ih (hbody s h)
    | false =>
      rw [loop_succ_false hb]
      exact hbody s h

/-- What the iterations that do not break keep holds wherever one starts. -/
theorem visits_invariant {I : σ → Prop} (hbody : ∀ t, I t → (body t).1 = true → I (body t).2)
    {n : ℕ} {s t : σ} (h : I s) (ht : Visits body n s t) : I t := by
  induction ht with
  | here => exact h
  | next hb _ ih => exact ih (hbody _ h hb)

theorem loop_or_visits {n : ℕ} {s t : σ} (h : Visits body n s t) :
    (loop body n s).2 = (body t).2 ∨ Visits body n s (body t).2 := by
  induction h with
  | @here n s =>
    cases hb : (body s).1 with
    | false => exact .inl (by rw [loop_succ_false hb])
    | true =>
      cases n with
      | zero => exact .inl (by rw [loop_succ_true hb]; rfl)
      | succ n => exact .inr (.next hb .here)
  | next hb _ ih =>
    rw [loop_succ_true hb]
    exact ih.imp_right (.next hb)

theorem loop_of_visits_false {n : ℕ} {s t : σ} (h : Visits body n s t) (hb : (body t).1 = false) :
    (loop body n s).2 = (body t).2 := by
  induction h with
  | here => rw [loop_succ_false hb]
  | next hgo _ ih =>
    rw [loop_succ_true hgo]
    exact ih hb

theorem loop_pos_of_visits {n : ℕ} {s t : σ} (h : Visits body n s t) (hb : (body t).1 = true) :
    0 < (loop body n s).1 := by
  cases h with
  | here =>
    rw [loop_succ_true hb]
    exact Nat.succ_pos _
  | next hgo _ =>
    rw [loop_succ_true hgo]
    exact Nat.succ_pos _

/-- What every later iteration keeps from one started on holds at the end. -/
theorem loop_invariant_from {I : σ → Prop} (hbody : ∀ s, I s → I (body s).2) {n : ℕ} {s t : σ}
    (h : Visits body n s t) (ht : I (body t).2) : I (loop body n s).2 := by
  induction h with
  | @here n s =>
    cases hb : (body s).1 with
    | true =>
      rw [loop_succ_true hb]
      exact loop_invariant hbody ht n
    | false =>
      rw [loop_succ_false hb]
      exact ht
  | next hgo _ ih =>
    rw [loop_succ_true hgo]
    exact ih ht

theorem visits_false_unique {n : ℕ} {s t u : σ} (ht : Visits body n s t) (hu : Visits body n s u)
    (htb : (body t).1 = false) (hub : (body u).1 = false) : t = u := by
  induction ht with
  | here =>
    cases hu with
    | here => rfl
    | next hb _ => exact absurd (htb.symm.trans hb) Bool.false_ne_true
  | next hb _ ih =>
    cases hu with
    | here => exact absurd (hub.symm.trans hb) Bool.false_ne_true
    | next _ hu => exact ih hu htb

/-- A loop of `m + n` is the loop of `m` and, unless that broke, a loop of `n` from where it
ended. -/
theorem loop_add (m n : ℕ) (s : σ) :
    ((∀ t, Visits body m s t → (body t).1 = true) ∧ (loop body m s).1 = m ∧
      loop body (m + n) s =
        (m + (loop body n (loop body m s).2).1, (loop body n (loop body m s).2).2)) ∨
    ∃ t, Visits body m s t ∧ (body t).1 = false ∧ (loop body m s).2 = (body t).2 ∧
      loop body (m + n) s = loop body m s := by
  induction m generalizing s with
  | zero =>
    refine .inl ⟨fun t ht => ?_, rfl, ?_⟩
    · cases ht
    · rw [Nat.zero_add, loop, Nat.zero_add]
  | succ m ih =>
    rw [Nat.succ_add]
    cases hb : (body s).1 with
    | false =>
      refine .inr ⟨s, .here, hb, ?_, ?_⟩
      · rw [loop_succ_false hb]
      · rw [loop_succ_false hb, loop_succ_false hb]
    | true =>
      rw [loop_succ_true hb, loop_succ_true hb]
      rcases ih (body s).2 with ⟨hall, hcount, hloop⟩ | ⟨t, ht, htb, hend, hloop⟩
      · refine .inl ⟨fun t ht => ?_, ?_, ?_⟩
        · cases ht with
          | here => exact hb
          | next _ ht => exact hall t ht
        · exact congrArg (· + 1) hcount
        · rw [hloop]
          exact congrArg (Prod.mk · _) (Nat.add_right_comm _ _ _)
      · refine .inr ⟨t, .next hb ht, htb, hend, ?_⟩
        rw [hloop]

/-- A property that the iterations started keep holds at every one of them and at the end. -/
theorem loop_invariant_visits {I : σ → Prop} {n : ℕ} {s : σ} (h : I s)
    (hbody : ∀ t, Visits body n s t → I t → I (body t).2) :
    (∀ t, Visits body n s t → I t) ∧ I (loop body n s).2 := by
  induction n generalizing s with
  | zero =>
    refine ⟨fun t ht => ?_, h⟩
    cases ht
  | succ n ih =>
    have hnext := hbody s .here h
    cases hb : (body s).1 with
    | false =>
      rw [loop_succ_false hb]
      refine ⟨fun t ht => ?_, hnext⟩
      cases ht with
      | here => exact h
      | next hb' _ => exact absurd (hb.symm.trans hb') Bool.false_ne_true
    | true =>
      obtain ⟨hvisits, hend⟩ := ih hnext fun t ht => hbody t (.next hb ht)
      rw [loop_succ_true hb]
      refine ⟨fun t ht => ?_, hend⟩
      cases ht with
      | here => exact h
      | next _ ht => exact hvisits t ht

/-- Two loops in lock-step: bodies that agree on breaking and keep `R` where the first one
starts an iteration in `C` give loops that count alike and keep `R`. -/
theorem loop_simulation {body' : τ → Bool × τ} {R : σ → τ → Prop} {C : σ → Prop}
    (hbody : ∀ s t, C s → R s t → (body' t).1 = (body s).1 ∧ R (body s).2 (body' t).2)
    {n : ℕ} {s : σ} {t : τ} (hC : ∀ u, Visits body n s u → C u) (h : R s t) :
    (loop body' n t).1 = (loop body n s).1 ∧ R (loop body n s).2 (loop body' n t).2 := by
  induction n generalizing s t with
  | zero => exact ⟨rfl, h⟩
  | succ n ih =>
    obtain ⟨hc, hR⟩ := hbody s t (hC s .here) h
    cases hb : (body s).1 with
    | true =>
      obtain ⟨hcount, hR'⟩ := ih (fun u hu => hC u (.next hb hu)) hR
      rw [loop_succ_true hb, loop_succ_true (hc.trans hb)]
      exact ⟨congrArg (· + 1) hcount, hR'⟩
    | false =>
      rw [loop_succ_false hb, loop_succ_false (hc.trans hb)]
      exact ⟨rfl, hR⟩

/-- Under an invariant `J`, a property that is never regained once lost holds after the loop
exactly when every iteration started keeps it. -/
theorem loop_iff_visits {I C J : σ → Prop} (hJ : ∀ s, J s → J (body s).2)
    (hkeep : ∀ s, J s → I s → (I (body s).2 ↔ C s)) (hlost : ∀ s, J s → I (body s).2 → I s)
    {s : σ} (hs : J s) (h : I s) (n : ℕ) :
    I (loop body n s).2 ↔ ∀ t, Visits body n s t → C t := by
  induction n generalizing s with
  | zero => exact ⟨fun _ t ht => (nomatch ht), fun _ => h⟩
  | succ n ih =>
    cases hb : (body s).1 with
    | false =>
      rw [loop_succ_false hb, hkeep s hs h]
      constructor
      · intro hC t ht
        cases ht with
        | here => exact hC
        | next hb' _ => rw [hb] at hb'; cases hb'
      · exact fun hC => hC s .here
    | true =>
      rw [loop_succ_true hb]
      constructor
      · intro hI
        have hnext : I (body s).2 := by
          by_contra hnext
          have hnot : ¬ I (loop body n (body s).2).2 :=
            (loop_invariant (I := fun t => J t ∧ ¬ I t)
              (fun t ht => ⟨hJ t ht.1, fun hI => ht.2 (hlost t ht.1 hI)⟩)
              ⟨hJ s hs, hnext⟩ n).2
          exact hnot hI
        intro t ht
        cases ht with
        | here => exact (hkeep s hs h).1 hnext
        | next _ ht => exact (ih (hJ s hs) hnext).1 hI t ht
      · intro hC
        have hnext := (hkeep s hs h).2 (hC s .here)
        exact (ih (hJ s hs) hnext).2 fun t ht => hC t (.next hb ht)

/-- What the count of a loop measures, where a pass that goes on measures one and the last one
nothing. -/
theorem loop_measured {C : ℕ → σ → σ → Prop} (hrefl : ∀ s, C 0 s s)
    (hbody : ∀ s, C (if (body s).1 then 1 else 0) s (body s).2)
    (htrans : ∀ k l s t u, C k s t → C l t u → C (k + l) s u) (n : ℕ) (s : σ) :
    C (loop body n s).1 s (loop body n s).2 ∧ (loop body n s).1 ≤ n := by
  induction n generalizing s with
  | zero => exact ⟨hrefl s, le_rfl⟩
  | succ n ih =>
    have hpass := hbody s
    cases hb : (body s).1 with
    | true =>
      rw [hb] at hpass
      rw [loop_succ_true hb]
      obtain ⟨hrest, hle⟩ := ih (body s).2
      refine ⟨?_, Nat.succ_le_succ hle⟩
      rw [Nat.add_comm]
      exact htrans _ _ _ _ _ hpass hrest
    | false =>
      rw [hb] at hpass
      rw [loop_succ_false hb]
      exact ⟨hpass, Nat.zero_le _⟩

/-! ## Loops without a bound -/

/-- The loop that goes on until its body returns `false` ends in the given state. -/
inductive Ends (body : σ → Bool × σ) : σ → σ → Prop
  | stop {s : σ} : (body s).1 = false → Ends body s (body s).2
  | next {s t : σ} : (body s).1 = true → Ends body (body s).2 t → Ends body s t

/-- A loop falls short of its bound where an iteration that it starts breaks. -/
theorem loop_lt_iff {n : ℕ} {s : σ} :
    (loop body n s).1 < n ↔ ∃ t, Visits body n s t ∧ (body t).1 = false := by
  induction n generalizing s with
  | zero => exact iff_of_false (Nat.not_lt_zero _) fun ⟨t, ht, _⟩ => nomatch ht
  | succ n ih =>
    cases hb : (body s).1 with
    | false =>
      rw [loop_succ_false hb]
      exact iff_of_true (Nat.succ_pos n) ⟨s, .here, hb⟩
    | true =>
      rw [loop_succ_true hb, Nat.succ_lt_succ_iff, ih]
      constructor
      · rintro ⟨t, ht, htb⟩
        exact ⟨t, .next hb ht, htb⟩
      · rintro ⟨t, ht, htb⟩
        cases ht with
        | here => exact absurd (htb.symm.trans hb) Bool.false_ne_true
        | next _ ht => exact ⟨t, ht, htb⟩

end BreakLoop
