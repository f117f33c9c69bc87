import Herve.Run.Iteration

/-! The states of a run of calls, and the two rules about all of them: what every iteration
keeps, and what exactly the iterations in a given condition keep. -/

namespace Herve

variable {δ : Type} (dev : Device δ)

/-- An iteration of the run starts in state `t`. -/
def Executed (calls : List Call) (s t : State δ) : Prop :=
  ∃ before n, before ++ [.step n] <+: calls ∧ Iterates dev n (runCalls dev before s) t

/-- `t` is a state of the run, between calls or between iterations. -/
def Reached (calls : List Call) (s t : State δ) : Prop :=
  (∃ before, before <+: calls ∧ t = runCalls dev before s) ∨ Executed dev calls s t

theorem runCalls_concat (calls : List Call) (k : Call) (s : State δ) :
    runCalls dev (calls ++ [k]) s = call dev (runCalls dev calls s) k := by
  rw [runCalls, List.foldl_append]
  rfl

theorem reached_iteration {calls before : List Call} {n : ℤ} {s t : State δ}
    (hbefore : before ++ [.step n] <+: calls) (ht : Iterates dev n (runCalls dev before s) t) :
    Reached dev calls s
      (iteration dev (runCalls dev before s).profiler.profilingEnabled t).2 := by
  -- the next one of the loop, or the result of the call
  rcases BreakLoop.loop_or_visits ht.2 with hend | hnext
  · have hcall : runCalls dev (before ++ [.step n]) s =
        (rvStep dev n (runCalls dev before s)).2 := runCalls_concat dev before (.step n) s
    rw [← hend, ← rvStep_run dev ht.1, ← hcall]
    exact .inl ⟨_, hbefore, rfl⟩
  · exact .inr ⟨before, n, hbefore, ht.1, hnext⟩

theorem executed_step_one {s t : State δ} (h : Executed dev [.step 1] s t) : t = s := by
  obtain ⟨before, n, hbefore, hrun, hvisit⟩ := h
  cases before with
  | nil =>
    cases (List.cons_prefix_cons.1 hbefore).1
    cases hvisit with
    | here => rfl
    | next _ hnone => cases hnone
  | cons k before =>
    have hnil := List.prefix_nil.1 (List.cons_prefix_cons.1 hbefore).2
    exact absurd hnil (List.append_ne_nil_of_right_ne_nil _ (List.cons_ne_nil _ _))

section
variable {I C : State δ → Prop} (hirq : ∀ t mask, I t → I (rvSetIrq mask t))
  (hdispatch : ∀ t, I t → I t.wake.dispatch)
include hirq hdispatch

theorem call_invariant {s : State δ} (hs : I s) (k : Call)
    (h : ∀ n, k = .step n → ∀ t, Iterates dev n s t → I t →
      I (iteration dev s.profiler.profilingEnabled t).2) :
    I (call dev s k) ∧ ∀ n, k = .step n → ∀ t, Iterates dev n s t → I t := by
  cases k with
  | setIrq mask => exact ⟨hirq s mask hs, fun n hn => by cases hn⟩
  | step n =>
    by_cases hr : s.Runs n
    · obtain ⟨hvisits, hend⟩ := BreakLoop.loop_invariant_visits (I := I) hs
        fun t ht htI => h n rfl t ⟨hr, ht⟩ htI
      refine ⟨?_, fun m hm t ht => ?_⟩
      · rw [call, rvStep_run dev hr]
        exact hend
      · cases hm
        exact hvisits t ht.2
    · refine ⟨?_, fun m hm t ht => ?_⟩
      · by_cases hd : s.Dispatches n
        · rw [call, rvStep_dispatch dev hd]
          exact hdispatch s hs
        · rw [call, rvStep_idle dev hd hr]
          exact hs
      · cases hm
        exact absurd ht.1 hr

theorem runCalls_invariant {calls : List Call} {s : State δ} (hs : I s)
    (h : ∀ u t, I u → I t → Executed dev calls s t →
      I (iteration dev u.profiler.profilingEnabled t).2) (before : List Call)
    (hbefore : before <+: calls) : I (runCalls dev before s) := by
  induction before using List.reverseRecOn with
  | nil => exact hs
  | append_singleton before k ih =>
    have hprev := ih ((List.prefix_append _ _).trans hbefore)
    rw [runCalls_concat]
    refine (call_invariant dev hirq hdispatch hprev k ?_).1
    rintro n rfl t ht htI
    exact h _ t hprev htI ⟨before, n, hbefore, ht⟩

theorem reached_invariant {calls : List Call} {s : State δ} (hs : I s)
    (h : ∀ u t, I u → I t → Executed dev calls s t →
      I (iteration dev u.profiler.profilingEnabled t).2) {t : State δ}
    (ht : Reached dev calls s t) : I t := by
  rcases ht with ⟨before, hbefore, rfl⟩ | ⟨before, n, hbefore, ht⟩
  · exact runCalls_invariant dev hirq hdispatch hs h before hbefore
  · have hprev := runCalls_invariant dev hirq hdispatch hs h before
      ((List.prefix_append _ _).trans hbefore)
    refine (call_invariant dev hirq hdispatch hprev (.step n) ?_).2 n rfl t ht
    rintro m hm u hu huI
    cases hm
    exact h _ u hprev huI ⟨before, n, hbefore, hu⟩

/-- What the iterations in `C` keep and the others lose holds throughout a run exactly when all
its iterations are in `C`. -/
theorem reached_iff_executed
    (hiter : ∀ u t, I u → I t → (I (iteration dev u.profiler.profilingEnabled t).2 ↔ C t))
    {s : State δ} (hs : I s) (calls : List Call) :
    (∀ t, Reached dev calls s t → I t) ↔ ∀ t, Executed dev calls s t → C t := by
  constructor
  · intro h t ht
    obtain ⟨before, n, hbefore, hvisit⟩ := ht
    have hu := h (runCalls dev before s)
      (.inl ⟨before, (List.prefix_append _ _).trans hbefore, rfl⟩)
    have ht := h t (.inr ⟨before, n, hbefore, hvisit⟩)
    exact (hiter _ t hu ht).1 (h _ (reached_iteration dev hbefore hvisit))
  · intro h t ht
    exact reached_invariant dev hirq hdispatch hs
      (fun u t hu htI htx => (hiter u t hu htI).2 (h t htx)) ht

end
end Herve
