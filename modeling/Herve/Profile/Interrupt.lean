import Herve.Profile.CallGraph
import Herve.Profile.Retired
import Herve.Trap.Preempt

/-! Interrupts in the call graph. The profiler tells an entry by the last instruction it has
recorded, and MRET is none of these: a resumed function counts as called, or as called from the
handler, whenever the last record before the MRET says so. -/

namespace Herve
open RiscV

variable {δ : Type} (dev : Device δ)

/-! ## What a record adds -/

/-- A record in `f` would count as a call of it. -/
def Profiler.CallsAt (p : Profiler) (f : SymbolName) : Prop := p.Enters f ∧ p.lastCf ≠ .ret
  deriving Decidable

/-- The edge on which a record in `f` would be counted. -/
def Profiler.edgeAt (p : Profiler) (f : SymbolName) : Option (CStr × CStr) :=
  if p.Enters f ∧ (p.lastCf = .call ∨ p.lastCf = .jump) then
    p.lastFunc.map fun g => (g.str, f.str)
  else none

theorem edgeAt_callee {p : Profiler} {f : SymbolName} {k : CStr × CStr}
    (h : p.edgeAt f = some k) : k.2 = f.str := by
  unfold Profiler.edgeAt at h
  split_ifs at h
  obtain ⟨g, -, rfl⟩ := Option.map_eq_some_iff.1 h
  rfl

def edgeCount (k : CStr × CStr) (pairs : List CallPair) : BitVec 64 :=
  Tally.valueAt CallPair.ends CallPair.count k pairs

theorem edgeCount_recordCallEdge (caller : Option CStr) (callee : CStr) (k : CStr × CStr)
    (pairs : List CallPair) :
    edgeCount k (recordCallEdge caller callee pairs) =
      edgeCount k pairs + if caller.map (·, callee) = some k then 1 else 0 := by
  rcases caller with _ | caller
  · exact (add_zero _).symm
  · rw [recordCallEdge_eq, edgeCount, Tally.valueAt_upsert (d := 1)]
    · simp only [Option.map_some, Option.some.injEq]
      rfl
    · exact fun _ => rfl
    · exact fun _ => rfl
    · rfl
    · rfl

variable {symbols : List Symbol} {p : Profiler} {f : SymbolName}

def RecordedIn (symbols : List Symbol) (f : SymbolName) (o : Option Record) : Prop :=
  ∀ r, o = some r → r.func symbols = some f

theorem callsOf_recorded (henabled : p.profilingEnabled = true) {o : Option Record}
    (ho : RecordedIn symbols f o) (name : CStr) :
    callsOf name (recordAll symbols o.toList p).funcStats = callsOf name p.funcStats +
      if o.isSome = true ∧ f.str = name ∧ p.CallsAt f then 1 else 0 := by
  rcases o with _ | r
  · exact (add_zero _).symm
  · show callsOf name (record symbols p r).funcStats = _
    rw [record_inside henabled (ho r rfl)]
    refine (callsOf_inside name).trans ?_
    simp only [Option.isSome_some, true_and]
    rfl

theorem edgeCount_recorded (henabled : p.profilingEnabled = true) {o : Option Record}
    (ho : RecordedIn symbols f o) (k : CStr × CStr) :
    edgeCount k (recordAll symbols o.toList p).callPairs = edgeCount k p.callPairs +
      if o.isSome = true ∧ p.edgeAt f = some k then 1 else 0 := by
  rcases o with _ | r
  · exact (add_zero _).symm
  · show edgeCount k (record symbols p r).callPairs = _
    rw [record_inside henabled (ho r rfl)]
    unfold Profiler.edgeAt
    by_cases henters : p.Enters f ∧ (p.lastCf = .call ∨ p.lastCf = .jump)
    · rw [if_pos henters]
      dsimp only
      rw [if_pos henters, edgeCount_recordCallEdge, Option.map_map]
      simp only [Option.isSome_some, true_and]
      rfl
    · rw [if_neg henters]
      dsimp only
      rw [if_neg henters, if_neg fun h => Option.some_ne_none k h.2.symm, add_zero]

/-- The calls of `f` and the edges into and out of it do not grow from `p` to `p'`, or grow as
they do from `q` to `q'`. -/
structure GrowsWithin (f : CStr) (p p' q q' : Profiler) : Prop where
  calls : callsOf f p'.funcStats = callsOf f p.funcStats ∨
    callsOf f p'.funcStats - callsOf f p.funcStats = callsOf f q'.funcStats - callsOf f q.funcStats
  edges : ∀ k : CStr × CStr, k.1 = f ∨ k.2 = f →
    edgeCount k p'.callPairs = edgeCount k p.callPairs ∨
      edgeCount k p'.callPairs - edgeCount k p.callPairs =
        edgeCount k q'.callPairs - edgeCount k q.callPairs

theorem within_iff (x y : BitVec 64) (A B : Prop) [Decidable A] [Decidable B] :
    (x + (if A then 1 else 0) = x ∨ x + (if A then 1 else 0) - x = y + (if B then 1 else 0) - y) ↔
      (A → B) := by
  rw [add_eq_left, add_sub_cancel_left, add_sub_cancel_left]
  by_cases hA : A
  · by_cases hB : B
    · simp only [hA, hB, or_true, imp_self]
    · simp [hA, hB]
  · simp only [hA, if_false, true_or, false_imp_iff]

theorem growsWithin_iff {q : Profiler} {g : SymbolName} {o o' : Option Record}
    (hp : p.profilingEnabled = true) (hq : q.profilingEnabled = true)
    (ho : RecordedIn symbols g o) (ho' : RecordedIn symbols f o') :
    GrowsWithin f.str p (recordAll symbols o.toList p) q (recordAll symbols o'.toList q) ↔
      (o.isSome = true → (g.str = f.str → p.CallsAt g → o'.isSome = true ∧ q.CallsAt f) ∧
        ∀ k : CStr × CStr, k.1 = f.str ∨ k.2 = f.str → p.edgeAt g = some k →
          o'.isSome = true ∧ q.edgeAt f = some k) := by
  have hcalls := within_iff (callsOf f.str p.funcStats) (callsOf f.str q.funcStats)
    (o.isSome = true ∧ g.str = f.str ∧ p.CallsAt g) (o'.isSome = true ∧ f.str = f.str ∧ q.CallsAt f)
  have hedges : ∀ k, _ := fun k => within_iff (edgeCount k p.callPairs) (edgeCount k q.callPairs)
    (o.isSome = true ∧ p.edgeAt g = some k) (o'.isSome = true ∧ q.edgeAt f = some k)
  rw [← callsOf_recorded hp ho, ← callsOf_recorded hq ho'] at hcalls
  simp only [← edgeCount_recorded hp ho, ← edgeCount_recorded hq ho'] at hedges
  constructor
  · rintro ⟨h₁, h₂⟩ hsome
    refine ⟨fun hname hcall => ?_, fun k hk hedge => (hedges k).1 (h₂ k hk) ⟨hsome, hedge⟩⟩
    obtain ⟨h, -, h'⟩ := hcalls.1 h₁ ⟨hsome, hname, hcall⟩
    exact ⟨h, h'⟩
  · intro h
    constructor
    · refine hcalls.2 ?_
      rintro ⟨hsome, hname, hcall⟩
      obtain ⟨h₁, h₂⟩ := (h hsome).1 hname hcall
      exact ⟨h₁, rfl, h₂⟩
    · intro k hk
      refine (hedges k).2 ?_
      rintro ⟨hsome, hedge⟩
      exact (h hsome).2 k hk hedge

/-! ## Interrupts -/

theorem iteration_recordAll {s : State δ} (henabled : s.profiler.profilingEnabled = true) :
    (iteration dev true s).2.profiler =
      recordAll s.symbols (s.recorded dev).toList s.profiler := by
  obtain ⟨u, hu, ⟨hrun, -⟩ | ⟨insn, hrun, -⟩⟩ := iteration_records dev henabled
  · rw [hrun, hu.profiler]
  · rw [hrun]
    exact hu.profiler

theorem recorded_pc {s : State δ} {r : Record} (h : s.recorded dev = some r) : r.pc = s.pc := by
  unfold State.recorded instructionRecord at h
  split_ifs at h
  all_goals
    cases h
    rfl

theorem recordedIn_pc {s : State δ} {symbols : List Symbol} {f : SymbolName}
    (h : herveGetSymbolAt symbols s.pc = some f) : RecordedIn symbols f (s.recorded dev) := by
  intro r hr
  rw [Record.func, recorded_pc dev hr, h]

/-- `rv_step(n)` in `s` leaves `f` for a handler in `h`, which reaches in `u` the MRET that goes
back to where it was taken. -/
structure Interruption (n : ℤ) (s u : State δ) (f h : SymbolName) : Prop where
  profiled : s.profiler.profilingEnabled = true
  dispatches : s.Dispatches n
  inside : herveGetSymbolAt s.symbols s.pc = some f
  handler : herveGetSymbolAt s.symbols (rvStep dev n s).2.pc = some h
  other : h.str ≠ f.str
  executed : ∃ calls, Executed dev calls (rvStep dev n s).2 u
  mret : u.AtMret dev
  mepc : u.csrMepc = s.pc

/-- What the handler's first instruction and the first one of `f` after the MRET add to the
calls of `f` and to the edges at `f`, the interrupted instruction adds to them if there is no
interrupt. -/
def Undistorted (n : ℤ) (s u : State δ) (f : SymbolName) : Prop :=
  let entry := (rvStep dev n s).2
  let resumed := (iteration dev true u).2
  let without := (rvStep dev 1 s.quiet).2
  GrowsWithin f.str entry.profiler (iteration dev true entry).2.profiler
      s.profiler without.profiler ∧
    GrowsWithin f.str resumed.profiler (iteration dev true resumed).2.profiler
      s.profiler without.profiler

/-- What the interrupted instruction records if there is no interrupt. -/
def State.recordedQuiet (s : State δ) : Option Record :=
  if s.wfiSleep then none else s.quiet.recorded dev

variable {n : ℤ} {s u : State δ} {f h : SymbolName}

theorem quiet_profiler (hinit : s.initialized = true)
    (henabled : s.profiler.profilingEnabled = true) :
    (rvStep dev 1 s.quiet).2.profiler =
      recordAll s.symbols (s.recordedQuiet dev).toList s.profiler := by
  have hint : ¬ s.quiet.Interrupted := fun hint => hint.1 (BitVec.zero_and)
  unfold State.recordedQuiet
  cases hsleep : s.wfiSleep with
  | true =>
    rw [rvStep_idle dev (fun hd => hint hd.2.2)
      fun hr => Bool.noConfusion (hsleep.symm.trans hr.2.2.1)]
    rfl
  | false =>
    have hquiet : s.quiet.profiler.profilingEnabled = true := henabled
    have hruns : s.quiet.Runs 1 := ⟨hinit, one_pos, hsleep, hint⟩
    have hloop : rvStep dev 1 s.quiet = BreakLoop.loop (iteration dev true) 1 s.quiet := by
      rw [rvStep_run dev hruns, hquiet]
      rfl
    have hone : (BreakLoop.loop (iteration dev true) 1 s.quiet).2 =
        (iteration dev true s.quiet).2 := by
      cases hgo : (iteration dev true s.quiet).1 with
      | true => rw [BreakLoop.loop_succ_true hgo, BreakLoop.loop]
      | false => rw [BreakLoop.loop_succ_false hgo]
    rw [hloop, hone, iteration_recordAll dev hquiet]
    rfl

theorem iteration_atMret (henabled : u.profiler.profilingEnabled = true) (hmret : u.AtMret dev) :
    (iteration dev true u).2.profiler = u.profiler ∧
      (iteration dev true u).2.symbols = u.symbols ∧ (iteration dev true u).2.pc = u.csrMepc := by
  obtain ⟨v, hv, ⟨-, -, hno⟩ | ⟨insn, hrun, ⟨-, hno⟩ | ⟨hnone, -⟩⟩⟩ :=
    iteration_records dev henabled
  · exact absurd hmret hno
  · exact absurd hmret hno
  · have hpc : (iteration dev true u).2.pc = u.csrMepc := by
      rw [iteration_base dev true hmret.1 (by rw [hmret.2]; decide), hmret.2]
      rfl
    refine ⟨?_, ?_, hpc⟩
    · rw [hrun]
      exact hv.profiler.trans (by rw [hnone]; rfl)
    · rw [hrun]
      exact hv.symbols

theorem executed_profiled {calls : List Call} (henabled : s.profiler.profilingEnabled = true)
    (hu : Executed dev calls s u) :
    u.profiler.profilingEnabled = true ∧ u.symbols = s.symbols := by
  refine reached_invariant dev
    (I := fun t : State δ => t.profiler.profilingEnabled = true ∧ t.symbols = s.symbols)
    (fun _ _ ht => ht) (fun _ ht => ht) ⟨henabled, rfl⟩ ?_ (.inr hu)
  rintro v t ⟨hv, -⟩ ⟨ht, hsymbols⟩ -
  rw [hv]
  refine ⟨(iteration_enabled dev true t).trans ht, ?_⟩
  obtain ⟨w, hw, ⟨hrun, -⟩ | ⟨insn, hrun, -⟩⟩ := iteration_records dev ht
  · rw [hrun, hw.symbols, hsymbols]
  · rw [hrun]
    exact hw.symbols.trans hsymbols

/-- An interrupt leaves no trace in the counters of the interrupted function exactly when
neither the handler's first instruction nor the resumed one crosses into its function in a way
that counts, beyond what the interrupted instruction does anyway. -/
theorem undistorted_iff (hi : Interruption dev n s u f h) :
    Undistorted dev n s u f ↔
      (((rvStep dev n s).2.recorded dev).isSome = true →
        ∀ k, s.profiler.edgeAt h = some k → k.1 ≠ f.str) ∧
      (((iteration dev true u).2.recorded dev).isSome = true →
        (u.profiler.CallsAt f → (s.recordedQuiet dev).isSome = true ∧ s.profiler.CallsAt f) ∧
        ∀ k, u.profiler.edgeAt f = some k →
          (s.recordedQuiet dev).isSome = true ∧ s.profiler.edgeAt f = some k) := by
  obtain ⟨hs, hdispatch, hf, hh, hother, ⟨calls, hexecuted⟩, hmret, hmepc⟩ := hi
  have hentry : (rvStep dev n s).2.profiler = s.profiler ∧
      (rvStep dev n s).2.symbols = s.symbols := by
    rw [rvStep_dispatch dev hdispatch]
    exact ⟨rfl, rfl⟩
  have hentered : (rvStep dev n s).2.profiler.profilingEnabled = true := by rw [hentry.1, hs]
  obtain ⟨hu, husymbols⟩ := executed_profiled dev hentered hexecuted
  obtain ⟨hresumed, hrsymbols, hrpc⟩ := iteration_atMret dev hu hmret
  have hsymbols : (iteration dev true u).2.symbols = s.symbols :=
    hrsymbols.trans (husymbols.trans hentry.2)
  have hprofiled : (iteration dev true u).2.profiler.profilingEnabled = true := by rw [hresumed, hu]
  have hentryIn : RecordedIn s.symbols h ((rvStep dev n s).2.recorded dev) := recordedIn_pc dev hh
  have hresumedIn : RecordedIn s.symbols f ((iteration dev true u).2.recorded dev) :=
    recordedIn_pc dev (by rw [hrpc, hmepc, hf])
  have hquietIn : RecordedIn s.symbols f (s.recordedQuiet dev) := by
    intro r hr
    unfold State.recordedQuiet at hr
    split_ifs at hr
    exact recordedIn_pc dev (s := s.quiet) hf r hr
  unfold Undistorted
  dsimp only
  rw [quiet_profiler dev hdispatch.1 hs, iteration_recordAll dev hentered,
    iteration_recordAll dev hprofiled, hsymbols, hentry.2, hentry.1, hresumed,
    growsWithin_iff hs hs hentryIn hquietIn, growsWithin_iff hu hs hresumedIn hquietIn]
  refine and_congr (forall_congr' fun _ => ?_) (forall_congr' fun _ => and_congr ?_ ?_)
  · constructor
    · rintro ⟨-, hedges⟩ k hedge hcaller
      -- this edge ends in the handler, the other one in `f`
      have hcallee := edgeAt_callee (hedges k (.inl hcaller) hedge).2
      exact hother ((edgeAt_callee hedge).symm.trans hcallee)
    · intro hedges
      refine ⟨fun hname => absurd hname hother, fun k hk hedge => ?_⟩
      rcases hk with hcaller | hcallee
      · exact absurd hcaller (hedges k hedge)
      · exact absurd ((edgeAt_callee hedge).symm.trans hcallee) hother
  · exact ⟨fun hcall => hcall rfl, fun hcall _ => hcall⟩
  · exact forall_congr' fun k =>
      ⟨fun hk hedge => hk (.inr (edgeAt_callee hedge)) hedge, fun hk _ hedge => hk hedge⟩

/-- `f` points `mtvec` behind itself, at the handler, and enables interrupts. -/
def handlerProgram (handler : List Word) : State Unit :=
  { State.booted
      ([0x01C00093, 0x30509073, 0x00800093, 0x3000A073, 0x13, 0x13, 0x13] ++ handler) with
    symbols := [⟨0, 28, ⟨1, [0x66]⟩⟩, ⟨28, 8, ⟨2, [0x68]⟩⟩] }.profiled

/-- Five instructions into `f`, the timer interrupt is raised. -/
def State.raised (s : State Unit) : State Unit := rvSetIrq 0x80 (rvStep herveStubs 5 s).2

/-- The handler is an MRET alone, which nobody sees. -/
theorem undistorted_mret :
    let s := (handlerProgram [0x30200073]).raised
    Undistorted herveStubs 1 s (rvStep herveStubs 1 s).2 ⟨1, [0x66]⟩ := by
  intro s
  have hentered : Executed herveStubs [.step 1] (rvStep herveStubs 1 s).2
      (rvStep herveStubs 1 s).2 :=
    ⟨[], 1, List.prefix_rfl, ⟨by decide, by decide, by decide, by decide⟩, .here⟩
  refine (undistorted_iff herveStubs (h := ⟨2, [0x68]⟩) ?_).2 ⟨?_, fun _ => ⟨?_, ?_⟩⟩
  · exact ⟨by decide, ⟨by decide, by decide, by decide⟩, by decide, by decide, by decide,
      ⟨[.step 1], hentered⟩, ⟨⟨by decide, by decide⟩, by decide⟩, by decide⟩
  · exact fun hsome => absurd hsome (by decide)
  · exact fun hcalls => absurd hcalls (by decide)
  · intro k hedge
    have hnone : (rvStep herveStubs 1 s).2.profiler.edgeAt ⟨1, [0x66]⟩ = none := by decide
    rw [hnone] at hedge
    cases hedge

/-- After `nop; mret` the resumed function counts as called once more. -/
theorem not_undistorted_nop :
    let s := (handlerProgram [0x00000013, 0x30200073]).raised
    let u := runCalls herveStubs [.step 1, .step 1] s
    Interruption herveStubs 1 s u ⟨1, [0x66]⟩ ⟨2, [0x68]⟩ ∧
      ¬ Undistorted herveStubs 1 s u ⟨1, [0x66]⟩ := by
  intro s u
  have hexecuted : Executed herveStubs [.step 1, .step 1] (rvStep herveStubs 1 s).2 u :=
    ⟨[.step 1], 1, List.prefix_rfl, ⟨by decide, by decide, by decide, by decide⟩, .here⟩
  constructor
  · exact ⟨by decide, ⟨by decide, by decide, by decide⟩, by decide, by decide, by decide,
      ⟨_, hexecuted⟩, ⟨⟨by decide, by decide⟩, by decide⟩, by decide⟩
  · exact fun h => absurd h.2.calls (by decide)

end Herve
