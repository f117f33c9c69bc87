import Herve.Run.Iteration

/-! The guest and the host array. `valid_memory_access` adds in 32 bits, so an access that
runs over the top of the address space passes the check and leaves the array; these are
the only ones that do. -/

namespace Herve
open RiscV AppendLog

variable {δ : Type} (dev : Device δ)

def Event.InBounds (size : ℕ) : Event → Prop
  | .host true index width => ∀ k < width, index + k < size
  | _ => True

/-- The access does not wrap around `2 ^ 32` to pass the check. -/
def NoWrap (b : Bus δ) (addr : Word) (w : ℕ) : Prop :=
  ¬ (b.memoryBase ≤ addr ∧ 2 ^ 32 ≤ (addr - b.memoryBase).toNat + w ∧
    (addr - b.memoryBase).toNat + w - 2 ^ 32 ≤ b.memorySize.toNat)

section
variable {b : Bus δ} {addr : Word} {w : ℕ}

theorem validMemoryAccess_iff (hw : w ≤ 4) :
    b.validMemoryAccess addr (BitVec.ofNat 32 w) = true ↔
      b.memoryBase ≤ addr ∧
        ((addr - b.memoryBase).toNat + w) % 2 ^ 32 ≤ b.memorySize.toNat := by
  have hsum : (addr - b.memoryBase + BitVec.ofNat 32 w).toNat =
      ((addr - b.memoryBase).toNat + w) % 2 ^ 32 := by
    rw [BitVec.toNat_add, BitVec.toNat_ofNat, Nat.mod_eq_of_lt (by omega : w < 2 ^ 32)]
  rw [Bus.validMemoryAccess_eq_true, BitVec.le_def (y := b.memorySize), hsum]

theorem inBounds_iff (hw : 0 < w) (hw' : w ≤ 4)
    (hv : b.validMemoryAccess addr (BitVec.ofNat 32 w) = true) :
    (∀ k < w, (addr - b.memoryBase).toNat + k < b.memorySize.toNat) ↔ NoWrap b addr w := by
  obtain ⟨hbase, hsize⟩ := (validMemoryAccess_iff hw').1 hv
  have hindex := (addr - b.memoryBase).isLt
  have hlast : (∀ k < w, (addr - b.memoryBase).toNat + k < b.memorySize.toNat) ↔
      (addr - b.memoryBase).toNat + w ≤ b.memorySize.toNat := by
    constructor
    · intro h
      have := h (w - 1) (by omega)
      omega
    · intro h k hk
      omega
  rw [hlast, NoWrap]
  by_cases hwrap : 2 ^ 32 ≤ (addr - b.memoryBase).toNat + w
  · have hmod : ((addr - b.memoryBase).toNat + w) % 2 ^ 32 =
        (addr - b.memoryBase).toNat + w - 2 ^ 32 := by
      rw [Nat.mod_eq_sub_mod hwrap, Nat.mod_eq_of_lt (by omega)]
    rw [hmod] at hsize
    refine iff_of_false (by omega) (not_not_intro ⟨hbase, hwrap, hsize⟩)
  · rw [Nat.mod_eq_of_lt (by omega)] at hsize
    exact iff_of_true hsize fun h => hwrap h.2.1

theorem noWrap_of_unguarded (hw : w ≤ 4)
    (h : isHtifAddress addr = true ∨ isMmioAddress addr = true ∨
      b.validMemoryAccess addr (BitVec.ofNat 32 w) = false) : NoWrap b addr w := by
  rintro ⟨hbase, hwrap, hsize⟩
  rcases h with h | h | h
  · rw [isHtifAddress_iff] at h
    bv_omega
  · rw [isMmioAddress_iff] at h
    bv_omega
  · have hindex := (addr - b.memoryBase).isLt
    have hv : b.validMemoryAccess addr (BitVec.ofNat 32 w) = true := by
      rw [validMemoryAccess_iff hw]
      refine ⟨hbase, ?_⟩
      rw [Nat.mod_eq_sub_mod hwrap, Nat.mod_eq_of_lt (by omega)]
      exact hsize
    rw [hv] at h
    exact Bool.noConfusion h

end

/-! ## Accesses, iterations, calls -/

theorem Access.inBounds_iff {b b' : Bus δ} {addr : Word} {w : ℕ} (h : Access dev b b' addr w)
    (hw : 0 < w) (hw' : w ≤ 4) :
    Extends (Event.InBounds b.memorySize.toNat) b.trace b'.trace ↔ NoWrap b addr w := by
  cases h with
  | guarded hvalid hstep hmem =>
    rw [← Herve.inBounds_iff hw hw' hvalid]
    constructor
    · exact fun h => (h.iff_forall_drop.1 h) _ hmem
    · exact fun h => hstep.trace.mono fun e he => he ▸ h
  | unguarded haddr hstep =>
    refine iff_of_true (hstep.trace.mono fun e he => ?_) (noWrap_of_unguarded hw' haddr)
    cases e with
    | host guarded index width =>
      cases guarded
      · trivial
      · exact he.elim
    | _ => trivial

/-- The condition on the state an iteration starts in: neither its fetch nor its data access
wraps. -/
def AccessesFit (t : State δ) : Prop :=
  t.CanFetch → NoWrap t.toBus t.pc 4 ∧
    ∀ addr w, t.dataAccess dev = some (addr, w) → NoWrap t.toBus addr w

theorem Arm.access_width {a : Arm} {addr : Word} {w : ℕ} (h : a.access = some (addr, w)) :
    0 < w ∧ w ≤ 4 := by
  cases a with
  | load op rd addr' =>
    obtain ⟨rfl, rfl⟩ := Prod.mk.inj (Option.some.inj h)
    cases op <;> decide
  | store op rs2 addr' =>
    obtain ⟨rfl, rfl⟩ := Prod.mk.inj (Option.some.inj h)
    cases op <;> decide
  | _ => exact absurd h (by simp [Arm.access])

theorem dataAccess_width {t : State δ} {addr : Word} {w : ℕ}
    (h : t.dataAccess dev = some (addr, w)) : 0 < w ∧ w ≤ 4 := by
  unfold State.dataAccess at h
  split_ifs at h
  · exact Arm.access_width h
  · exact Arm.access_width h

theorem Touches.inBounds_iff {b b' : Bus δ} {access : Option (Word × ℕ)}
    (h : Touches dev access b b')
    (hw : ∀ addr w, access = some (addr, w) → 0 < w ∧ w ≤ 4) :
    Extends (Event.InBounds b.memorySize.toNat) b.trace b'.trace ↔
      ∀ addr w, access = some (addr, w) → NoWrap b addr w := by
  cases access with
  | none => exact iff_of_true (h ▸ .refl _ _) (fun _ _ h => nomatch h)
  | some aw =>
    obtain ⟨addr, w⟩ := aw
    obtain ⟨hpos, hle⟩ := hw addr w rfl
    rw [Access.inBounds_iff dev h hpos hle]
    constructor
    · rintro h addr' w' heq
      cases heq
      exact h
    · exact fun h => h addr w rfl

theorem iteration_inBounds_iff (profiled : Bool) (t : State δ) :
    Extends (Event.InBounds t.memorySize.toNat) t.trace (iteration dev profiled t).2.trace ↔
      AccessesFit dev t := by
  by_cases hf : t.CanFetch
  · obtain ⟨b, htouch, hend⟩ := iteration_touches dev profiled hf
    have hfetch : Access dev t.toBus (t.fetched dev).toBus t.pc 4 := Access.readU32 _ _
    have hbus := hfetch.isBus
    have hsplit : Extends (Event.InBounds t.memorySize.toNat) t.trace b.trace ↔
        AccessesFit dev t := by
      have hdata := htouch.inBounds_iff dev fun addr w => dataAccess_width dev
      rw [hbus.memorySize] at hdata
      rw [Extends.trans_iff hbus.trace htouch.isBus.trace, hfetch.inBounds_iff dev (by decide)
        (by decide), hdata]
      unfold AccessesFit NoWrap
      rw [hbus.memorySize, hbus.memoryBase]
      exact ⟨fun h _ => h, fun h => h hf⟩
    rw [← hsplit]
    rcases hend with ⟨hend, _⟩ | ⟨insn, hend, _⟩
    · rw [hend]
    · have htrace : (iteration dev profiled t).2.trace =
          b.trace ++ [.retire insn (iteration dev profiled t).2.mie] := congrArg Bus.trace hend
      generalize (iteration dev profiled t).2.mie = mie at htrace
      rw [htrace]
      refine ⟨fun h => ?_, fun h => h.append trivial⟩
      have hlog : Extends (fun _ => True) b.trace (b.trace ++ [.retire insn mie]) :=
        (Extends.refl _ _).append trivial
      have hpre : Extends (fun _ => True) t.trace b.trace :=
        (hbus.trace.trans htouch.isBus.trace).mono fun _ _ => trivial
      exact ((Extends.trans_iff hpre hlog).1 h).1
  · rw [iteration_stop dev profiled hf]
    exact iff_of_true (.refl _ _) fun h => absurd h hf

/-- Every checked access of a call stays in the host array exactly when no iteration of its
loop wraps. -/
theorem sandbox_iff (n : ℤ) (s : State δ) :
    (∀ e ∈ newEvents s.toBus (rvStep dev n s).2.toBus, e.InBounds s.memorySize.toNat) ↔
      ∀ t, Iterates dev n s t → AccessesFit dev t := by
  by_cases hr : s.Runs n
  -- the size of RAM is that of `s` throughout, and the log goes on from its log
  · let J (t : State δ) : Prop :=
      t.memorySize = s.memorySize ∧ Extends (fun _ => True) s.trace t.trace
    have hJ : ∀ t, J t → J (iteration dev s.profiler.profilingEnabled t).2 := by
      rintro t ⟨hsize, hlog⟩
      have hstep := iteration_step dev s.profiler.profilingEnabled (s := t)
      exact ⟨hstep.memorySize.trans hsize, hlog.trans (hstep.trace.mono fun _ _ => trivial)⟩
    have hkeep : ∀ t, J t → Extends (Event.InBounds s.memorySize.toNat) s.trace t.trace →
        (Extends (Event.InBounds s.memorySize.toNat) s.trace
          (iteration dev s.profiler.profilingEnabled t).2.trace ↔ AccessesFit dev t) := by
      rintro t ⟨hsize, hlog⟩ ht
      have hstep := iteration_step dev s.profiler.profilingEnabled (s := t)
      rw [Extends.trans_iff hlog hstep.trace, ← hsize, iteration_inBounds_iff]
      rw [hsize]
      exact and_iff_right ht
    have hlost : ∀ t, J t →
        Extends (Event.InBounds s.memorySize.toNat) s.trace
          (iteration dev s.profiler.profilingEnabled t).2.trace →
        Extends (Event.InBounds s.memorySize.toNat) s.trace t.trace := by
      rintro t ⟨_, hlog⟩ ht
      have hstep := iteration_step dev s.profiler.profilingEnabled (s := t)
      exact ((Extends.trans_iff hlog hstep.trace).1 ht).1
    have hstart : J s := ⟨rfl, .refl _ _⟩
    have hloop := BreakLoop.loop_iff_visits hJ hkeep hlost hstart (.refl _ _) n.toNat
    have hend : J (BreakLoop.loop (iteration dev s.profiler.profilingEnabled) n.toNat s).2 :=
      BreakLoop.loop_invariant hJ hstart n.toNat
    rw [rvStep_run dev hr, newEvents, ← hend.2.iff_forall_drop, hloop]
    exact ⟨fun h t ht => h t ht.2, fun h t ht => h t ⟨hr, ht⟩⟩
  · refine iff_of_true ?_ fun t ht => absurd ht.1 hr
    by_cases hd : s.Dispatches n
    · rw [rvStep_dispatch dev hd, newEvents_of_append rfl]
      intro e he
      rw [List.mem_singleton.1 he]
      trivial
    · rw [rvStep_idle dev hd hr, newEvents_of_append (List.append_nil _).symm]
      exact fun e he => absurd he List.not_mem_nil

/-- `lb x1, -1(x0)` with RAM at address zero reads the byte before the end of the address
space, far outside sixteen bytes. -/
theorem not_sandbox_lb :
    ¬ ∀ e ∈ newEvents
        { State.holding (Instr.load .lb 1 0 0xfff).encode with memoryBase := 0, pc := 0 }.toBus
        (rvStep herveStubs 1 { State.holding (Instr.load .lb 1 0 0xfff).encode with
          memoryBase := 0, pc := 0 }).2.toBus,
      e.InBounds 16 := by
  intro h
  have hindex := h (.host true 4294967295 1) (by decide) 0 (by decide)
  exact absurd hindex (by decide)

end Herve
