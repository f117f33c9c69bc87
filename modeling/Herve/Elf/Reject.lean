import Herve.Elf.InitSafety

/-! What `rv_init_elf` leaves behind when it does not load a file. The HTIF registers are written
between the tests of the header and the search for segments. -/

namespace Herve
open RiscV (Byte Word)

variable {δ : Type} {file : Option (List Byte)} {f : List Byte} {ramSize : ℕ}
  {block : Option (ℕ → Byte)} {heap : ℕ → List Byte} {s : State δ}

/-- There is no file to open, or it fails a test. -/
def Rejected (file : Option (List Byte)) : Prop := ∀ f ∈ file, ¬ InitAccepted f

structure HeaderPasses (file : List Byte) : Prop where
  size : Elf32Ehdr.size ≤ file.length
  accepted : (fileHeader file).accepted = true

structure State.HtifIdle (s : State δ) : Prop where
  tohostLo : s.htifTohostLo = 0
  tohostHi : s.htifTohostHi = 0
  fromhostLo : s.htifFromhostLo = 0
  fromhostHi : s.htifFromhostHi = 0
  exit : s.htifExit = false
  exitCode : s.htifExitCode = 0
  halted : s.htifHalted = false

theorem State.htifIdle_htifReset (s : State δ) : s.htifReset.HtifIdle :=
  ⟨rfl, rfl, rfl, rfl, rfl, rfl, rfl⟩

theorem State.htifReset_eq_iff : s.htifReset = s ↔ s.HtifIdle := by
  constructor
  · intro h
    rw [← h]
    exact s.htifIdle_htifReset
  · rintro ⟨htl, hth, hfl, hfh, hexit, hcode, hhalted⟩
    rcases s with ⟨⟨⟨⟩⟩⟩
    cases htl; cases hth; cases hfl; cases hfh; cases hexit; cases hcode; cases hhalted
    rfl

/-! ## The ways out of `rv_init_elf` -/

theorem rvInitElf_header_rejected (h : ∀ f ∈ file, ¬ HeaderPasses f) :
    (rvInitElf file ramSize block heap s).value = (0, s) := by
  cases file with
  | none => rfl
  | some f =>
    unfold rvInitElf
    dsimp only
    split_ifs with hsize haccepted
    · rfl
    · rfl
    · exact absurd ⟨not_lt.1 hsize, by simpa using haccepted⟩ (h f rfl)
    · exact absurd ⟨not_lt.1 hsize, by simpa using haccepted⟩ (h f rfl)

theorem HeaderPasses.rvInitElf (h : HeaderPasses f) (hrejected : ¬ InitAccepted f) :
    (rvInitElf (some f) ramSize block heap s).value = (0, s.htifReset) := by
  have haddr : maxAddr (loadPhdrs f (fileHeader f)) ≤ minAddr (loadPhdrs f (fileHeader f)) :=
    BitVec.not_lt.1 fun hlt => hrejected ⟨h.size, h.accepted, hlt⟩
  unfold Herve.rvInitElf
  dsimp only
  rw [if_neg (not_lt.2 h.size), h.accepted, if_neg (by decide), if_pos haddr]

theorem InitAccepted.rvInitElf_none (h : InitAccepted f) :
    (rvInitElf (some f) ramSize none heap s).value = (0, s.htifReset.unallocated) := by
  unfold Herve.rvInitElf
  dsimp only
  rw [if_neg (not_lt.2 h.size), h.accepted, if_neg (by decide), if_neg (BitVec.not_le.2 h.loadable)]

theorem InitAccepted.rvInitElf_symbols (h : InitAccepted f) (ramSize : ℕ) (block : ℕ → Byte)
    (heap : ℕ → List Byte) (s : State δ) :
    ∃ accesses, (rvInitElf (some f) ramSize (some block) heap s).value.2.symbols =
      (loadSymbols f heap (fileHeader f) ⟨s.symbols, accesses⟩).value := by
  unfold Herve.rvInitElf
  dsimp only
  rw [if_neg (not_lt.2 h.size), h.accepted, if_neg (by decide), if_neg (BitVec.not_le.2 h.loadable)]
  exact ⟨_, rfl⟩

/-! ## A failed load -/

theorem Rejected.value (h : Rejected file) :
    (rvInitElf file ramSize block heap s).value = (0, s) ∨
      (rvInitElf file ramSize block heap s).value = (0, s.htifReset) := by
  cases file with
  | none => exact .inl rfl
  | some f =>
    by_cases hheader : HeaderPasses f
    · exact .inr (hheader.rvInitElf (h f rfl))
    · exact .inl (rvInitElf_header_rejected fun g hg => Option.mem_some.1 hg ▸ hheader)

/-- A file that is rejected leaves everything as it was, except that one without a segment still
resets the HTIF registers. -/
theorem rvInitElf_unchanged_iff (h : Rejected file) :
    (rvInitElf file ramSize block heap s).value = (0, s) ↔
      (∀ f ∈ file, ¬ HeaderPasses f) ∨ s.HtifIdle := by
  by_cases hheader : ∀ f ∈ file, ¬ HeaderPasses f
  · exact iff_of_true (rvInitElf_header_rejected hheader) (.inl hheader)
  · rw [or_iff_right hheader, ← State.htifReset_eq_iff]
    cases file with
    | none => exact absurd (fun f hf => nomatch hf) hheader
    | some f =>
      have haccepted : HeaderPasses f := by
        by_contra hnot
        exact hheader fun g hg => Option.mem_some.1 hg ▸ hnot
      rw [haccepted.rvInitElf (h f rfl), Prod.mk.injEq]
      exact and_iff_right rfl

theorem rejected_bare : Rejected (some (elfFile 0x80000000 [] [])) := by
  intro f hf haccepted
  rw [← Option.mem_some.1 hf] at haccepted
  exact absurd haccepted.loadable (by decide)

theorem rvInitElf_unchanged_bare :
    (rvInitElf (some (elfFile 0x80000000 [] [])) 0 none (fun _ => []) (State.start ())).value =
      (0, State.start ()) :=
  (rvInitElf_unchanged_iff rejected_bare).2 (.inr ⟨rfl, rfl, rfl, rfl, rfl, rfl, rfl⟩)

/-- A halted program goes on after a load that fails. -/
theorem rvInitElf_wakes_halted :
    let s : State Unit := { State.start () with htifHalted := true }
    let file := some (elfFile 0x80000000 [] [])
    Rejected file ∧ (rvInitElf file 0 none (fun _ => []) s).value.1 = 0 ∧
      (rvInitElf file 0 none (fun _ => []) s).value.2.htifHalted = false :=
  ⟨rejected_bare, by decide, by decide⟩

end Herve
