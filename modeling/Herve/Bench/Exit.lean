import Herve.Bench.Htif
import Herve.Run.Halt
import Herve.Run.Stop

/-! The end of a benchmark. The emulator keeps the word that the guest stores to `tohost` in a
register of its own and the runner looks for it in RAM, so that the runner sees an exit only if
RAM holds the same word already. -/

namespace Herve
open RiscV (Byte Word Reg fromBytes)

variable {δ : Type} (dev : Device δ)

/-! ## The store that ends the guest -/

def State.StoresTohost (v : Word) (s : State δ) : Prop :=
  s.CanFetch ∧ ∃ rs2, s.regs rs2 = v ∧
    if IsCompressed (s.fetchedInsn dev) then s.compressedArm dev = .store .sw rs2 tohostAddr
    else opcode (s.fetchedInsn dev) ≠ 0x73#32 ∧
      (decodeInstruction (s.fetchedInsn dev) s.regs s.pc).2 = .store .sw rs2 tohostAddr

theorem writeU32_exit (b : Bus δ) {v : Word} (hv : v &&& 1 ≠ 0) :
    (b.writeU32 dev tohostAddr v).htifHalted = true ∧
      (b.writeU32 dev tohostAddr v).memory = b.memory := by
  have hne : v ≠ 0 := by
    rintro rfl
    exact hv (BitVec.zero_and)
  have hwrite : b.writeU32 dev tohostAddr v =
      (if v ≠ 0 then Bus.htifProcessRequest { b with htifTohostLo := v }
        else { b with htifTohostLo := v }) := rfl
  rw [hwrite, if_pos hne, Bus.htifProcessRequest, if_pos hv]
  exact ⟨rfl, rfl⟩

theorem readU32_memory (b : Bus δ) (addr : Word) : (b.readU32 dev addr).2.memory = b.memory := by
  unfold Bus.readU32
  split_ifs <;> rfl

theorem iteration_storesTohost (profiled : Bool) {s : State δ} {v : Word} (hv : v &&& 1 ≠ 0)
    (h : s.StoresTohost dev v) :
    (iteration dev profiled s).1 = true ∧ (iteration dev profiled s).2.htifHalted = true ∧
      (iteration dev profiled s).2.memory = s.memory := by
  obtain ⟨hf, rs2, hreg, harm⟩ := h
  have hstore := writeU32_exit dev (s.fetched dev).toBus hv
  have hmemory : (s.fetched dev).memory = s.memory := readU32_memory dev s.toBus s.pc
  have hrun : ∀ nextPc, ((Arm.store .sw rs2 tohostAddr).run dev nextPc (s.fetched dev).toCore).2 =
      { (s.fetched dev).toCore with
        toBus := (s.fetched dev).toBus.writeU32 dev tohostAddr v, pc := nextPc } := by
    intro nextPc
    rw [← hreg]
    rfl
  by_cases hc : IsCompressed (s.fetchedInsn dev)
  · rw [if_pos hc] at harm
    rcases iteration_compressed dev profiled hf hc with ⟨ha, _⟩ | ⟨_, p, hiter⟩
    · rw [harm] at ha
      cases ha
    · rw [harm, hrun] at hiter
      rw [hiter]
      refine ⟨rfl, ?_, ?_⟩
      · exact (congrArg Bus.htifHalted (stepPast_toBus s.pc _)).trans hstore.1
      · exact (congrArg Bus.memory (stepPast_toBus s.pc _)).trans (hstore.2.trans hmemory)
  · rw [if_neg hc] at harm
    obtain ⟨p, hexec⟩ := executeInstruction_core dev harm.1 (s.fetched dev)
    have hdecode : (decodeInstruction (s.fetchedInsn dev) (s.fetched dev).regs
        (s.fetched dev).pc).2 = .store .sw rs2 tohostAddr := harm.2
    rw [hdecode, hrun] at hexec
    rw [iteration_base dev profiled hf hc, stepBase, hexec]
    exact ⟨rfl, hstore.1, hstore.2.trans hmemory⟩

/-- The call of `rv_step` in which the guest exits: it executes something, the emulator is halted
and RAM is as it was at the store. -/
theorem rvStep_storesTohost {n : ℤ} {s t : State δ} {v : Word} (hv : v &&& 1 ≠ 0)
    (ht : Iterates dev n s t) (hstore : t.StoresTohost dev v) :
    0 < (rvStep dev n s).1 ∧ (rvStep dev n s).2.htifHalted = true ∧
      (rvStep dev n s).2.memory = t.memory := by
  obtain ⟨hgo, hhalted, hmemory⟩ :=
    iteration_storesTohost dev s.profiler.profilingEnabled hv hstore
  have hkeep : ∀ u : State δ, u.htifHalted = true ∧ u.memory = t.memory →
      (iteration dev s.profiler.profilingEnabled u).2.htifHalted = true ∧
        (iteration dev s.profiler.profilingEnabled u).2.memory = t.memory := by
    rintro u ⟨hu, hum⟩
    rw [iteration_stop dev _ fun hf => Bool.false_ne_true (hf.1.symm.trans hu)]
    exact ⟨hu, hum⟩
  rw [rvStep_run dev ht.1]
  exact ⟨BreakLoop.loop_pos_of_visits ht.2 hgo,
    BreakLoop.loop_invariant_from
      (I := fun u : State δ => u.htifHalted = true ∧ u.memory = t.memory)
      hkeep ht.2 ⟨hhalted, hmemory⟩⟩

theorem rvStep_halted_memory {n : ℤ} {s : State δ} (h : s.htifHalted = true) :
    (rvStep dev n s).2.htifHalted = true ∧ (rvStep dev n s).2.memory = s.memory := by
  by_cases hd : s.Dispatches n
  · rw [rvStep_dispatch dev hd]
    exact ⟨h, rfl⟩
  · rw [rvStep_halted dev h hd]
    exact ⟨h, rfl⟩

/-! ## What the runner reads -/

/-- RAM holds the exit word for `c`, its upper half up to bits that the runner drops. -/
structure HoldsExit (c : ℕ) (memory : ℕ → Byte) : Prop where
  low : (ramWord memory tohostAddr.toNat).toNat = 2 * c + 1
  high : (ramWord memory (tohostAddr.toNat + 4)).toNat % 2 = 0

theorem tohost_toNat (memory : ℕ → Byte) :
    (tohost memory).toNat = (ramWord memory (tohostAddr.toNat + 4)).toNat * 2 ^ 32 +
      (ramWord memory tohostAddr.toNat).toNat := by
  rw [tohost, BitVec.toNat_append, ← Nat.shiftLeft_add_eq_or_of_lt (BitVec.isLt _),
    Nat.shiftLeft_eq]

theorem and_one_ne_zero_iff (v : BitVec 64) : v &&& 1 ≠ 0 ↔ v.toNat % 2 = 1 := by
  have hand : (v &&& 1).toNat = v.toNat % 2 := by
    rw [BitVec.toNat_and]
    exact Nat.and_one_is_mod _
  rw [Ne, ← BitVec.toNat_inj, hand]
  show ¬ v.toNat % 2 = 0 ↔ _
  omega

/-- An odd `tohost` is an exit: its bits from 1 on, as an `int`. -/
theorem handleHtif_odd {s : State δ} (h : (tohost s.memory).toNat % 2 = 1) :
    handleHtif s = (((tohost s.memory >>> 1).setWidth 32).toInt, s) := by
  have hne : tohost s.memory ≠ 0 := by
    intro h0
    rw [h0] at h
    exact absurd h (by decide)
  rw [handleHtif, if_neg (by decide)]
  dsimp only
  rw [if_neg hne, if_pos ((and_one_ne_zero_iff _).2 h)]

theorem tohost_cleared (memory : ℕ → Byte) :
    tohost (copyBytes tohostAddr.toNat (programBytes [0, 0]) memory) = 0 := by
  have hbyte : ∀ k < 8,
      copyBytes tohostAddr.toNat (programBytes [0, 0]) memory (tohostAddr.toNat + k) = 0 := by
    intro k hk
    rw [copyBytes, if_pos ⟨Nat.le_add_right _ _, Nat.add_lt_add_left hk _⟩, Nat.add_sub_cancel_left]
    interval_cases k <;> rfl
  have hword : ∀ i, (∀ k < 4, copyBytes tohostAddr.toNat (programBytes [0, 0]) memory (i + k) = 0) →
      ramWord (copyBytes tohostAddr.toNat (programBytes [0, 0]) memory) i = 0 := by
    intro i hi
    exact (RiscV.fromBytes_congr hi).trans (by decide)
  rw [tohost, hword _ fun k hk => hbyte k (by omega), hword _ fun k hk => ?_]
  · rfl
  · rw [Nat.add_assoc]
    exact hbyte (4 + k) (by omega)

/-- Any other `tohost` is none, and afterwards it is even still. -/
theorem handleHtif_even {s : State δ} (h : (tohost s.memory).toNat % 2 = 0) :
    (handleHtif s).1 = -1 ∧ (handleHtif s).2.htifHalted = s.htifHalted ∧
      (tohost (handleHtif s).2.memory).toNat % 2 = 0 := by
  have hbit : ¬ (tohost s.memory &&& 1 ≠ 0) := fun hbit => by
    rw [(and_one_ne_zero_iff _).1 hbit] at h
    exact absurd h (by decide)
  rw [handleHtif, if_neg (by decide)]
  dsimp only
  by_cases h0 : tohost s.memory = 0
  · rw [if_pos h0]
    exact ⟨rfl, rfl, h⟩
  · rw [if_neg h0, if_neg hbit]
    refine ⟨rfl, ?_, ?_⟩
    · split_ifs <;> rfl
    · rw [tohost_cleared]
      rfl

/-- The runner reads `c` exactly if RAM holds the exit word for it. -/
theorem handleHtif_eq_iff {s : State δ} {c : ℕ} (hc : c < 2 ^ 30) :
    (handleHtif s).1 = c ↔ HoldsExit c s.memory := by
  have hsplit := tohost_toNat s.memory
  have hlow := (ramWord s.memory tohostAddr.toNat).isLt
  have hhigh := (ramWord s.memory (tohostAddr.toNat + 4)).isLt
  rcases Nat.mod_two_eq_zero_or_one (tohost s.memory).toNat with heven | hodd
  · rw [(handleHtif_even heven).1]
    refine iff_of_false (by omega) fun h => ?_
    have := h.low
    omega
  · have hshift : ((tohost s.memory >>> 1).setWidth 32).toNat =
        (tohost s.memory).toNat / 2 % 2 ^ 32 := by
      rw [BitVec.toNat_setWidth, BitVec.toNat_ushiftRight, Nat.shiftRight_eq_div_pow, pow_one]
    rw [handleHtif_odd hodd, BitVec.toInt_eq_toNat_cond, hshift]
    constructor
    · intro h
      split_ifs at h
      · exact ⟨by omega, by omega⟩
      · omega
    · rintro ⟨h₁, h₂⟩
      rw [if_pos (by omega)]
      omega

theorem handleHtif_congr {s t : State δ} (h : s.memory = t.memory) :
    (handleHtif s).1 = (handleHtif t).1 := by
  rcases Nat.mod_two_eq_zero_or_one (tohost s.memory).toNat with heven | hodd
  · rw [(handleHtif_even heven).1, (handleHtif_even (h ▸ heven)).1]
  · rw [handleHtif_odd hodd, handleHtif_odd (h ▸ hodd), h]

theorem handleHtif_again {s : State δ} (h : (handleHtif s).1 < 0) :
    (handleHtif s).2.htifHalted = s.htifHalted ∧ (handleHtif (handleHtif s).2).1 < 0 := by
  rcases Nat.mod_two_eq_zero_or_one (tohost s.memory).toNat with heven | hodd
  · obtain ⟨-, hhalted, heven'⟩ := handleHtif_even heven
    rw [(handleHtif_even heven').1]
    exact ⟨hhalted, by decide⟩
  · rw [handleHtif_odd hodd] at h ⊢
    exact ⟨rfl, by rwa [handleHtif_odd hodd]⟩

/-! ## The loop of the runner -/

variable {r : HtifLoop δ}

theorem htifBody_done (h : ¬ r.totalExecuted < maxInstructions) : htifBody dev r = (false, r) :=
  if_neg h

theorem htifBody_batch (h : r.totalExecuted < maxInstructions) :
    (htifBody dev r).2.exitCode = (handleHtif (rvStep dev 1000 r.state).2).1 ∧
      (htifBody dev r).2.state = (handleHtif (rvStep dev 1000 r.state).2).2 ∧
      (0 ≤ (handleHtif (rvStep dev 1000 r.state).2).1 → (htifBody dev r).1 = false) := by
  rw [htifBody, if_pos h]
  dsimp only
  split_ifs with hnone hexit
  · exact ⟨rfl, rfl, fun _ => rfl⟩
  · exact ⟨rfl, rfl, fun _ => rfl⟩
  · exact ⟨rfl, rfl, fun _ => rfl⟩
  · exact ⟨rfl, rfl, fun hexit' => absurd hexit' hexit⟩
  · exact ⟨rfl, rfl, fun hexit' => absurd hexit' hexit⟩

theorem htifBody_total : r.totalExecuted ≤ (htifBody dev r).2.totalExecuted ∧
    ((htifBody dev r).1 = true → r.totalExecuted < (htifBody dev r).2.totalExecuted) := by
  by_cases h : r.totalExecuted < maxInstructions
  · have hgrows : (rvStep dev 1000 r.state).1 ≠ 0 →
        r.totalExecuted < r.totalExecuted + (rvStep dev 1000 r.state).1 := fun hsome =>
      Nat.lt_add_of_pos_right (Nat.pos_of_ne_zero hsome)
    rw [htifBody, if_pos h]
    dsimp only
    split_ifs with hnone
    · exact ⟨le_rfl, fun hgo => hgo.elim⟩
    all_goals exact ⟨(hgrows hnone).le, fun _ => hgrows hnone⟩
  · rw [htifBody_done dev h]
    exact ⟨le_rfl, fun hgo => Bool.noConfusion hgo⟩

theorem htifLoop_total (n : ℕ) (r : HtifLoop δ) :
    r.totalExecuted + (BreakLoop.loop (htifBody dev) n r).1 ≤
      (BreakLoop.loop (htifBody dev) n r).2.totalExecuted := by
  induction n generalizing r with
  | zero => exact le_rfl
  | succ n ih =>
    obtain ⟨hle, hlt⟩ := htifBody_total dev (r := r)
    cases hb : (htifBody dev r).1 with
    | true =>
      have hrest := ih (htifBody dev r).2
      have hfirst := hlt hb
      rw [BreakLoop.loop_succ_true hb]
      dsimp only
      omega
    | false =>
      rw [BreakLoop.loop_succ_false hb]
      exact hle

/-- The loop ends by its own conditions: more iterations change nothing. -/
theorem htifLoop_ends (r : HtifLoop δ) (n : ℕ) :
    (BreakLoop.loop (htifBody dev) (maxInstructions + n) r).2 = htifLoop dev r := by
  rcases @BreakLoop.loop_add _ (htifBody dev) maxInstructions n r with
    ⟨_, hcount, hloop⟩ | ⟨t, _, _, _, hloop⟩
  · have hdone := htifLoop_total dev maxInstructions r
    rw [hcount] at hdone
    have hbody := htifBody_done dev (r := htifLoop dev r) (by
      rw [htifLoop]
      omega)
    rw [hloop]
    cases n with
    | zero => rfl
    | succ n =>
      show (BreakLoop.loop (htifBody dev) (n + 1) (htifLoop dev r)).2 = _
      rw [BreakLoop.loop_succ_false (by rw [hbody]), hbody]
  · rw [hloop]
    rfl

/-- The emulator is halted and the runner does not see why. -/
structure HtifLoop.Missed (r : HtifLoop δ) : Prop where
  exitCode : r.exitCode < 0
  halted : r.state.htifHalted = true
  unseen : (handleHtif r.state).1 < 0

theorem missed_of_halted {s : State δ} (hcode : r.exitCode = (handleHtif s).1)
    (hstate : r.state = (handleHtif s).2) (hhalted : s.htifHalted = true)
    (hunseen : (handleHtif s).1 < 0) : r.Missed := by
  obtain ⟨hkeeps, hagain⟩ := handleHtif_again hunseen
  exact ⟨hcode ▸ hunseen, by rw [hstate, hkeeps, hhalted], hstate ▸ hagain⟩

theorem missed_body (h : r.Missed) : (htifBody dev r).2.Missed := by
  by_cases hlimit : r.totalExecuted < maxInstructions
  · obtain ⟨hcode, hstate, -⟩ := htifBody_batch dev hlimit
    obtain ⟨hhalted, hmemory⟩ := rvStep_halted_memory dev (n := 1000) h.halted
    exact missed_of_halted hcode hstate hhalted ((handleHtif_congr hmemory).trans_lt h.unseen)
  · rw [htifBody_done dev hlimit]
    exact h

theorem verdict_missed (h : r.Missed) : (htifVerdict r).2.exitCode = -1 := by
  rw [htifVerdict, if_neg (not_le.2 h.exitCode)]
  split_ifs with hlimit hstale
  · rfl
  · rfl
  · dsimp only
    rw [if_neg (not_le.2 h.unseen)]

theorem verdict_exit (h : 0 ≤ r.exitCode) :
    (htifVerdict r).2.exitCode = r.exitCode ∧
      ((htifVerdict r).2.passed = true ↔ r.exitCode = 0) := by
  rw [htifVerdict, if_pos h, exitResult]
  split_ifs with hzero
  · exact ⟨rfl, iff_of_true rfl hzero⟩
  · exact ⟨rfl, iff_of_false id hzero⟩

/-! ## The exit of the guest and the verdict of the runner -/

/-- `(c << 1) | 1` -/
def exitWord (c : ℕ) : Word := BitVec.ofNat 32 c <<< 1 ||| 1

theorem exitWord_odd (c : ℕ) : exitWord c &&& 1 ≠ 0 := by
  intro h
  have hbit : (exitWord c &&& 1).getLsbD 0 = true := by simp [exitWord]
  rw [h] at hbit
  exact absurd hbit (by decide)

/-- The runner's loop ends, and it reports the exit with code `c`. -/
structure ReportsExit (host : ℤ → Byte) (elfData : List Byte) (s : State (Fin 64 → Word)) (c : ℕ) :
    Prop where
  ends : ∀ n, (BreakLoop.loop (htifBody mmioRegion) (maxInstructions + n)
    (htifStart host elfData s).2).2 = htifLoop mmioRegion (htifStart host elfData s).2
  exitCode : (runHtifBenchmark host elfData s).2.exitCode = c
  passed : (runHtifBenchmark host elfData s).2.passed = true ↔ c = 0

theorem runHtifBenchmark_entered {host : ℤ → Byte} {elfData : List Byte}
    {s : State (Fin 64 → Word)} (hentry : (htifStart host elfData s).1 ≠ 0) :
    (runHtifBenchmark host elfData s).2 =
      (htifVerdict (htifLoop mmioRegion (htifStart host elfData s).2)).2 := by
  rw [runHtifBenchmark]
  exact congrArg Prod.snd (if_neg hentry)

/-- A batch leaves the emulator halted and RAM without an exit word: the runner never sees one. -/
theorem exitCode_of_unseen {host : ℤ → Byte} {elfData : List Byte} {s : State (Fin 64 → Word)}
    {r : HtifLoop (Fin 64 → Word)} (hentry : (htifStart host elfData s).1 ≠ 0)
    (hcall : BreakLoop.Visits (htifBody mmioRegion) maxInstructions (htifStart host elfData s).2 r)
    (hlimit : r.totalExecuted < maxInstructions)
    (hhalted : (rvStep mmioRegion 1000 r.state).2.htifHalted = true)
    (hunseen : (handleHtif (rvStep mmioRegion 1000 r.state).2).1 < 0) :
    (runHtifBenchmark host elfData s).2.exitCode = -1 := by
  obtain ⟨hcode, hstate, -⟩ := htifBody_batch mmioRegion hlimit
  have hmissed : (htifLoop mmioRegion (htifStart host elfData s).2).Missed :=
    BreakLoop.loop_invariant_from (I := HtifLoop.Missed) (fun _ => missed_body mmioRegion) hcall
      (missed_of_halted hcode hstate hhalted hunseen)
  rw [runHtifBenchmark_entered hentry]
  exact verdict_missed hmissed

/-- A guest stores the exit word for `c` in a batch of the runner: the runner reports it exactly
if RAM holds that word before the store. -/
theorem reportsExit_iff {host : ℤ → Byte} {elfData : List Byte} {s : State (Fin 64 → Word)} {c : ℕ}
    {r : HtifLoop (Fin 64 → Word)} {t : State (Fin 64 → Word)} (hc : c < 2 ^ 30)
    (hentry : (htifStart host elfData s).1 ≠ 0)
    (hcall : BreakLoop.Visits (htifBody mmioRegion) maxInstructions (htifStart host elfData s).2 r)
    (hlimit : r.totalExecuted < maxInstructions) (ht : Iterates mmioRegion 1000 r.state t)
    (hstore : t.StoresTohost mmioRegion (exitWord c)) :
    ReportsExit host elfData s c ↔ HoldsExit c t.memory := by
  have hrun := runHtifBenchmark_entered hentry
  obtain ⟨-, hhalted, hmemory⟩ := rvStep_storesTohost mmioRegion (exitWord_odd c) ht hstore
  obtain ⟨hcode, -, hbreak⟩ := htifBody_batch mmioRegion hlimit
  rw [← hmemory, ← handleHtif_eq_iff hc]
  rcases le_or_gt 0 (handleHtif (rvStep mmioRegion 1000 r.state).2).1 with hexit | hunseen
  · -- the runner takes what RAM holds for an exit
    have hend : htifLoop mmioRegion (htifStart host elfData s).2 = (htifBody mmioRegion r).2 :=
      BreakLoop.loop_of_visits_false hcall (hbreak hexit)
    obtain ⟨hresult, hpassed⟩ := verdict_exit (hcode ▸ hexit)
    rw [← hend, ← hrun] at hresult hpassed
    rw [hend, hcode] at hresult hpassed
    constructor
    · exact fun h => hresult.symm.trans h.exitCode
    · intro h
      refine ⟨htifLoop_ends mmioRegion _, hresult.trans h, hpassed.trans ?_⟩
      rw [h]
      exact Int.natCast_eq_zero
  · -- it sees none, and none ever after
    have hresult := exitCode_of_unseen hentry hcall hlimit hhalted hunseen
    refine iff_of_false (fun h => ?_) fun h => by omega
    have hexitCode := hresult.symm.trans h.exitCode
    omega

/-- `lui x1, 0x80001; addi x2, x0, 1; sw x2, 0(x1)`, and `data` at `tohost`. -/
def exitFile (data : List Byte) : List Byte :=
  elfFile 0x80000000 [⟨1, 116, 0x80000000, 12, 12⟩,
      ⟨1, 128, tohostAddr, BitVec.ofNat 32 data.length, BitVec.ofNat 32 data.length⟩]
    (programBytes [0x800010B7, 0x00100113, 0x0020A023] ++ data)

def exitStart (data : List Byte) : HtifLoop (Fin 64 → Word) :=
  (htifStart (fun _ => 0) (exitFile data) htifRunner).2

def exitStore (data : List Byte) : State (Fin 64 → Word) :=
  (iteration mmioRegion false (iteration mmioRegion false (exitStart data).state).2).2

theorem exitStore_visited {data : List Byte}
    (hoff : (exitStart data).state.profiler.profilingEnabled = false)
    (hruns : (exitStart data).state.Runs 1000)
    (h₁ : (iteration mmioRegion false (exitStart data).state).1 = true)
    (h₂ : (iteration mmioRegion false (iteration mmioRegion false (exitStart data).state).2).1 =
      true) :
    Iterates mmioRegion 1000 (exitStart data).state (exitStore data) := by
  refine ⟨hruns, ?_⟩
  rw [hoff]
  exact .next (n := 999) h₁ (.next (n := 998) h₂ (.here (n := 997)))

set_option maxRecDepth 20000 in
theorem reportsExit_preset :
    ReportsExit (fun _ => 0) (exitFile [1, 0, 0, 0]) htifRunner 0 := by
  have hcall : BreakLoop.Visits (htifBody mmioRegion) maxInstructions
      (htifStart (fun _ => 0) (exitFile [1, 0, 0, 0]) htifRunner).2 (exitStart [1, 0, 0, 0]) :=
    BreakLoop.Visits.here (n := 499999999)
  have hvisit : Iterates mmioRegion 1000 (exitStart [1, 0, 0, 0]).state (exitStore [1, 0, 0, 0]) :=
    exitStore_visited (by decide) ⟨by decide, by decide, by decide, by decide⟩ (by decide)
      (by decide)
  refine (reportsExit_iff (by decide) (by decide) hcall (by decide) hvisit ?_).2 ⟨?_, ?_⟩
  · exact ⟨⟨by decide, by decide⟩, 2, by decide, by decide⟩
  · decide
  · decide

set_option maxRecDepth 20000 in
/-- The same program with nothing at `tohost`. -/
theorem not_reportsExit_fresh :
    (htifStart (fun _ => 0) (exitFile []) htifRunner).1 ≠ 0 ∧
      BreakLoop.Visits (htifBody mmioRegion) maxInstructions
        (htifStart (fun _ => 0) (exitFile []) htifRunner).2 (exitStart []) ∧
      (exitStart []).totalExecuted < maxInstructions ∧
      Iterates mmioRegion 1000 (exitStart []).state (exitStore []) ∧
      (exitStore []).StoresTohost mmioRegion (exitWord 0) ∧
      (runHtifBenchmark (fun _ => 0) (exitFile []) htifRunner).2.exitCode = -1 ∧
      ¬ ReportsExit (fun _ => 0) (exitFile []) htifRunner 0 := by
  have hentry : (htifStart (fun _ => 0) (exitFile []) htifRunner).1 ≠ 0 := by decide
  have hcall : BreakLoop.Visits (htifBody mmioRegion) maxInstructions
      (htifStart (fun _ => 0) (exitFile []) htifRunner).2 (exitStart []) :=
    BreakLoop.Visits.here (n := 499999999)
  have hlimit : (exitStart []).totalExecuted < maxInstructions := by decide
  have hvisit : Iterates mmioRegion 1000 (exitStart []).state (exitStore []) :=
    exitStore_visited (by decide) ⟨by decide, by decide, by decide, by decide⟩ (by decide)
      (by decide)
  have hstore : (exitStore []).StoresTohost mmioRegion (exitWord 0) :=
    ⟨⟨by decide, by decide⟩, 2, by decide, by decide⟩
  obtain ⟨-, hhalted, hmemory⟩ := rvStep_storesTohost mmioRegion (exitWord_odd 0) hvisit hstore
  have hunseen : (handleHtif (rvStep mmioRegion 1000 (exitStart []).state).2).1 < 0 := by
    rw [handleHtif_congr hmemory]
    decide
  have hresult := exitCode_of_unseen hentry hcall hlimit hhalted hunseen
  refine ⟨hentry, hcall, hlimit, hvisit, hstore, hresult, fun h => ?_⟩
  exact absurd (hresult.symm.trans h.exitCode) (by decide)

end Herve
