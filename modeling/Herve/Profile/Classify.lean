import Herve.Profile.Retired
import Herve.Run.Aligned
import Herve.Run.Fetch

/-! The profiler's classification of jumps against what the executor does with the same word.
Both decode the word on their own. -/

namespace Herve
open RiscV

variable {δ : Type} (dev : Device δ)

namespace Parcel

def length : Parcel → Word
  | compressed _ => 2
  | base _ => 4

/-- `execute_compressed` or `execute_instruction`. -/
def execute (s : State δ) : Parcel → Bool × State δ
  | compressed cInsn =>
    let (ok, c) := executeCompressed dev cInsn s.toCore
    (ok, { s with toCore := c })
  | base insn => executeInstruction dev insn s

/-- Where the executor sends the pc, if it does not leave that to its common exit. A jump to the
next instruction is still a jump. -/
def target (s : State δ) : Parcel → Option Word
  | compressed cInsn => (decodeCompressed cInsn s.regs s.pc).target
  | base insn =>
    if opcode insn = 0x73#32 then if insn = 0x30200073#32 then some s.csrMepc else none
    else (decodeInstruction insn s.regs s.pc).2.target

/-- A conditional branch: C.BEQZ, C.BNEZ or BRANCH. -/
def IsBranch : Parcel → Prop
  | compressed cInsn =>
    let i : Word := cInsn.setWidth 32
    i &&& 0x3#32 = 1 ∧ (((i >>> 13) &&& 0x7#32 = 6) ∨ ((i >>> 13) &&& 0x7#32 = 7))
  | base insn => opcode insn = 0x63#32

variable (δ) in
/-- Whatever the state, the executor sends the pc somewhere, and not on a condition. -/
def IsJump (p : Parcel) : Prop := ¬ p.IsBranch ∧ ∀ s : State δ, (p.target s).isSome

/-- A jump that writes the address of the next instruction to a register other than `x0`. -/
def IsCall (p : Parcel) : Prop :=
  p.IsJump δ ∧ ∃ r : Reg, r ≠ 0 ∧
    ∀ s : State δ, (p.execute dev s).2.regs = Function.update s.regs r (s.pc + p.length)

/-- A jump whose target depends on `ra` and that writes no register. -/
def IsReturn (p : Parcel) : Prop :=
  p.IsJump δ ∧ (∀ s : State δ, (p.execute dev s).2.regs = s.regs) ∧
    ∃ (s : State δ) (v : Word), p.target { s with regs := Function.update s.regs 1 v } ≠ p.target s

/-- Where the common exit leaves the pc; the loops step past a 16-bit instruction. -/
def exitPc (pc : Word) : Parcel → Word
  | compressed _ => pc
  | base _ => pc + 4

theorem execute_pc {p : Parcel} {s : State δ} (h : (p.execute dev s).1 = true) :
    (p.execute dev s).2.pc = (p.target s).getD (p.exitPc s.pc) := by
  cases p with
  | compressed cInsn =>
    have hne : decodeCompressed cInsn s.regs s.pc ≠ .fail := by
      intro hfail
      rw [execute, executeCompressed, hfail] at h
      exact Bool.false_ne_true h
    exact Arm.run_pc dev s.pc s.toCore hne
  | base insn =>
    rw [target]
    by_cases hsys : opcode insn = 0x73#32
    · rw [if_pos hsys]
      rw [execute, executeInstruction, if_pos hsys, executeSystem] at h ⊢
      have hretire : ∀ (u : State δ) type, (u.retire type (s.pc + 4) insn).2.pc = s.pc + 4 := by
        intro u type
        obtain ⟨p, hp⟩ := retire_profiler u type (s.pc + 4) insn
        rw [hp]
      split_ifs at h ⊢ with hf3 htrap hmret hawake hmret' <;> first
        | exact absurd h Bool.false_ne_true
        | rfl
        | exact hretire _ _
        | exact absurd (by rw [hmret']; decide) hf3
    · rw [if_neg hsys]
      obtain ⟨q, hq⟩ := executeInstruction_core dev hsys s
      rw [execute, hq]
      exact Arm.run_pc dev (s.pc + 4) s.toCore (decodeInstruction_ne_fail insn s.regs s.pc)

/-! ## The four kinds -/

/-- What the executor does with a parcel of each class. -/
inductive Kind (p : Parcel) : CfType → Prop
  | call (r : Reg) (f : State δ → Word) : ¬ p.IsBranch → (∀ s, p.target s = some (f s)) → r ≠ 0 →
      (∀ s, (p.execute dev s).2.regs = Function.update s.regs r (s.pc + p.length)) → Kind p .call
  | ret (f : Word → Word) : ¬ p.IsBranch → (∀ s : State δ, p.target s = some (f (s.regs 1))) →
      (∃ v w, f v ≠ f w) → (∀ s, (p.execute dev s).2.regs = s.regs) → Kind p .ret
  | jump (f : State δ → Word) : ¬ p.IsBranch → (∀ s, p.target s = some (f s)) →
      (∀ s v, f { s with regs := Function.update s.regs 1 v } = f s) →
      (∀ s, (p.execute dev s).2.regs = s.regs) → Kind p .jump
  | none : p.IsBranch ∨ (∀ s : State δ, p.target s = .none) → Kind p .none

variable {dev} {p : Parcel}

theorem isJump_of_target {f : State δ → Word} (hb : ¬ p.IsBranch)
    (ht : ∀ s, p.target s = some (f s)) : p.IsJump δ :=
  ⟨hb, fun s => by rw [ht]; rfl⟩

/-- What leaves all registers alone does not write a return address. -/
theorem not_isCall_of_keeps (s : State δ) (h : ∀ s : State δ, (p.execute dev s).2.regs = s.regs) :
    ¬ p.IsCall dev := by
  rintro ⟨-, r, -, hcall⟩
  let t : State δ := { s with regs := fun _ => 0, pc := 0 }
  have hboth := congrFun ((hcall t).symm.trans (h t)) r
  rw [Function.update_self] at hboth
  cases p with
  | compressed cInsn => exact absurd hboth (by show ¬ (0#32 + 2#32 = 0#32); decide)
  | base insn => exact absurd hboth (by show ¬ (0#32 + 4#32 = 0#32); decide)

theorem Kind.classes {cf : CfType} (s : State δ) (h : p.Kind dev cf) :
    (cf = .call ↔ p.IsCall dev) ∧ (cf = .ret ↔ p.IsReturn dev) ∧
      (cf = .jump ↔ p.IsJump δ ∧ ¬ p.IsCall dev ∧ ¬ p.IsReturn dev) ∧
      (cf = .none ↔ ¬ p.IsJump δ) := by
  cases h with
  | call r f hb ht hr hregs =>
    have hjump := isJump_of_target hb ht
    have hcall : p.IsCall dev := ⟨hjump, r, hr, hregs⟩
    have hreturn : ¬ p.IsReturn dev := fun h => not_isCall_of_keeps s h.2.1 hcall
    simp [hjump, hcall, hreturn]
  | ret f hb ht hf hregs =>
    have hjump := isJump_of_target hb ht
    obtain ⟨v, w, hvw⟩ := hf
    have hreturn : p.IsReturn dev := by
      refine ⟨hjump, hregs, { s with regs := fun _ => w }, v, ?_⟩
      rw [ht, ht]
      exact fun h => hvw (Option.some.inj h)
    have hcall := not_isCall_of_keeps s hregs
    simp [hjump, hcall, hreturn]
  | jump f hb ht hf hregs =>
    have hjump := isJump_of_target hb ht
    have hreturn : ¬ p.IsReturn dev := by
      rintro ⟨-, -, t, v, hne⟩
      rw [ht, ht, hf] at hne
      exact hne rfl
    have hcall := not_isCall_of_keeps s hregs
    simp [hjump, hcall, hreturn]
  | none h =>
    have hjump : ¬ p.IsJump δ := by
      rintro ⟨hb, ht⟩
      rcases h with h | h
      · exact hb h
      · have hsome := ht s
        rw [h] at hsome
        exact Bool.false_ne_true hsome
    have hcall : ¬ p.IsCall dev := fun h => hjump h.1
    have hreturn : ¬ p.IsReturn dev := fun h => hjump h.1
    simp [hjump, hcall, hreturn]

/-! ## 32-bit instructions -/

/-- A field of five bits, which the executor takes for a register and the profiler for a number. -/
theorem field5_eq_iff (x : Word) {k : ℕ} (hk : k < 32) :
    (x &&& 0x1f#32).setWidth 5 = BitVec.ofNat 5 k ↔ (x &&& 0x1f#32).toNat = k := by
  have hx := toNat_and_lt x 31 (by decide)
  rw [← BitVec.toNat_inj, BitVec.toNat_setWidth, BitVec.toNat_ofNat]
  omega

theorem decodeInstruction_target {insn : Word} (hbranch : opcode insn ≠ 0x63#32)
    (hjal : opcode insn ≠ 0x6f#32) (hjalr : opcode insn ≠ 0x67#32) (regs : Reg → Word)
    (pc : Word) : (decodeInstruction insn regs pc).2.target = none := by
  unfold decodeInstruction
  dsimp only
  split
  · split_ifs
    · rfl
    · rfl
    · exact writeResult_target _ _
  · exact writeResult_target _ _
  · exact loadArm_target _ _ _
  · exact storeArm_target _ _ _
  · exact absurd (BitVec.eq_of_toNat_eq ‹_›) hbranch
  · exact absurd (BitVec.eq_of_toNat_eq ‹_›) hjal
  · exact absurd (BitVec.eq_of_toNat_eq ‹_›) hjalr
  all_goals rfl

theorem classifyInsn32_eq (insn : Word) :
    classifyInsn32 insn =
      if opcode insn = 0x6f#32 then if rd insn ≠ 0 then .call else .jump
      else if opcode insn = 0x67#32 then
        if rd insn ≠ 0 then .call else if rs1 insn = 1 then .ret else .jump
      else .none := by
  have hrd : (insn >>> 7) &&& 0x1f#32 = 0 ↔ rd insn = 0 :=
    BitVec.toNat_inj.symm.trans (field5_eq_iff (insn >>> 7) (k := 0) (by decide)).symm
  have hrs1 : (insn >>> 15) &&& 0x1f#32 = 1 ↔ rs1 insn = 1 :=
    BitVec.toNat_inj.symm.trans (field5_eq_iff (insn >>> 15) (k := 1) (by decide)).symm
  refine if_congr Iff.rfl (if_congr hrd.not rfl rfl) (if_congr Iff.rfl ?_ rfl)
  exact if_congr hrd.not rfl (if_congr hrs1 rfl rfl)

section Link
variable {insn : Word} {f : State δ → Word}

structure Links (dev : Device δ) (insn : Word) (f : State δ → Word) : Prop where
  branch : ¬ (base insn).IsBranch
  target : ∀ s, (base insn).target s = some (f s)
  regs : ∀ s, ((base insn).execute dev s).2.regs = writeReg (rd insn) (s.pc + 4) s.regs

theorem links_of_arm (dev : Device δ) (hsys : opcode insn ≠ 0x73#32) (hb : opcode insn ≠ 0x63#32)
    (harm : ∀ s : State δ, (decodeInstruction insn s.regs s.pc).2 =
      .link (rd insn) (s.pc + 4) (f s)) : Links dev insn f where
  branch := hb
  target s := by
    rw [Parcel.target, if_neg hsys, harm]
    rfl
  regs s := by
    obtain ⟨p, hp⟩ := executeInstruction_core dev hsys s
    rw [execute, hp, harm]
    rfl

theorem Links.call (h : Links dev insn f) (hr : rd insn ≠ 0) : (base insn).Kind dev .call := by
  refine .call (rd insn) f h.branch h.target hr fun s => ?_
  rw [h.regs]
  exact if_pos hr

theorem Links.keeps (h : Links dev insn f) (hr : rd insn = 0) (s : State δ) :
    ((base insn).execute dev s).2.regs = s.regs := by
  rw [h.regs, hr]
  exact if_neg (not_not.2 rfl)

end Link

theorem kind_jal (dev : Device δ) {insn : Word} (hop : opcode insn = 0x6f#32) :
    (base insn).Kind dev (if rd insn ≠ 0 then .call else .jump) := by
  have hlinks : Links dev insn fun s => s.pc + immJ insn := by
    refine links_of_arm dev (by rw [hop]; decide) (by rw [hop]; decide) fun s => ?_
    unfold decodeInstruction
    rw [hop]
    rfl
  split_ifs with hr
  · exact hlinks.call hr
  · exact .jump _ hlinks.branch hlinks.target (fun _ _ => rfl) (hlinks.keeps (not_not.1 hr))

theorem kind_jalr (dev : Device δ) {insn : Word} (hop : opcode insn = 0x67#32) :
    (base insn).Kind dev
      (if rd insn ≠ 0 then .call else if rs1 insn = 1 then .ret else .jump) := by
  have hlinks : Links dev insn fun s => (s.regs (rs1 insn) + immI insn) &&& ~~~1#32 := by
    refine links_of_arm dev (by rw [hop]; decide) (by rw [hop]; decide) fun s => ?_
    unfold decodeInstruction
    rw [hop]
    rfl
  split_ifs with hr hra
  · exact hlinks.call hr
  · have ht := hlinks.target
    rw [hra] at ht
    refine .ret (fun v => (v + immI insn) &&& ~~~1#32) hlinks.branch ht ?_
      (hlinks.keeps (not_not.1 hr))
    exact ⟨-immI insn, 2 - immI insn, by simp⟩
  · refine .jump _ hlinks.branch hlinks.target (fun s v => ?_) (hlinks.keeps (not_not.1 hr))
    show (Function.update s.regs 1 v (rs1 insn) + _) &&& _ = _
    rw [Function.update_of_ne hra]

theorem kind_base (dev : Device δ) {insn : Word} (hmret : insn ≠ 0x30200073#32) :
    (base insn).Kind dev (classifyInsn32 insn) := by
  rw [classifyInsn32_eq]
  by_cases hjal : opcode insn = 0x6f#32
  · rw [if_pos hjal]
    exact kind_jal dev hjal
  by_cases hjalr : opcode insn = 0x67#32
  · rw [if_neg hjal, if_pos hjalr]
    exact kind_jalr dev hjalr
  rw [if_neg hjal, if_neg hjalr]
  by_cases hbranch : opcode insn = 0x63#32
  · exact .none (.inl hbranch)
  · refine .none (.inr fun s => ?_)
    rw [target]
    split_ifs
    · rfl
    · exact decodeInstruction_target hbranch hjal hjalr s.regs s.pc

/-! ## 16-bit instructions -/

/-- A field of a halfword, as the profiler cuts it out and from the word the executor promotes it
to. -/
theorem field16_eq_iff (insn : BitVec 16) (k : ℕ) {m v : ℕ} (hm : m < 2 ^ 16) (hv : v < 2 ^ 16) :
    (insn >>> k) &&& BitVec.ofNat 16 m = BitVec.ofNat 16 v ↔
      (((insn.setWidth 32 : Word) >>> k) &&& BitVec.ofNat 32 m).toNat = v := by
  have hinsn := insn.isLt
  rw [← BitVec.toNat_inj, BitVec.toNat_and, BitVec.toNat_and, BitVec.toNat_ushiftRight,
    BitVec.toNat_ushiftRight, BitVec.toNat_setWidth, BitVec.toNat_ofNat, BitVec.toNat_ofNat,
    BitVec.toNat_ofNat, Nat.mod_eq_of_lt hm, Nat.mod_eq_of_lt hv,
    Nat.mod_eq_of_lt (hm.trans (by decide)), Nat.mod_eq_of_lt (hinsn.trans (by decide))]

theorem classifyInsn16_eq (insn : BitVec 16) :
    let i : Word := insn.setWidth 32
    classifyInsn16 insn =
      if (i &&& 0x3#32).toNat = 1 then
        if ((i >>> 13) &&& 0x7#32).toNat = 1 then .call
        else if ((i >>> 13) &&& 0x7#32).toNat = 5 then .jump
        else .none
      else if (i &&& 0x3#32).toNat = 2 then
        if ((i >>> 12) &&& 0xf#32).toNat = 8 ∧ rs2CR i = 0 then
          if rdCI i = 1 then .ret else .jump
        else if ((i >>> 12) &&& 0xf#32).toNat = 9 ∧ rs2CR i = 0 then .call
        else .none
      else .none := by
  intro i
  have hq : ∀ v < 2 ^ 16, insn &&& 0x3#16 = BitVec.ofNat 16 v ↔ (i &&& 0x3#32).toNat = v :=
    fun v hv => field16_eq_iff insn 0 (by decide) hv
  have hf3 : ∀ v < 2 ^ 16, (insn >>> 13) &&& 0x7#16 = BitVec.ofNat 16 v ↔
      ((i >>> 13) &&& 0x7#32).toNat = v := fun v hv => field16_eq_iff insn 13 (by decide) hv
  have hf4 : ∀ v < 2 ^ 16, (insn >>> 12) &&& 0xf#16 = BitVec.ofNat 16 v ↔
      ((i >>> 12) &&& 0xf#32).toNat = v := fun v hv => field16_eq_iff insn 12 (by decide) hv
  have hrs2 : (insn >>> 2) &&& 0x1f#16 = 0 ↔ rs2CR i = 0 :=
    (field16_eq_iff insn 2 (by decide) (by decide)).trans
      (field5_eq_iff (i >>> 2) (k := 0) (by decide)).symm
  have hrs1 : (insn >>> 7) &&& 0x1f#16 = 1 ↔ rdCI i = 1 :=
    (field16_eq_iff insn 7 (by decide) (by decide)).trans
      (field5_eq_iff (i >>> 7) (k := 1) (by decide)).symm
  refine if_congr (hq 1 (by decide)) ?_ (if_congr (hq 2 (by decide)) ?_ rfl)
  · exact if_congr (hf3 1 (by decide)) rfl (if_congr (hf3 5 (by decide)) rfl rfl)
  · refine if_congr (and_congr (hf4 8 (by decide)) hrs2) (if_congr hrs1 rfl rfl) ?_
    exact if_congr (and_congr (hf4 9 (by decide)) hrs2) rfl rfl

/-! ### The arms of the executor -/

theorem decodeQuadrant1_target_none {i : Word} (hcall : ((i >>> 13) &&& 0x7#32).toNat ≠ 1)
    (hjump : ((i >>> 13) &&& 0x7#32).toNat ≠ 5) (hbeqz : ((i >>> 13) &&& 0x7#32).toNat ≠ 6)
    (hbnez : ((i >>> 13) &&& 0x7#32).toNat ≠ 7) (regs : Reg → Word) (pc : Word) :
    (decodeQuadrant1 i regs pc).target = none := by
  rw [decodeQuadrant1_target]
  split
  · exact absurd ‹_› hcall
  · exact absurd ‹_› hjump
  · exact absurd ‹_› hbeqz
  · exact absurd ‹_› hbnez
  · rfl

theorem funct3_of_funct4 (i : Word) :
    ((i >>> 13) &&& 0x7#32).toNat = ((i >>> 12) &&& 0xf#32).toNat / 2 := by
  have hand : ∀ k n, (((i >>> k) &&& BitVec.ofNat 32 (2 ^ n - 1)).toNat =
      i.toNat / 2 ^ k % 2 ^ n) ∨ 32 < n := by
    intro k n
    rcases Nat.lt_or_ge 32 n with hn | hn
    · exact .inr hn
    · refine .inl ?_
      have hpow : 2 ^ n - 1 < 2 ^ 32 :=
        (Nat.sub_lt (Nat.two_pow_pos n) one_pos).trans_le (Nat.pow_le_pow_right (by decide) hn)
      rw [BitVec.toNat_and, BitVec.toNat_ushiftRight, BitVec.toNat_ofNat, Nat.mod_eq_of_lt hpow,
        Nat.and_two_pow_sub_one_eq_mod, Nat.shiftRight_eq_div_pow]
  have h3 := (hand 13 3).resolve_right (by decide)
  have h4 := (hand 12 4).resolve_right (by decide)
  show (i >>> 13 &&& BitVec.ofNat 32 (2 ^ 3 - 1)).toNat =
    (i >>> 12 &&& BitVec.ofNat 32 (2 ^ 4 - 1)).toNat / 2
  rw [h3, h4]
  omega

theorem decodeQuadrant2_target_none {i : Word}
    (h : ((i >>> 13) &&& 0x7#32).toNat = 4 → rs2CR i ≠ 0) (regs : Reg → Word) (pc : Word) :
    (decodeQuadrant2 i regs pc).target = none := by
  rw [decodeQuadrant2_target]
  split
  · exact if_neg fun hcr => h ‹_› hcr.1
  · rfl

/-! ### The kinds -/

theorem setPc_effect (dev : Device δ) {insn : BitVec 16} {f : (Reg → Word) → Word → Word}
    (harm : ∀ regs pc, decodeCompressed insn regs pc = .setPc (f regs pc)) :
    (∀ s : State δ, (compressed insn).target s = some (f s.regs s.pc)) ∧
      ∀ s, ((compressed insn).execute dev s).2.regs = s.regs := by
  refine ⟨fun s => ?_, fun s => ?_⟩
  · rw [target, harm]
    rfl
  · rw [execute, executeCompressed, harm]
    rfl

theorem kind_link (dev : Device δ) {insn : BitVec 16} {f : (Reg → Word) → Word → Word}
    (hb : ¬ (compressed insn).IsBranch)
    (harm : ∀ regs pc, decodeCompressed insn regs pc = .link 1 (pc + 2) (f regs pc)) :
    (compressed insn).Kind dev .call := by
  refine .call 1 (fun s => f s.regs s.pc) hb (fun s => ?_) (by decide) fun s => ?_
  · rw [target, harm]
    rfl
  · rw [execute, executeCompressed, harm]
    rfl

theorem kind_quadrant1 (dev : Device δ) {insn : BitVec 16}
    (hq : ((insn.setWidth 32 : Word) &&& 0x3#32).toNat = 1) :
    (compressed insn).Kind dev (classifyInsn16 insn) := by
  have hdecode : ∀ regs pc, decodeCompressed insn regs pc =
      decodeQuadrant1 (insn.setWidth 32) regs pc := by
    intro regs pc
    unfold decodeCompressed
    dsimp only
    rw [hq]
    rfl
  have hbranch : (compressed insn).IsBranch ↔
      (((insn.setWidth 32 : Word) >>> 13) &&& 0x7#32).toNat = 6 ∨
        (((insn.setWidth 32 : Word) >>> 13) &&& 0x7#32).toNat = 7 := by
    refine (and_iff_right (BitVec.eq_of_toNat_eq hq)).trans ?_
    exact or_congr BitVec.toNat_inj.symm BitVec.toNat_inj.symm
  rw [classifyInsn16_eq, if_pos hq]
  by_cases hcall : (((insn.setWidth 32 : Word) >>> 13) &&& 0x7#32).toNat = 1
  · rw [if_pos hcall]
    refine kind_link dev (f := fun _ pc => pc + offsetCJ (insn.setWidth 32))
      (by rw [hbranch, hcall]; decide) fun regs pc => ?_
    rw [hdecode, decodeQuadrant1, hcall]
    rfl
  by_cases hjump : (((insn.setWidth 32 : Word) >>> 13) &&& 0x7#32).toNat = 5
  · obtain ⟨ht, hregs⟩ := setPc_effect dev (f := fun _ pc => pc + offsetCJ (insn.setWidth 32))
      fun regs pc => by
        rw [hdecode, decodeQuadrant1, hjump]
        rfl
    rw [if_neg hcall, if_pos hjump]
    exact .jump _ (by rw [hbranch, hjump]; decide) ht (fun _ _ => rfl) hregs
  rw [if_neg hcall, if_neg hjump]
  by_cases hb : (compressed insn).IsBranch
  · exact .none (.inl hb)
  · rw [hbranch, not_or] at hb
    refine .none (.inr fun s => ?_)
    rw [target, hdecode]
    exact decodeQuadrant1_target_none hcall hjump hb.1 hb.2 s.regs s.pc

section CR
variable {insn : BitVec 16} (hb : ¬ (compressed insn).IsBranch)
  (h : ∃ regs pc, decodeCompressed insn regs pc ≠ .fail)
include hb h

theorem kind_cjr (dev : Device δ) {r : Reg} (harm : ∀ regs pc, decodeCompressed insn regs pc =
      if r = 0 then .fail else .setPc (regs r)) :
    (compressed insn).Kind dev (if r = 1 then .ret else .jump) := by
  have hr : r ≠ 0 := by
    intro hr
    obtain ⟨regs, pc, hne⟩ := h
    exact hne ((harm regs pc).trans (if_pos hr))
  obtain ⟨ht, hregs⟩ := setPc_effect dev (f := fun regs _ => regs r) fun regs pc =>
    (harm regs pc).trans (if_neg hr)
  split_ifs with hra
  · rw [hra] at ht
    exact .ret id hb ht ⟨0, 1, by decide⟩ hregs
  · exact .jump _ hb ht (fun s v => Function.update_of_ne hra _ _) hregs

theorem kind_cjalr (dev : Device δ) {r q : Reg} (harm : ∀ regs pc,
      decodeCompressed insn regs pc =
        if q = 0 ∧ r = 0 then .fail else .link 1 (pc + 2) (writeReg 1 (pc + 2) regs r)) :
    (compressed insn).Kind dev .call := by
  have hlegal : ¬ (q = 0 ∧ r = 0) := by
    intro hr
    obtain ⟨regs, pc, hne⟩ := h
    exact hne ((harm regs pc).trans (if_pos hr))
  exact kind_link dev hb fun regs pc => (harm regs pc).trans (if_neg hlegal)

end CR

theorem kind_quadrant2 (dev : Device δ) {insn : BitVec 16}
    (hq : ((insn.setWidth 32 : Word) &&& 0x3#32).toNat = 2)
    (h : ∃ regs pc, decodeCompressed insn regs pc ≠ .fail) :
    (compressed insn).Kind dev (classifyInsn16 insn) := by
  have hdecode : ∀ regs pc, decodeCompressed insn regs pc =
      decodeQuadrant2 (insn.setWidth 32) regs pc := by
    intro regs pc
    unfold decodeCompressed
    dsimp only
    rw [hq]
    rfl
  have hb : ¬ (compressed insn).IsBranch := by
    rintro ⟨hq', -⟩
    exact absurd (hq.symm.trans (congrArg BitVec.toNat hq')) (by decide)
  have hf3 := funct3_of_funct4 (insn.setWidth 32)
  have hq1 : ¬ ((insn.setWidth 32 : Word) &&& 0x3#32).toNat = 1 := by
    rw [hq]
    decide
  rw [classifyInsn16_eq, if_neg hq1, if_pos hq]
  by_cases hrs2 : rs2CR (insn.setWidth 32) = 0
  · by_cases hjr : (((insn.setWidth 32 : Word) >>> 12) &&& 0xf#32).toNat = 8
    · rw [if_pos ⟨hjr, hrs2⟩]
      refine kind_cjr hb h dev fun regs pc => ?_
      rw [hdecode, decodeQuadrant2_cr (by rw [hf3, hjr]), if_pos hjr, if_pos hrs2]
    rw [if_neg fun hboth => hjr hboth.1]
    by_cases hjalr : (((insn.setWidth 32 : Word) >>> 12) &&& 0xf#32).toNat = 9
    · rw [if_pos ⟨hjalr, hrs2⟩]
      refine kind_cjalr hb h dev (r := rdCI (insn.setWidth 32)) (q := rs2CR (insn.setWidth 32))
        fun regs pc => ?_
      rw [hdecode, decodeQuadrant2_cr (by rw [hf3, hjalr]), if_neg hjr, if_pos hrs2]
    · rw [if_neg fun hboth => hjalr hboth.1]
      refine .none (.inr fun s => ?_)
      rw [target, hdecode]
      refine decodeQuadrant2_target_none (fun h4 => ?_) s.regs s.pc
      omega
  · rw [if_neg fun hboth => hrs2 hboth.2, if_neg fun hboth => hrs2 hboth.2]
    refine .none (.inr fun s => ?_)
    rw [target, hdecode]
    exact decodeQuadrant2_target_none (fun _ => hrs2) s.regs s.pc

theorem kind_compressed (dev : Device δ) {insn : BitVec 16}
    (h : ∃ regs pc, decodeCompressed insn regs pc ≠ .fail) :
    (compressed insn).Kind dev (classifyInsn16 insn) := by
  by_cases h1 : ((insn.setWidth 32 : Word) &&& 0x3#32).toNat = 1
  · exact kind_quadrant1 dev h1
  by_cases h2 : ((insn.setWidth 32 : Word) &&& 0x3#32).toNat = 2
  · exact kind_quadrant2 dev h2 h
  rw [classifyInsn16_eq, if_neg h1, if_neg h2]
  refine .none (.inr fun s => ?_)
  rw [target, decodeCompressed]
  split
  · exact decodeQuadrant0_target _ _
  · exact absurd ‹_› h1
  · exact absurd ‹_› h2
  · rfl

end Parcel

/-! ## The records of the loop -/

theorem instructionType_ne_compressed (insn : Word) (s : State δ) :
    instructionType insn s ≠ .compressed := by
  unfold instructionType
  split_ifs
  · decide
  · decide
  unfold decodeInstruction
  dsimp only
  split
  · split_ifs <;> exact InsnType.noConfusion
  all_goals exact InsnType.noConfusion

variable {s : State δ} {r : Record}

theorem kind_recorded (h : s.recorded dev = some r) :
    (parcelOf (s.fetchedInsn dev)).Kind dev r.cf := by
  unfold State.recorded at h
  split_ifs at h with hstop hc hfail
  · cases h
    have hparcel : parcelOf (s.fetchedInsn dev) =
      .compressed ((s.fetchedInsn dev).setWidth 16) := if_pos hc
    have hcf : Record.cf ⟨.compressed, s.pc, ((s.fetchedInsn dev).setWidth 16).setWidth 32⟩ =
        classifyInsn16 ((s.fetchedInsn dev).setWidth 16) := by
      rw [Record.cf, if_pos rfl, BitVec.setWidth_setWidth_of_le _ (by decide)]
      exact congrArg classifyInsn16 (BitVec.setWidth_eq _)
    rw [hparcel, hcf]
    exact Parcel.kind_compressed dev ⟨s.regs, s.pc, hfail⟩
  · have hparcel : parcelOf (s.fetchedInsn dev) = .base (s.fetchedInsn dev) := if_neg hc
    unfold instructionRecord at h
    split_ifs at h with hnone
    cases h
    rw [hparcel, Record.cf, if_neg (instructionType_ne_compressed _ _)]
    exact Parcel.kind_base dev fun hmret => hnone (.inr (.inr hmret))

/-- An iteration of the profiled loop hands `r` to `herve_profiler_record_insn`, which keeps the
class of its instruction. -/
structure State.Hands (s : State δ) (r : Record) : Prop where
  profiler : (iteration dev true s).2.profiler =
    herveProfilerRecordInsn s.symbols r.type r.pc r.insn s.profiler
  lastCf : (iteration dev true s).2.profiler.lastCf = r.cf

theorem recorded_hands (henabled : s.profiler.profilingEnabled = true)
    (h : s.recorded dev = some r) : s.Hands dev r := by
  obtain ⟨u, ⟨hprofiler, -, -⟩, hrun⟩ := iteration_records dev henabled
  have hend : (iteration dev true s).2.profiler = u.profiler := by
    rcases hrun with ⟨hrun, -⟩ | ⟨insn, hrun, -⟩ <;> rw [hrun]
    rfl
  rw [h] at hprofiler
  have hhanded : (iteration dev true s).2.profiler = record s.symbols s.profiler r :=
    hend.trans hprofiler
  refine ⟨hhanded, ?_⟩
  obtain ⟨stats, pairs, last, hrecord⟩ := record_advance s.symbols r henabled
  rw [hhanded, hrecord]
  rfl

/-- The class that the profiler gives to the instruction an iteration hands over is what the
executor does with it. -/
theorem recorded_cf_iff (h : s.recorded dev = some r) :
    let p := parcelOf (s.fetchedInsn dev)
    (s.profiler.profilingEnabled = true → s.Hands dev r) ∧
      (r.cf = .call ↔ p.IsCall dev) ∧ (r.cf = .ret ↔ p.IsReturn dev) ∧
      (r.cf = .jump ↔ p.IsJump δ ∧ ¬ p.IsCall dev ∧ ¬ p.IsReturn dev) ∧
      (r.cf = .none ↔ ¬ p.IsJump δ) :=
  ⟨fun henabled => recorded_hands dev henabled h, (kind_recorded dev h).classes s⟩

/-- `c.jr ra`: the class in the profiler is that of a return. -/
theorem recorded_cf_return :
    let s := (State.holding 0x8082).profiled
    (iteration herveStubs true s).2.profiler.lastCf = .ret ∧
      (parcelOf (s.fetchedInsn herveStubs)).IsReturn herveStubs := by
  obtain ⟨hhands, -, hret, -⟩ := recorded_cf_iff herveStubs (s := (State.holding 0x8082).profiled)
    (r := ⟨.compressed, 0x80000000, 0x8082⟩) (by decide)
  have hcf : Record.cf ⟨.compressed, 0x80000000, 0x8082⟩ = .ret := by decide
  exact ⟨(hhands rfl).lastCf.trans hcf, hret.1 hcf⟩

end Herve
