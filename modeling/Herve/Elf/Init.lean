import Herve.Elf.Image

/-! Loading into RAM that is allocated for the file. Which segments end up in it is decided by
the size that the rules for RAM come to, and by whether base and size wrap when added. -/

namespace Herve
open RiscV (Byte Word)

variable {file : List Byte} {δ : Type}

/-! ## The size of RAM -/

def pageRound (n : ℕ) : ℕ := (n + 4095) / 4096 * 4096

/-- The size of RAM, on unbounded integers. -/
def ramBytes (ramSize lowest span : ℕ) : ℕ :=
  if ramSize = 0 ∧ 0x80000000 ≤ lowest then 0x200000
  else pageRound (max (max ramSize span) 0x100000)

theorem pageMask_eq (x : Word) : x &&& ~~~4095#32 = x >>> 12 <<< 12 := by
  apply BitVec.eq_of_getLsbD_eq
  intro i hi
  rw [BitVec.getLsbD_and, BitVec.getLsbD_shiftLeft, BitVec.getLsbD_ushiftRight]
  interval_cases i <;> simp

theorem pageMask_toNat {x : Word} (h : x.toNat + 4095 < 2 ^ 32) :
    ((x + 4095) &&& ~~~4095#32).toNat = pageRound x.toNat := by
  have hsum : (x + 4095).toNat = x.toNat + 4095 := BitVec.toNat_add_of_lt h
  rw [pageMask_eq, BitVec.toNat_shiftLeft, BitVec.toNat_ushiftRight, hsum,
    Nat.shiftRight_eq_div_pow, Nat.shiftLeft_eq, pageRound]
  omega

theorem ramNeeded_toNat {ramSize : ℕ} {lowest span : Word} (hram : ramSize < 2 ^ 32 - 4096)
    (hspan : pageRound span.toNat < 2 ^ 32) :
    (ramNeeded ramSize lowest span).toNat = ramBytes ramSize lowest.toNat span.toNat := by
  have hspan' : span.toNat ≤ 2 ^ 32 - 4096 := by
    unfold pageRound at hspan
    omega
  have hwanted : (if ramSize > span.toNat then BitVec.ofNat 32 ramSize else span).toNat =
      max ramSize span.toNat := by
    split_ifs with h
    · rw [BitVec.toNat_ofNat, Nat.mod_eq_of_lt (by omega), max_eq_left (le_of_lt h)]
    · rw [max_eq_right (not_lt.1 h)]
  have hhigh : ramSize = 0 ∧ lowest ≥ 0x80000000#32 ↔
      ramSize = 0 ∧ 0x80000000 ≤ lowest.toNat := Iff.rfl
  unfold ramNeeded ramBytes
  dsimp only
  generalize (if ramSize > span.toNat then BitVec.ofNat 32 ramSize else span) = wanted at hwanted
  by_cases hspecial : ramSize = 0 ∧ 0x80000000 ≤ lowest.toNat
  · rw [if_pos hspecial, if_pos (hhigh.2 hspecial)]
    rfl
  · have hfloor : (if wanted < 0x100000#32 then 0x100000#32 else wanted).toNat =
        max (max ramSize span.toNat) 0x100000 := by
      split_ifs with h
      · have hlt : wanted.toNat < 0x100000 := h
        rw [max_eq_right (by omega)]
        rfl
      · have hle : 0x100000 ≤ wanted.toNat := not_lt.1 h
        rw [max_eq_left (by omega), hwanted]
    rw [if_neg hspecial, if_neg (hspecial ∘ hhigh.1), pageMask_toNat (by omega), hfloor]

/-- RAM has room for what the file spans unless the rule for high memory cuts it to 2 MB. -/
theorem span_le_ramBytes_iff (ramSize lowest span : ℕ) :
    span ≤ ramBytes ramSize lowest span ↔
      ramSize ≠ 0 ∨ lowest < 0x80000000 ∨ span ≤ 0x200000 := by
  by_cases hspecial : ramSize = 0 ∧ 0x80000000 ≤ lowest
  · rw [ramBytes, if_pos hspecial]
    omega
  · rw [ramBytes, if_neg hspecial, pageRound]
    omega

/-! ## The range of addresses -/

/-- A loop that keeps the first of what it has seen: nothing comes before the result, and it
is one of those. -/
theorem foldl_pick {β : Type} (before : Word → Word → Prop) [DecidableRel before]
    (hirrefl : ∀ a, ¬ before a a) (hasymm : ∀ a b, before a b → ¬ before b a)
    (htrans : ∀ a b c, ¬ before a b → ¬ before b c → ¬ before a c) (f : β → Word)
    (bs : List β) (m : Word) :
    let r := bs.foldl (fun m b => if before (f b) m then f b else m) m
    ¬ before m r ∧ (∀ b ∈ bs, ¬ before (f b) r) ∧ (r = m ∨ ∃ b ∈ bs, r = f b) := by
  induction bs generalizing m with
  | nil => exact ⟨hirrefl m, fun b hb => absurd hb List.not_mem_nil, .inl rfl⟩
  | cons b bs ih =>
    intro r
    by_cases h : before (f b) m
    · obtain ⟨hfirst, hall, hmem⟩ := ih (f b)
      have hr : r = bs.foldl (fun m b => if before (f b) m then f b else m) (f b) := by
        show List.foldl _ _ _ = _
        rw [List.foldl_cons, if_pos h]
      rw [hr]
      refine ⟨htrans _ _ _ (hasymm _ _ h) hfirst, List.forall_mem_cons.2 ⟨hfirst, hall⟩, .inr ?_⟩
      rcases hmem with hmem | ⟨c, hc, hmem⟩
      · exact ⟨b, List.mem_cons_self, hmem⟩
      · exact ⟨c, List.mem_cons_of_mem _ hc, hmem⟩
    · obtain ⟨hfirst, hall, hmem⟩ := ih m
      have hr : r = bs.foldl (fun m b => if before (f b) m then f b else m) m := by
        show List.foldl _ _ _ = _
        rw [List.foldl_cons, if_neg h]
      rw [hr]
      refine ⟨hfirst, List.forall_mem_cons.2 ⟨htrans _ _ _ h hfirst, hall⟩, hmem.imp_right ?_⟩
      exact fun ⟨c, hc, hmem⟩ => ⟨c, List.mem_cons_of_mem _ hc, hmem⟩

theorem minAddr_spec {ps : List Elf32Phdr} {p : Elf32Phdr} (hp : p ∈ ps) :
    (∃ q ∈ ps, minAddr ps = q.pVaddr) ∧ ∀ q ∈ ps, (minAddr ps).toNat ≤ q.pVaddr.toNat := by
  obtain ⟨-, hall, hmem⟩ := foldl_pick (fun a b => a < b) (by bv_omega) (by bv_omega)
    (by bv_omega) Elf32Phdr.pVaddr ps 0xFFFFFFFF#32
  have hle : ∀ q ∈ ps, (minAddr ps).toNat ≤ q.pVaddr.toNat := fun q hq => not_lt.1 (hall q hq)
  refine ⟨hmem.elim (fun h => ⟨p, hp, ?_⟩) id, hle⟩
  have htop : minAddr ps = 0xFFFFFFFF#32 := h
  have hlow := hle p hp
  rw [htop] at hlow ⊢
  bv_omega

theorem maxAddr_spec {ps : List Elf32Phdr} {p : Elf32Phdr} (hp : p ∈ ps) :
    (∃ q ∈ ps, maxAddr ps = q.pVaddr + q.pMemsz) ∧
      ∀ q ∈ ps, (q.pVaddr + q.pMemsz).toNat ≤ (maxAddr ps).toNat := by
  obtain ⟨-, hall, hmem⟩ := foldl_pick (fun a b => a > b) (by bv_omega) (by bv_omega)
    (by bv_omega) (fun p : Elf32Phdr => p.pVaddr + p.pMemsz) ps 0
  have hle : ∀ q ∈ ps, (q.pVaddr + q.pMemsz).toNat ≤ (maxAddr ps).toNat :=
    fun q hq => not_lt.1 (hall q hq)
  refine ⟨hmem.elim (fun h => ⟨p, hp, ?_⟩) id, hle⟩
  have hzero : maxAddr ps = 0 := h
  have hhigh := hle p hp
  rw [hzero] at hhigh ⊢
  bv_omega

/-! ## The loop -/

/-- The check of the source, which adds base and size in 32 bits. -/
def Elf32Phdr.PassesCheck (memoryBase memorySize : Word) (p : Elf32Phdr) : Prop :=
  ¬ (p.pVaddr < memoryBase ∨ p.pVaddr + p.pMemsz > memoryBase + memorySize)

instance (memoryBase memorySize : Word) :
    DecidablePred (Elf32Phdr.PassesCheck memoryBase memorySize) :=
  fun _ => inferInstanceAs (Decidable (¬ _))

theorem WellFormed.initSegment_value (hwf : WellFormed file) {memoryBase memorySize : Word}
    {p : Elf32Phdr} (hp : p ∈ segments file) (hbase : memoryBase.toNat ≤ p.pVaddr.toNat)
    (ram : Logged (ℕ → Byte)) :
    (initSegment file memoryBase memorySize ram p).value =
      (if p.PassesCheck memoryBase memorySize then
        some (p.blockAt file (p.pVaddr.toNat - memoryBase.toNat))
      else none).elim ram.value (Overlay.Block.put ram.value) := by
  have htop := hwf.top_lt p hp
  have hdst : (p.pVaddr - memoryBase).toNat = p.pVaddr.toNat - memoryBase.toNat :=
    BitVec.toNat_sub_of_le hbase
  unfold initSegment
  by_cases hcheck : p.PassesCheck memoryBase memorySize
  · have hkept : ¬ (p.pVaddr < memoryBase ∨ p.pVaddr + p.pMemsz > memoryBase + memorySize) := hcheck
    rw [if_neg hkept, if_pos hcheck, ← hdst]
    refine hwf.copy_fill_value hp (by omega) ?_
    by_cases hfilesz : p.pFilesz > 0
    · rw [if_pos hfilesz]
      rfl
    · rw [if_neg hfilesz, copyBytes_no_file hfilesz]
  · rw [if_neg hcheck, if_pos (not_not.1 hcheck)]
    rfl

structure InitEffect (file : List Byte) (ramSize : ℕ) (block : ℕ → Byte) (t : State δ) : Prop where
  memoryBase : t.memoryBase = minAddr (segments file)
  memorySize : t.memorySize = ramNeeded ramSize (minAddr (segments file))
    (maxAddr (segments file) - minAddr (segments file))
  memory : t.memory = Overlay.putAll
    (acceptedBlocks file (Elf32Phdr.PassesCheck t.memoryBase t.memorySize) t.memoryBase.toNat)
    (zeroBytes 0 t.memorySize.toNat block)

theorem WellFormed.minAddr_lt_maxAddr (hwf : WellFormed file) {p : Elf32Phdr}
    (hp : p ∈ segments file) (hne : p.pMemsz ≠ 0) :
    (minAddr (segments file)).toNat < (maxAddr (segments file)).toNat := by
  have hlow := (minAddr_spec hp).2 p hp
  have hhigh := (maxAddr_spec hp).2 p hp
  rw [BitVec.toNat_add_of_lt (hwf.top_lt p hp)] at hhigh
  bv_omega

theorem WellFormed.rvInitElf_effect (hwf : WellFormed file) {p : Elf32Phdr}
    (hp : p ∈ segments file) (hne : p.pMemsz ≠ 0) (ramSize : ℕ) (block : ℕ → Byte)
    (heap : ℕ → List Byte) (s : State δ) :
    InitEffect file ramSize block (rvInitElf (some file) ramSize (some block) heap s).value.2 := by
  have hrange : ¬ maxAddr (loadPhdrs file (fileHeader file)) ≤
      minAddr (loadPhdrs file (fileHeader file)) := not_le.2 (hwf.minAddr_lt_maxAddr hp hne)
  unfold rvInitElf
  dsimp only
  rw [if_neg (not_lt.2 hwf.size), hwf.accepted, if_neg (by decide), if_neg hrange]
  refine ⟨rfl, rfl, ?_⟩
  exact foldl_putAll (fun q hq => hwf.initSegment_value hq ((minAddr_spec hp).2 q hq)) _

/-! ## Success -/

def lowestAddr (file : List Byte) : ℕ := (minAddr (segments file)).toNat

def spanBytes (file : List Byte) : ℕ := (maxAddr (segments file)).toNat - lowestAddr file

/-- RAM starts at the lowest segment, has room for all of them and holds them. -/
structure InitLoaded (file : List Byte) (t : State δ) : Prop where
  lowest : (∃ p ∈ segments file, t.memoryBase = p.pVaddr) ∧
    ∀ p ∈ segments file, t.memoryBase ≤ p.pVaddr
  covers : ∀ p ∈ segments file,
    p.pVaddr.toNat + p.pMemsz.toNat ≤ t.memoryBase.toNat + t.memorySize.toNat
  bytes : ∀ p ∈ segments file, ∀ i < p.pMemsz.toNat,
    t.memory (p.pVaddr.toNat - t.memoryBase.toNat + i) = p.byte file i

namespace InitEffect
variable {ramSize : ℕ} {block : ℕ → Byte} {t : State δ}

theorem lowest (h : InitEffect file ramSize block t) {p : Elf32Phdr} (hp : p ∈ segments file) :
    (∃ q ∈ segments file, t.memoryBase = q.pVaddr) ∧
      ∀ q ∈ segments file, t.memoryBase ≤ q.pVaddr := by
  rw [h.memoryBase]
  exact minAddr_spec hp

theorem base_toNat (h : InitEffect file ramSize block t) :
    t.memoryBase.toNat = lowestAddr file := by
  rw [h.memoryBase]
  rfl

theorem size_toNat (h : InitEffect file ramSize block t) (hwf : WellFormed file) {p : Elf32Phdr}
    (hp : p ∈ segments file) (hne : p.pMemsz ≠ 0) (hram : ramSize < 2 ^ 32 - 4096)
    (hspan : pageRound (spanBytes file) < 2 ^ 32) :
    t.memorySize.toNat = ramBytes ramSize (lowestAddr file) (spanBytes file) := by
  have hsub : (maxAddr (segments file) - minAddr (segments file)).toNat = spanBytes file :=
    BitVec.toNat_sub_of_le (le_of_lt (hwf.minAddr_lt_maxAddr hp hne))
  rw [h.memorySize, ramNeeded_toNat hram (hsub ▸ hspan), hsub]
  rfl

theorem covers_iff (h : InitEffect file ramSize block t) (hwf : WellFormed file) {p : Elf32Phdr}
    (hp : p ∈ segments file) :
    (∀ p ∈ segments file,
        p.pVaddr.toNat + p.pMemsz.toNat ≤ t.memoryBase.toNat + t.memorySize.toNat) ↔
      spanBytes file ≤ t.memorySize.toNat := by
  have hend : ∀ q ∈ segments file,
      (q.pVaddr + q.pMemsz).toNat = q.pVaddr.toNat + q.pMemsz.toNat :=
    fun q hq => BitVec.toNat_add_of_lt (hwf.top_lt q hq)
  obtain ⟨⟨q, hq, htop⟩, hle⟩ := maxAddr_spec hp
  rw [h.base_toNat, spanBytes]
  constructor
  · intro hcovers
    have hq' := hcovers q hq
    rw [htop, hend q hq]
    omega
  · intro hspan r hr
    have hr' := hle r hr
    rw [hend r hr] at hr'
    omega

/-- With base and size adding up below `2 ^ 32` the check passes every segment that RAM has
room for, otherwise none. -/
theorem passesCheck_iff (h : InitEffect file ramSize block t) (hwf : WellFormed file)
    {p : Elf32Phdr} (hp : p ∈ segments file)
    (hcovers : p.pVaddr.toNat + p.pMemsz.toNat ≤ t.memoryBase.toNat + t.memorySize.toNat) :
    p.PassesCheck t.memoryBase t.memorySize ↔
      t.memoryBase.toNat + t.memorySize.toNat < 2 ^ 32 := by
  have htop := hwf.top_lt p hp
  have hlow : t.memoryBase.toNat ≤ p.pVaddr.toNat := (h.lowest hp).2 p hp
  have hend : (p.pVaddr + p.pMemsz).toNat = p.pVaddr.toNat + p.pMemsz.toNat :=
    BitVec.toNat_add_of_lt htop
  have hcheck : p.PassesCheck t.memoryBase t.memorySize ↔
      p.pVaddr.toNat + p.pMemsz.toNat ≤ (t.memoryBase + t.memorySize).toNat := by
    rw [Elf32Phdr.PassesCheck, not_or, ← hend]
    exact ⟨fun hc => not_lt.1 hc.2, fun hc => ⟨not_lt.2 hlow, not_lt.2 hc⟩⟩
  have hsize := t.memorySize.isLt
  rw [hcheck, BitVec.toNat_add]
  omega

/-- Dropped segments leave zeros, which may be right. -/
theorem bytes_iff (h : InitEffect file ramSize block t) (hwf : WellFormed file)
    (hcovers : ∀ p ∈ segments file,
      p.pVaddr.toNat + p.pMemsz.toNat ≤ t.memoryBase.toNat + t.memorySize.toNat) :
    (∀ p ∈ segments file, ∀ i < p.pMemsz.toNat,
        t.memory (p.pVaddr.toNat - t.memoryBase.toNat + i) = p.byte file i) ↔
      t.memoryBase.toNat + t.memorySize.toNat < 2 ^ 32 ∨
        ∀ p ∈ segments file, ∀ i < p.pFilesz.toNat, file.getD (p.pOffset.toNat + i) 0 = 0 := by
  have hbase : ∀ p ∈ segments file, t.memoryBase.toNat ≤ p.pVaddr.toNat :=
    fun p hp => (h.lowest hp).2 p hp
  have hfile : ∀ (p : Elf32Phdr) (i : ℕ), i < p.pFilesz.toNat →
      p.byte file i = file.getD (p.pOffset.toNat + i) 0 := fun p i hi => if_pos hi
  rw [h.memory]
  by_cases hsum : t.memoryBase.toNat + t.memorySize.toNat < 2 ^ 32
  · refine iff_of_true (fun p hp i hi => ?_) (.inl hsum)
    exact hwf.putAll_at hbase hp ((h.passesCheck_iff hwf hp (hcovers p hp)).2 hsum) hi
  · rw [or_iff_right hsum]
    have hzero : ∀ p ∈ segments file, ∀ i < p.pMemsz.toNat,
        Overlay.putAll (acceptedBlocks file (Elf32Phdr.PassesCheck t.memoryBase t.memorySize)
          t.memoryBase.toNat) (zeroBytes 0 t.memorySize.toNat block)
          (p.pVaddr.toNat - t.memoryBase.toNat + i) = 0 := by
      intro p hp i hi
      have hroom := hcovers p hp
      have hlow := hbase p hp
      rw [hwf.putAll_rest hbase fun q hq haccept =>
        absurd ((h.passesCheck_iff hwf hq (hcovers q hq)).1 haccept) hsum]
      exact if_pos ⟨Nat.zero_le _, by omega⟩
    constructor
    · intro hbytes p hp i hi
      have hle : p.pFilesz.toNat ≤ p.pMemsz.toNat := hwf.filesz_le p hp
      rw [← hfile p i hi, ← hbytes p hp i (by omega), hzero p hp i (by omega)]
    · intro hbytes p hp i hi
      rw [hzero p hp i hi]
      by_cases hi' : i < p.pFilesz.toNat
      · rw [hfile p i hi', hbytes p hp i hi']
      · exact (if_neg hi').symm

end InitEffect

/-- The load that `rv_init_elf` completes is right exactly when the rule for high memory leaves
room for what the file spans, and the end of RAM is below `2 ^ 32` or there is nothing to load
but zeros. -/
theorem initLoaded_iff (hwf : WellFormed file) (hne : ∃ p ∈ segments file, p.pMemsz ≠ 0)
    {ramSize : ℕ} (hram : ramSize < 2 ^ 32 - 4096) (hspan : pageRound (spanBytes file) < 2 ^ 32)
    (block : ℕ → Byte) (heap : ℕ → List Byte) (s : State δ) :
    InitLoaded file (rvInitElf (some file) ramSize (some block) heap s).value.2 ↔
      (ramSize ≠ 0 ∨ lowestAddr file < 0x80000000 ∨ spanBytes file ≤ 0x200000) ∧
        (lowestAddr file + ramBytes ramSize (lowestAddr file) (spanBytes file) < 2 ^ 32 ∨
          ∀ p ∈ segments file, ∀ i < p.pFilesz.toNat,
            file.getD (p.pOffset.toNat + i) 0 = 0) := by
  obtain ⟨p, hp, hpne⟩ := hne
  have heffect := hwf.rvInitElf_effect hp hpne ramSize block heap s
  generalize (rvInitElf (some file) ramSize (some block) heap s).value.2 = t at heffect ⊢
  have hsize := heffect.size_toNat hwf hp hpne hram hspan
  have hroom := heffect.covers_iff hwf hp
  rw [hsize, span_le_ramBytes_iff] at hroom
  rw [← hroom, ← hsize, ← heffect.base_toNat]
  constructor
  · intro h
    exact ⟨h.covers, (heffect.bytes_iff hwf h.covers).1 h.bytes⟩
  · rintro ⟨hcovers, hbytes⟩
    exact ⟨heffect.lowest hp, hcovers, (heffect.bytes_iff hwf hcovers).2 hbytes⟩

/-- Eight bytes at the usual address of a program, with `ram_size` 0. -/
theorem initLoaded_high :
    InitLoaded (oneSegment 0x80000000 8 0x13)
      (rvInitElf (some (oneSegment 0x80000000 8 0x13)) 0 (some fun _ => 0) (fun _ => [])
        (State.start ())).value.2 :=
  (initLoaded_iff (wellFormed_of_one (p := ⟨ptLoad, 84, 0x80000000, 4, 8⟩) (by decide) (by decide)
    (by decide)) (by decide) (by decide) (by decide) (fun _ => 0) (fun _ => [])
    (State.start ())).2 (by decide)

/-- Three megabytes there: RAM has two. -/
theorem not_initLoaded_large :
    WellFormed (oneSegment 0x80000000 0x300000 0x13) ∧
      pageRound (spanBytes (oneSegment 0x80000000 0x300000 0x13)) < 2 ^ 32 ∧
      ¬ InitLoaded (oneSegment 0x80000000 0x300000 0x13)
        (rvInitElf (some (oneSegment 0x80000000 0x300000 0x13)) 0 (some fun _ => 0) (fun _ => [])
          (State.start ())).value.2 := by
  refine ⟨wellFormed_of_one (p := ⟨ptLoad, 84, 0x80000000, 4, 0x300000⟩) (by decide) (by decide)
    (by decide), by decide, fun h => ?_⟩
  exact absurd (h.covers ⟨ptLoad, 84, 0x80000000, 4, 0x300000⟩ (by decide)) (by decide)

end Herve
