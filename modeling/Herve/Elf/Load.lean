import Herve.Elf.Image

/-! Loading into RAM that exists. The loop puts every segment that ends within the RAM size at
the index that is its address, which is the byte the guest sees there only if RAM starts at 0. -/

namespace Herve
open RiscV (Byte Word)

variable {file : List Byte} {δ : Type}

/-- The segment ends within the RAM size, on unbounded integers. -/
def Elf32Phdr.EndsWithin (memorySize : Word) (p : Elf32Phdr) : Prop :=
  p.pVaddr.toNat + p.pMemsz.toNat ≤ memorySize.toNat

instance (memorySize : Word) : DecidablePred (Elf32Phdr.EndsWithin memorySize) :=
  fun _ => inferInstanceAs (Decidable (_ ≤ _))

/-! ## The loop -/

theorem map_elfByte (host : ℤ → Byte) {offset n : ℕ} (hle : offset + n ≤ file.length) :
    ((List.range n).map fun k : ℕ => elfByte host file (offset + k)) = fileBytes file offset n := by
  have hlength : (fileBytes file offset n).length = n := by
    rw [fileBytes, List.length_take, List.length_drop]
    omega
  refine List.ext_getElem (by rw [hlength, List.length_map, List.length_range]) fun k hk _ => ?_
  rw [List.length_map, List.length_range] at hk
  have hlt : offset + k < file.length := by omega
  rw [List.getElem_map, List.getElem_range, elfByte_inside host (k := offset + k) (by simp) hlt,
    List.getD_eq_getElem _ _ hlt]
  simp only [fileBytes, List.getElem_take, List.getElem_drop]

/-- The sums that place file ranges do not wrap either. -/
def OffsetsFit (file : List Byte) : Prop :=
  ∀ p ∈ segments file, p.pFilesz > 0 → p.pOffset.toNat + p.pFilesz.toNat < 2 ^ 32
  deriving Decidable

theorem WellFormed.loadSegment_value (hwf : WellFormed file) (hoffsets : OffsetsFit file)
    (host : ℤ → Byte) (memorySize : Word) {i : ℕ} (hi : i < (fileHeader file).ePhnum.toNat)
    (ram : Logged (ℕ → Byte)) :
    (loadSegment host file memorySize ((fileHeader file).phdrPointer i) ram).value =
      (if (phdrAt file i).pType = ptLoad ∧ (phdrAt file i).EndsWithin memorySize then
        some ((phdrAt file i).blockAt file (phdrAt file i).pVaddr.toNat)
      else none).elim ram.value (Overlay.Block.put ram.value) := by
  unfold loadSegment
  rw [hwf.read_elfByte host hi]
  by_cases htype : (phdrAt file i).pType = ptLoad
  · have hp : phdrAt file i ∈ segments file := by
      rw [hwf.segments_eq]
      exact List.mem_filter.2 ⟨List.mem_map_of_mem (List.mem_range.2 hi), decide_eq_true htype⟩
    generalize phdrAt file i = p at htype hp ⊢
    have hpresent := hwf.present p hp
    have htop := hwf.top_lt p hp
    have hend : (p.pVaddr + p.pMemsz).toNat = p.pVaddr.toNat + p.pMemsz.toNat :=
      BitVec.toNat_add_of_lt htop
    have hskip : p.pVaddr + p.pMemsz > memorySize ↔ ¬ p.EndsWithin memorySize := by
      unfold Elf32Phdr.EndsWithin
      rw [gt_iff_lt, BitVec.lt_def, hend, not_le]
    dsimp only
    rw [if_neg (not_not.2 htype)]
    by_cases haccept : p.EndsWithin memorySize
    · have hput : p.pType = ptLoad ∧ p.EndsWithin memorySize := ⟨htype, haccept⟩
      rw [if_pos hput, if_neg (not_imp_not.2 hskip.1 (not_not.2 haccept))]
      by_cases hfilesz : p.pFilesz > 0
      · have hsum : (p.pOffset + p.pFilesz).toNat = p.pOffset.toNat + p.pFilesz.toNat :=
          BitVec.toNat_add_of_lt (hoffsets p hp hfilesz)
        rw [if_pos hfilesz, hsum, if_neg (not_lt.2 (hpresent hfilesz)),
          map_elfByte host (hpresent hfilesz)]
        exact hwf.copy_fill_value hp htop rfl
      · rw [if_neg hfilesz]
        exact hwf.copy_fill_value hp htop (copyBytes_no_file hfilesz _ _ _).symm
    · have hnone : ¬ (p.pType = ptLoad ∧ p.EndsWithin memorySize) := fun h => haccept h.2
      rw [if_neg hnone, if_pos (hskip.2 haccept)]
      rfl
  · have hnone : ¬ ((phdrAt file i).pType = ptLoad ∧ (phdrAt file i).EndsWithin memorySize) :=
      fun h => htype h.1
    dsimp only
    rw [if_neg hnone, if_pos htype]
    rfl

theorem WellFormed.phEnd_le (hwf : WellFormed file) :
    (fileHeader file).phEnd.toNat ≤ file.length := by
  have htable := hwf.table
  have htable' := hwf.table_lt
  have hphnum : ((fileHeader file).ePhnum.setWidth 32).toNat = (fileHeader file).ePhnum.toNat :=
    BitVec.toNat_setWidth_of_le (by decide)
  have hentry : ((fileHeader file).ePhentsize.setWidth 32).toNat =
      (fileHeader file).ePhentsize.toNat := BitVec.toNat_setWidth_of_le (by decide)
  have hindex : ((fileHeader file).ePhnum.setWidth 32 *
      (fileHeader file).ePhentsize.setWidth 32).toNat =
      (fileHeader file).ePhnum.toNat * (fileHeader file).ePhentsize.toNat := by
    rw [BitVec.toNat_mul, hphnum, hentry, Nat.mod_eq_of_lt (by omega)]
  rw [Elf32Ehdr.phEnd, BitVec.toNat_add_of_lt (by omega), hindex]
  exact htable

theorem WellFormed.rvLoadElf_value (hwf : WellFormed file) (hoffsets : OffsetsFit file)
    (host : ℤ → Byte) (s : State δ) :
    (rvLoadElf host (some file) s).value =
      ((fileHeader file).eEntry, { s with
        memory := Overlay.putAll (acceptedBlocks file (Elf32Phdr.EndsWithin s.memorySize) 0)
          s.memory }) := by
  have hloop := foldl_putAll
    (fun i hi => hwf.loadSegment_value hoffsets host s.memorySize (List.mem_range.1 hi))
    ⟨s.memory, [.elfData 0 Elf32Ehdr.size]⟩
  have hblocks : acceptedBlocks file (Elf32Phdr.EndsWithin s.memorySize) 0 =
      (List.range (fileHeader file).ePhnum.toNat).filterMap fun i =>
        if (phdrAt file i).pType = ptLoad ∧ (phdrAt file i).EndsWithin s.memorySize then
          some ((phdrAt file i).blockAt file (phdrAt file i).pVaddr.toNat)
        else none := by
    rw [acceptedBlocks, hwf.segments_eq, List.filterMap_filter, List.filterMap_map]
    refine List.filterMap_congr fun i _ => ?_
    simp only [Function.comp_apply, decide_eq_true_eq, ite_and, Nat.sub_zero]
  have hheader : ¬ ((fileHeader file).phEnd.toNat > file.length ∨
      (fileHeader file).ePhentsize.toNat < Elf32Phdr.size) :=
    not_or.2 ⟨not_lt.2 hwf.phEnd_le, not_lt.2 hwf.phentsize⟩
  unfold rvLoadElf
  dsimp only
  rw [elfHeader_eq host hwf.size, if_neg (not_lt.2 hwf.size), hwf.accepted, if_neg (by decide),
    if_neg hheader, hblocks, ← hloop]

/-! ## Success -/

/-- The guest sees every segment at its addresses, and the rest of RAM as it was. -/
structure SegmentsLoaded (file : List Byte) (s t : State δ) : Prop where
  bytes : ∀ p ∈ segments file, ∀ i < p.pMemsz.toNat,
    t.memoryBase.toNat ≤ p.pVaddr.toNat + i ∧
      p.pVaddr.toNat + i - t.memoryBase.toNat < t.memorySize.toNat ∧
      t.memory (p.pVaddr.toNat + i - t.memoryBase.toNat) = p.byte file i
  rest : ∀ j < t.memorySize.toNat,
    (∀ p ∈ segments file, ¬ p.Covers (t.memoryBase.toNat + j)) → t.memory j = s.memory j

/-- `rv_load_elf` does not fail unless it has loaded the file. -/
def LoadsOnSuccess (host : ℤ → Byte) (file : List Byte) (s : State δ) : Prop :=
  (rvLoadElf host (some file) s).value.1 ≠ 0 →
    SegmentsLoaded file s (rvLoadElf host (some file) s).value.2

theorem exists_lowest {p : Elf32Phdr} (hp : p ∈ segments file) (hne : p.pMemsz ≠ 0) :
    ∃ q ∈ segments file, q.pMemsz ≠ 0 ∧
      ∀ r ∈ segments file, r.pMemsz ≠ 0 → q.pVaddr.toNat ≤ r.pVaddr.toNat := by
  classical
  have hex : ∃ a, ∃ q ∈ segments file, q.pMemsz ≠ 0 ∧ q.pVaddr.toNat = a := ⟨_, p, hp, hne, rfl⟩
  obtain ⟨q, hq, hqne, hqa⟩ := Nat.find_spec hex
  refine ⟨q, hq, hqne, fun r hr hrne => ?_⟩
  rw [hqa]
  exact Nat.find_min' hex ⟨r, hr, hrne, rfl⟩

theorem covers_nonempty {p : Elf32Phdr} {addr : ℕ} (h : p.Covers addr) : p.pMemsz ≠ 0 := by
  intro hzero
  have hlow := h.1
  have hhigh := h.2
  rw [hzero] at hhigh
  exact absurd hlow (not_le.2 hhigh)

/-- Where RAM starts above 0, the first byte of the lowest segment is put elsewhere. -/
theorem WellFormed.base_eq_zero (hwf : WellFormed file) (hoffsets : OffsetsFit file)
    (host : ℤ → Byte) {s : State δ} (hentry : (fileHeader file).eEntry ≠ 0)
    (h : ∀ mem, LoadsOnSuccess host file { s with memory := mem }) {p : Elf32Phdr}
    (hp : p ∈ segments file) (hne : p.pMemsz ≠ 0) : s.memoryBase = 0 := by
  obtain ⟨q, hq, hqne, hlowest⟩ := exists_lowest hp hne
  by_contra hbase
  have hbase : 0 < s.memoryBase.toNat := by bv_omega
  have hfirst : 0 < q.pMemsz.toNat := by bv_omega
  -- RAM that holds something else at that index
  let mem : ℕ → Byte := fun _ => q.byte file 0 + 1
  have hloaded := h mem
  unfold LoadsOnSuccess at hloaded
  rw [hwf.rvLoadElf_value hoffsets] at hloaded
  obtain ⟨hlow, -, hbyte⟩ := (hloaded hentry).bytes q hq 0 hfirst
  have hkept : Overlay.putAll (acceptedBlocks file (Elf32Phdr.EndsWithin s.memorySize) 0) mem
      (q.pVaddr.toNat + 0 - s.memoryBase.toNat) = q.byte file 0 + 1 := by
    refine hwf.putAll_rest (fun _ _ => Nat.zero_le _) fun r hr _ hcovers => ?_
    have hle := hlowest r hr (covers_nonempty hcovers)
    have hlow' : s.memoryBase.toNat ≤ q.pVaddr.toNat + 0 := hlow
    have hstart := hcovers.1
    omega
  have heq : q.byte file 0 = q.byte file 0 + 1 := hbyte.symm.trans hkept
  bv_omega

/-- Whatever RAM holds, success means loaded exactly when RAM starts at 0 and every segment
that is not empty ends within it. -/
theorem loadsOnSuccess_iff (hwf : WellFormed file) (hoffsets : OffsetsFit file)
    (host : ℤ → Byte) (s : State δ) :
    (∀ mem, LoadsOnSuccess host file { s with memory := mem }) ↔
      ((fileHeader file).eEntry ≠ 0 → ∀ p ∈ segments file, p.pMemsz ≠ 0 →
        s.memoryBase = 0 ∧ p.EndsWithin s.memorySize) := by
  constructor
  · intro h hentry p hp hne
    have hbase := hwf.base_eq_zero hoffsets host hentry h hp hne
    refine ⟨hbase, ?_⟩
    have hloaded := h s.memory
    unfold LoadsOnSuccess at hloaded
    rw [hwf.rvLoadElf_value hoffsets] at hloaded
    have hlast : p.pMemsz.toNat - 1 < p.pMemsz.toNat := by bv_omega
    obtain ⟨-, hsize, -⟩ := (hloaded hentry).bytes p hp _ hlast
    have hsize : p.pVaddr.toNat + (p.pMemsz.toNat - 1) - s.memoryBase.toNat <
      s.memorySize.toNat := hsize
    have hzero : s.memoryBase.toNat = 0 := by rw [hbase]; rfl
    unfold Elf32Phdr.EndsWithin
    omega
  · intro h mem hsuccess
    rw [hwf.rvLoadElf_value hoffsets] at hsuccess ⊢
    have hfits := h hsuccess
    refine ⟨fun p hp i hi => ?_, fun j hj hj' => ?_⟩
    · have hne : p.pMemsz ≠ 0 := by
        rintro hzero
        rw [hzero] at hi
        exact absurd hi (Nat.not_lt_zero i)
      obtain ⟨hbase, hend⟩ := hfits p hp hne
      have hzero : s.memoryBase.toNat = 0 := by rw [hbase]; rfl
      have hbyte : Overlay.putAll (acceptedBlocks file (Elf32Phdr.EndsWithin s.memorySize) 0) mem
          (p.pVaddr.toNat - 0 + i) = p.byte file i :=
        hwf.putAll_at (fun _ _ => Nat.zero_le _) hp hend hi
      refine ⟨?_, ?_, ?_⟩
      · show s.memoryBase.toNat ≤ p.pVaddr.toNat + i
        omega
      · show p.pVaddr.toNat + i - s.memoryBase.toNat < s.memorySize.toNat
        unfold Elf32Phdr.EndsWithin at hend
        omega
      · show Overlay.putAll _ mem (p.pVaddr.toNat + i - s.memoryBase.toNat) = _
        rw [hzero]
        exact hbyte
    · refine hwf.putAll_rest (fun _ _ => Nat.zero_le _) fun p hp _ hcovers => ?_
      obtain ⟨hbase, -⟩ := hfits p hp (covers_nonempty hcovers)
      have hzero : s.memoryBase.toNat = 0 := by rw [hbase]; rfl
      have hnone : ¬ p.Covers (s.memoryBase.toNat + j) := hj' p hp
      rw [hzero] at hnone
      exact hnone hcovers

/-- Into 64 bytes of RAM at 0. -/
theorem loadsOnSuccess_low :
    LoadsOnSuccess (fun _ => 0) (oneSegment 0 8 0x13) (State.booted []) :=
  (loadsOnSuccess_iff (wellFormed_of_one (p := ⟨ptLoad, 84, 0, 4, 8⟩) (by decide) (by decide)
    (by decide)) (by decide) (fun _ => 0) (State.booted [])).2 (by decide) (State.booted []).memory

/-- Over a program at the same address that `rv_init_elf` has loaded. -/
theorem not_loadsOnSuccess_high :
    WellFormed (oneSegment 0x80000000 8 0x73) ∧ OffsetsFit (oneSegment 0x80000000 8 0x73) ∧
      ¬ LoadsOnSuccess (fun _ => 0) (oneSegment 0x80000000 8 0x73)
        (rvInitElf (some (oneSegment 0x80000000 8 0x13)) 0 (some fun _ => 0) (fun _ => [])
          (State.start ())).value.2 := by
  refine ⟨wellFormed_of_one (p := ⟨ptLoad, 84, 0x80000000, 4, 8⟩) (by decide) (by decide)
    (by decide), by decide, fun h => ?_⟩
  have hbyte := ((h (by decide)).bytes ⟨ptLoad, 84, 0x80000000, 4, 8⟩ (by decide) 0 (by decide)).2.2
  exact absurd hbyte (by decide)

end Herve
