import Herve.Iss.Elf

/-! The accesses of `rv_load_elf`. Its three range checks compare sums that wrap at `2 ^ 32`;
on unbounded integers they would be the conditions below. -/

namespace Herve
open RiscV (Byte Word)

/-- Inside the buffer, RAM or the block. -/
def ElfAccess.InBounds (elfSize memorySize : ℕ) : ElfAccess → Prop
  | .elfData offset size => 0 ≤ offset ∧ offset + size ≤ elfSize
  | .memory index size => index + size ≤ memorySize
  | .heap offset size length => offset + size ≤ length

def Logged.All {α : Type} (P : ElfAccess → Prop) (l : Logged α) : Prop := ∀ a ∈ l.accesses, P a

/-- The checks of the source: a loadable segment that is not skipped. -/
def Elf32Phdr.IsLoaded (p : Elf32Phdr) (elfSize : ℕ) (memorySize : Word) : Prop :=
  p.pType = ptLoad ∧ p.pVaddr + p.pMemsz ≤ memorySize ∧
    (p.pFilesz > 0 → (p.pOffset + p.pFilesz).toNat ≤ elfSize)

/-- The file bytes lie in the buffer, and they and the BSS go to RAM. -/
structure Elf32Phdr.Fits (p : Elf32Phdr) (elfSize memorySize : ℕ) : Prop where
  file : p.pFilesz > 0 → p.pOffset.toNat + p.pFilesz.toNat ≤ elfSize
  copy : p.pFilesz > 0 → p.pVaddr.toNat + p.pFilesz.toNat ≤ memorySize
  fill : p.pMemsz > p.pFilesz → p.pVaddr.toNat + p.pMemsz.toNat ≤ memorySize

/-- The fields that the loop reads of the header lie in the buffer, and its segment fits if it
is loaded. -/
structure PhdrSafe (host : ℤ → Byte) (data : List Byte) (memorySize : Word) (phdr : ℤ) : Prop where
  pType : 0 ≤ phdr ∧ phdr + 4 ≤ data.length
  fields : (Elf32Phdr.read fun k => elfByte host data (phdr + k)).pType = ptLoad →
    phdr + 24 ≤ data.length
  segment : (Elf32Phdr.read fun k => elfByte host data (phdr + k)).IsLoaded data.length memorySize →
    (Elf32Phdr.read fun k => elfByte host data (phdr + k)).Fits data.length memorySize.toNat

/-! ## One segment -/

section
variable {α : Type} {P : ElfAccess → Prop}

@[simp] theorem Logged.all_log (l : Logged α) (a : ElfAccess) :
    (l.log a).All P ↔ l.All P ∧ P a := by
  unfold Logged.All Logged.log
  rw [List.forall_mem_append, List.forall_mem_singleton]

@[simp] theorem all_copySegment (dst : Word) (bytes : List Byte) (ram : Logged (ℕ → Byte)) :
    (copySegment dst bytes ram).All P ↔ ram.All P ∧ P (.memory dst.toNat bytes.length) := by
  unfold Logged.All copySegment
  rw [List.forall_mem_append, List.forall_mem_singleton]

@[simp] theorem all_zeroFill (dst : Word) (p : Elf32Phdr) (ram : Logged (ℕ → Byte)) :
    (zeroFill dst p ram).All P ↔ ram.All P ∧
      (p.pMemsz > p.pFilesz →
        P (.memory (dst + p.pFilesz).toNat (p.pMemsz - p.pFilesz).toNat)) := by
  unfold zeroFill
  split_ifs with h
  · unfold Logged.All
    rw [List.forall_mem_append, List.forall_mem_singleton]
    exact and_congr_right fun _ => ⟨fun ha _ => ha, fun ha => ha h⟩
  · exact ⟨fun hram => ⟨hram, fun h' => absurd h' h⟩, fun hram => hram.1⟩

end

/-- Once the copy fits, the fill ends where the segment does. -/
theorem fill_inBounds_iff {p : Elf32Phdr} {memorySize : Word}
    (hcopy : p.pFilesz > 0 → p.pVaddr.toNat + p.pFilesz.toNat ≤ memorySize.toNat)
    (hfill : p.pMemsz > p.pFilesz) :
    (p.pVaddr + p.pFilesz).toNat + (p.pMemsz - p.pFilesz).toNat ≤ memorySize.toNat ↔
      p.pVaddr.toNat + p.pMemsz.toNat ≤ memorySize.toNat := by
  have hvaddr := p.pVaddr.isLt
  have hsize := memorySize.isLt
  by_cases hfilesz : p.pFilesz > 0
  · have hcopy := hcopy hfilesz
    have hsum : (p.pVaddr + p.pFilesz).toNat = p.pVaddr.toNat + p.pFilesz.toNat :=
      BitVec.toNat_add_of_lt (by omega)
    bv_omega
  · have hzero : p.pFilesz = 0 := by bv_omega
    have hsum : p.pVaddr + 0 = p.pVaddr := BitVec.add_zero _
    have hsub : p.pMemsz - 0 = p.pMemsz := BitVec.sub_zero _
    rw [hzero, hsum, hsub]

theorem PhdrSafe.field {host : ℤ → Byte} {data : List Byte} {memorySize : Word} {phdr : ℤ}
    (h : PhdrSafe host data memorySize phdr)
    (hload : (Elf32Phdr.read fun k => elfByte host data (phdr + k)).pType = ptLoad) (k : ℕ)
    (hk : k + 4 ≤ 24) :
    (ElfAccess.elfData (phdr + k) 4).InBounds data.length memorySize.toNat := by
  have htop := h.pType
  have hfields := h.fields hload
  exact ⟨by omega, by omega⟩

theorem all_loadSegment_iff (host : ℤ → Byte) (data : List Byte) (memorySize : Word) (phdr : ℤ)
    (ram : Logged (ℕ → Byte)) :
    (loadSegment host data memorySize phdr ram).All
        (ElfAccess.InBounds data.length memorySize.toNat) ↔
      ram.All (ElfAccess.InBounds data.length memorySize.toNat) ∧
        PhdrSafe host data memorySize phdr := by
  unfold loadSegment
  set p := Elf32Phdr.read fun k => elfByte host data (phdr + k) with hp
  dsimp only
  split_ifs with htype hend hfilesz hoffset
  · rw [Logged.all_log]
    refine and_congr_right fun _ =>
      ⟨fun h => ⟨h, fun hload => absurd hload htype, ?_⟩, fun h => h.1⟩
    exact fun hload => absurd hload.1 htype
  all_goals
    have hload : p.pType = ptLoad := not_not.1 htype
    have hlast : (ElfAccess.elfData (phdr + 20) 4).InBounds data.length memorySize.toNat →
        phdr + 24 ≤ data.length := fun h => by
      have hend := h.2
      omega
    simp only [Logged.all_log, all_zeroFill, all_copySegment, and_assoc, List.length_map,
      List.length_range]
    refine and_congr_right fun _ => ?_
  · constructor
    · rintro ⟨htop, -, hpMemsz⟩
      exact ⟨htop, fun _ => hlast hpMemsz, fun hl => absurd hl.2.1 (BitVec.not_le.2 hend)⟩
    · intro h
      exact ⟨h.pType, h.field hload 8 (by decide), h.field hload 20 (by decide)⟩
  · constructor
    · rintro ⟨htop, -, hpMemsz, -⟩
      exact ⟨htop, fun _ => hlast hpMemsz, fun hl => absurd (hl.2.2 hfilesz) (not_le.2 hoffset)⟩
    · intro h
      exact ⟨h.pType, h.field hload 8 (by decide), h.field hload 20 (by decide),
        h.field hload 16 (by decide), h.field hload 4 (by decide)⟩
  · have hchecked : p.IsLoaded data.length memorySize :=
      ⟨hload, BitVec.not_lt.1 hend, fun _ => not_lt.1 hoffset⟩
    constructor
    · rintro ⟨htop, -, hpMemsz, -, -, ⟨-, hread⟩, hcopy, hfill⟩
      refine ⟨htop, fun _ => hlast hpMemsz, fun _ => ⟨fun _ => by exact_mod_cast hread,
        fun _ => hcopy, fun hbss => ?_⟩⟩
      exact (fill_inBounds_iff (fun _ => hcopy) hbss).1 (hfill hbss)
    · intro h
      have hfits := h.segment hchecked
      refine ⟨h.pType, h.field hload 8 (by decide), h.field hload 20 (by decide),
        h.field hload 16 (by decide), h.field hload 4 (by decide),
        ⟨Int.natCast_nonneg _, by exact_mod_cast hfits.file hfilesz⟩, hfits.copy hfilesz,
        fun hbss => ?_⟩
      exact (fill_inBounds_iff hfits.copy hbss).2 (hfits.fill hbss)
  · have hchecked : p.IsLoaded data.length memorySize :=
      ⟨hload, BitVec.not_lt.1 hend, fun h => absurd h hfilesz⟩
    have hnone : p.pFilesz > 0 → p.pVaddr.toNat + p.pFilesz.toNat ≤ memorySize.toNat :=
      fun h => absurd h hfilesz
    constructor
    · rintro ⟨htop, -, hpMemsz, -, hfill⟩
      refine ⟨htop, fun _ => hlast hpMemsz, fun _ => ⟨fun h => absurd h hfilesz, hnone,
        fun hbss => ?_⟩⟩
      exact (fill_inBounds_iff hnone hbss).1 (hfill hbss)
    · intro h
      have hfits := h.segment hchecked
      refine ⟨h.pType, h.field hload 8 (by decide), h.field hload 20 (by decide),
        h.field hload 16 (by decide), fun hbss => ?_⟩
      exact (fill_inBounds_iff hnone hbss).2 (hfits.fill hbss)

/-! ## The loop -/

theorem all_foldl_iff {α β : Type} {P : ElfAccess → Prop} {C : β → Prop}
    {f : Logged α → β → Logged α} (hf : ∀ l b, (f l b).All P ↔ l.All P ∧ C b)
    (bs : List β) (l : Logged α) : (bs.foldl f l).All P ↔ l.All P ∧ ∀ b ∈ bs, C b := by
  induction bs generalizing l with
  | nil => simp
  | cons b bs ih => rw [List.foldl_cons, ih, hf, List.forall_mem_cons, and_assoc]

/-- `rv_load_elf` gets past its checks of the header. -/
structure HeaderAccepted (host : ℤ → Byte) (data : List Byte) : Prop where
  size : Elf32Ehdr.size ≤ data.length
  accepted : (elfHeader host data).accepted = true
  phEnd : (elfHeader host data).phEnd.toNat ≤ data.length
  phentsize : Elf32Phdr.size ≤ (elfHeader host data).ePhentsize.toNat

variable {δ : Type}

/-- The accesses of `rv_load_elf` are in bounds exactly when every header that it reads is in
the buffer, and the sums of those it loads are what they are on unbounded integers. -/
theorem rvLoadElf_inBounds_iff (host : ℤ → Byte) (data : List Byte) (s : State δ) :
    (rvLoadElf host (some data) s).All (ElfAccess.InBounds data.length s.memorySize.toNat) ↔
      (HeaderAccepted host data → ∀ i < (elfHeader host data).ePhnum.toNat,
        PhdrSafe host data s.memorySize ((elfHeader host data).phdrPointer i)) := by
  unfold rvLoadElf
  dsimp only
  split_ifs with hsize haccepted htable
  · refine iff_of_true (fun a ha => absurd ha List.not_mem_nil) fun h => ?_
    exact absurd h.size (not_le.2 hsize)
  all_goals
    have hheader : (ElfAccess.elfData 0 Elf32Ehdr.size).InBounds data.length
        s.memorySize.toNat := ⟨le_rfl, by have hle := not_lt.1 hsize; omega⟩
  · refine iff_of_true (List.forall_mem_singleton.2 hheader) fun h => ?_
    exact absurd h.accepted (by simpa using haccepted)
  · refine iff_of_true (List.forall_mem_singleton.2 hheader) fun h => ?_
    exact absurd htable (not_or.2 ⟨not_lt.2 h.phEnd, not_lt.2 h.phentsize⟩)
  · obtain ⟨hend, hentry⟩ := not_or.1 htable
    have hreached : HeaderAccepted host data :=
      ⟨not_lt.1 hsize, by simpa using haccepted, not_lt.1 hend, not_lt.1 hentry⟩
    have hloop := all_foldl_iff
      (fun ram i => all_loadSegment_iff host data s.memorySize
        ((elfHeader host data).phdrPointer i) ram)
      (List.range (elfHeader host data).ePhnum.toNat)
      ⟨s.memory, [.elfData 0 Elf32Ehdr.size]⟩
    refine hloop.trans ⟨fun h _ i hi => h.2 i (List.mem_range.2 hi), fun h => ⟨?_, ?_⟩⟩
    · exact List.forall_mem_singleton.2 hheader
    · exact fun i hi => h hreached i (List.mem_range.1 hi)

/-- A segment at the top of the address space: its end wraps to 16, and RAM has 64 bytes. -/
theorem not_inBounds_vaddr :
    let data := elfFile 4 [⟨ptLoad, 84, 0xFFFFFFF0, 0, 0x20⟩] []
    let s := State.booted []
    ¬ (rvLoadElf (fun _ => 0) (some data) s).All
      (ElfAccess.InBounds data.length s.memorySize.toNat) := by
  intro data s h
  have hfill := h (.memory 0xFFFFFFF0 0x20) (by decide)
  exact absurd hfill (by decide : ¬ 0xFFFFFFF0 + 0x20 ≤ 64)

end Herve
