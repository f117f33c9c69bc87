import Herve.Lib.Overlay
import Herve.Iss.Elf

/-! What an ELF file says should be in memory, and what the two loaders put there: each segment
that they accept is one block of bytes, the file's and then zeros. -/

namespace Herve
open RiscV (Byte Word fromBytes fromBytes_congr)

/-- The loadable segments, in the order of their headers. -/
def segments (file : List Byte) : List Elf32Phdr := loadPhdrs file (fileHeader file)

def Elf32Phdr.byte (file : List Byte) (p : Elf32Phdr) (i : ℕ) : Byte :=
  if i < p.pFilesz.toNat then file.getD (p.pOffset.toNat + i) 0 else 0

def Elf32Phdr.Covers (p : Elf32Phdr) (addr : ℕ) : Prop :=
  p.pVaddr.toNat ≤ addr ∧ addr < p.pVaddr.toNat + p.pMemsz.toNat

/-- A file whose headers say where to find what they describe, and describe segments that do
not overlap and end below `2 ^ 32`. -/
structure WellFormed (file : List Byte) : Prop where
  size : Elf32Ehdr.size ≤ file.length
  accepted : (fileHeader file).accepted = true
  phentsize : Elf32Phdr.size ≤ (fileHeader file).ePhentsize.toNat
  table : (fileHeader file).ePhoff.toNat +
    (fileHeader file).ePhnum.toNat * (fileHeader file).ePhentsize.toNat ≤ file.length
  table_lt : (fileHeader file).ePhoff.toNat +
    (fileHeader file).ePhnum.toNat * (fileHeader file).ePhentsize.toNat < 2 ^ 32
  index_lt : (fileHeader file).ePhnum.toNat * (fileHeader file).ePhentsize.toNat < 2 ^ 31
  filesz_le : ∀ p ∈ segments file, p.pFilesz ≤ p.pMemsz
  present : ∀ p ∈ segments file, p.pFilesz > 0 →
    p.pOffset.toNat + p.pFilesz.toNat ≤ file.length
  top_lt : ∀ p ∈ segments file, p.pVaddr.toNat + p.pMemsz.toNat < 2 ^ 32
  disjoint : (segments file).Pairwise fun p q => ∀ addr, p.Covers addr → ¬ q.Covers addr

/-- With a single segment there is nothing to overlap. -/
theorem wellFormed_of_one {file : List Byte} {p : Elf32Phdr} (hp : segments file = [p])
    (hheader : Elf32Ehdr.size ≤ file.length ∧ (fileHeader file).accepted = true ∧
      Elf32Phdr.size ≤ (fileHeader file).ePhentsize.toNat ∧
      (fileHeader file).ePhoff.toNat +
        (fileHeader file).ePhnum.toNat * (fileHeader file).ePhentsize.toNat ≤ file.length ∧
      (fileHeader file).ePhoff.toNat +
        (fileHeader file).ePhnum.toNat * (fileHeader file).ePhentsize.toNat < 2 ^ 31)
    (hsegment : p.pFilesz ≤ p.pMemsz ∧
      (p.pFilesz > 0 → p.pOffset.toNat + p.pFilesz.toNat ≤ file.length) ∧
      p.pVaddr.toNat + p.pMemsz.toNat < 2 ^ 32) : WellFormed file := by
  obtain ⟨hsize, haccepted, hphentsize, htable, htable_lt⟩ := hheader
  obtain ⟨hfilesz, hpresent, htop⟩ := hsegment
  refine ⟨hsize, haccepted, hphentsize, htable, by omega, by omega, ?_, ?_, ?_, ?_⟩
  · rw [hp]
    exact List.forall_mem_singleton.2 hfilesz
  · rw [hp]
    exact List.forall_mem_singleton.2 hpresent
  · rw [hp]
    exact List.forall_mem_singleton.2 htop
  · rw [hp]
    exact List.pairwise_singleton _ _

/-- One segment, whose file bytes are an instruction. -/
def oneSegment (vaddr memsz insn : Word) : List Byte :=
  elfFile (vaddr + 4) [⟨ptLoad, 84, vaddr, 4, memsz⟩] (programBytes [insn])

/-! ## Blocks of bytes -/

theorem copyBytes_eq_put (dst : ℕ) (src : List Byte) (mem : ℕ → Byte) :
    copyBytes dst src mem = Overlay.Block.put mem ⟨dst, src⟩ := by
  funext i
  unfold copyBytes Overlay.Block.put
  by_cases h : Overlay.Block.Covers ⟨dst, src⟩ i
  · have hi : dst ≤ i ∧ i < dst + src.length := h
    rw [dif_pos h, if_pos hi, List.getD_eq_getElem _ _ (Overlay.Block.covers_lt h)]
    rfl
  · rw [dif_neg h]
    exact if_neg h

theorem zeroBytes_eq_copyBytes (dst n : ℕ) (mem : ℕ → Byte) :
    zeroBytes dst n mem = copyBytes dst (List.replicate n 0) mem := by
  funext i
  unfold zeroBytes copyBytes
  rw [List.length_replicate]
  split_ifs with h
  · rw [List.getD_eq_getElem _ _ (by rw [List.length_replicate]; omega), List.getElem_replicate]
  · rfl

theorem copyBytes_append (dst : ℕ) (src src' : List Byte) (mem : ℕ → Byte) :
    copyBytes (dst + src.length) src' (copyBytes dst src mem) =
      copyBytes dst (src ++ src') mem := by
  funext i
  unfold copyBytes
  rw [List.length_append]
  by_cases h' : dst + src.length ≤ i ∧ i < dst + src.length + src'.length
  · rw [if_pos h', if_pos (by omega), List.getD_append_right _ _ _ _ (by omega)]
    congr 1
    omega
  · rw [if_neg h']
    by_cases h : dst ≤ i ∧ i < dst + src.length
    · rw [if_pos h, if_pos (by omega), List.getD_append _ _ _ _ (by omega)]
    · rw [if_neg h, if_neg (by omega)]

theorem copyBytes_nil (dst : ℕ) (mem : ℕ → Byte) : copyBytes dst [] mem = mem := by
  funext i
  exact if_neg fun h => absurd h.2 (not_lt.2 h.1)

def Elf32Phdr.image (file : List Byte) (p : Elf32Phdr) : List Byte :=
  fileBytes file p.pOffset.toNat p.pFilesz.toNat ++
    List.replicate (p.pMemsz.toNat - p.pFilesz.toNat) 0

def Elf32Phdr.blockAt (file : List Byte) (p : Elf32Phdr) (dst : ℕ) : Overlay.Block Byte :=
  ⟨dst, p.image file⟩

theorem copyBytes_no_file {p : Elf32Phdr} (h : ¬ p.pFilesz > 0) (file : List Byte) (dst : ℕ)
    (mem : ℕ → Byte) :
    copyBytes dst (fileBytes file p.pOffset.toNat p.pFilesz.toNat) mem = mem := by
  have hzero : p.pFilesz.toNat = 0 := by bv_omega
  rw [hzero, fileBytes, List.take_zero, copyBytes_nil]

namespace WellFormed
variable {file : List Byte} {p : Elf32Phdr}

theorem length_fileBytes (hwf : WellFormed file) (hp : p ∈ segments file) :
    (fileBytes file p.pOffset.toNat p.pFilesz.toNat).length = p.pFilesz.toNat := by
  rw [fileBytes, List.length_take, List.length_drop]
  by_cases h : p.pFilesz > 0
  · have hle := hwf.present p hp h
    omega
  · have hzero : p.pFilesz.toNat = 0 := by bv_omega
    omega

theorem length_image (hwf : WellFormed file) (hp : p ∈ segments file) :
    (p.image file).length = p.pMemsz.toNat := by
  have hle : p.pFilesz.toNat ≤ p.pMemsz.toNat := hwf.filesz_le p hp
  rw [Elf32Phdr.image, List.length_append, hwf.length_fileBytes hp, List.length_replicate]
  omega

theorem image_getElem (hwf : WellFormed file) (hp : p ∈ segments file) {i : ℕ}
    (hi : i < (p.image file).length) : (p.image file)[i] = p.byte file i := by
  have hlength := hwf.length_fileBytes hp
  rw [← List.getD_eq_getElem _ 0 hi]
  unfold Elf32Phdr.image Elf32Phdr.byte
  by_cases hfile : i < p.pFilesz.toNat
  · have hlt : p.pOffset.toNat + i < file.length := by
      have hle := hwf.present p hp (by bv_omega)
      omega
    have hleft : i < (fileBytes file p.pOffset.toNat p.pFilesz.toNat).length := by omega
    rw [if_pos hfile, List.getD_append _ _ _ _ hleft, List.getD_eq_getElem _ _ hleft,
      List.getD_eq_getElem _ _ hlt]
    simp only [fileBytes, List.getElem_take, List.getElem_drop]
  · rw [if_neg hfile, List.getD_append_right _ _ _ _ (by omega), List.getD_eq_getElem?_getD,
      List.getElem?_getD_replicate_default_eq]

theorem copy_fill_value (hwf : WellFormed file) (hp : p ∈ segments file) {dst : Word}
    (hdst : dst.toNat + p.pMemsz.toNat < 2 ^ 32) {ram ram' : Logged (ℕ → Byte)}
    (hcopy : ram'.value =
      copyBytes dst.toNat (fileBytes file p.pOffset.toNat p.pFilesz.toNat) ram.value) :
    (zeroFill dst p ram').value = Overlay.Block.put ram.value (p.blockAt file dst.toNat) := by
  have hle : p.pFilesz.toNat ≤ p.pMemsz.toNat := hwf.filesz_le p hp
  rw [Elf32Phdr.blockAt, ← copyBytes_eq_put, Elf32Phdr.image, ← copyBytes_append,
    ← zeroBytes_eq_copyBytes, hwf.length_fileBytes hp, ← hcopy]
  unfold zeroFill
  split_ifs with hfill
  · have hstart : (dst + p.pFilesz).toNat = dst.toNat + p.pFilesz.toNat :=
      BitVec.toNat_add_of_lt (by omega)
    have hsize : (p.pMemsz - p.pFilesz).toNat = p.pMemsz.toNat - p.pFilesz.toNat :=
      BitVec.toNat_sub_of_le hle
    rw [hstart, hsize]
  · have hnone : p.pMemsz.toNat - p.pFilesz.toNat = 0 := by bv_omega
    rw [hnone, zeroBytes_eq_copyBytes, List.replicate_zero, copyBytes_nil]

end WellFormed

/-! ## Headers -/

theorem structField_congr {b b' : ℕ → Byte} {offset size bound : ℕ}
    (h : ∀ k < bound, b k = b' k) (hle : offset + size ≤ bound) :
    structField b offset size = structField b' offset size :=
  fromBytes_congr fun k hk => h (offset + k) (by omega)

theorem Elf32Ehdr.read_congr {b b' : ℕ → Byte} (h : ∀ k < Elf32Ehdr.size, b k = b' k) :
    Elf32Ehdr.read b = Elf32Ehdr.read b' := by
  have hfield : ∀ offset size, offset + size ≤ Elf32Ehdr.size →
      structField b offset size = structField b' offset size :=
    fun _ _ hle => structField_congr h hle
  have hident : ∀ k : Fin 16, b k = b' k := fun k => h k (k.isLt.trans (by decide))
  unfold Elf32Ehdr.read
  rw [hfield 18 2 (by decide), hfield 24 4 (by decide), hfield 28 4 (by decide),
    hfield 32 4 (by decide), hfield 42 2 (by decide), hfield 44 2 (by decide),
    hfield 48 2 (by decide), hfield 50 2 (by decide), funext hident]

theorem Elf32Phdr.read_congr {b b' : ℕ → Byte} (h : ∀ k < Elf32Phdr.size, b k = b' k) :
    Elf32Phdr.read b = Elf32Phdr.read b' := by
  have hfield : ∀ offset size, offset + size ≤ Elf32Phdr.size →
      structField b offset size = structField b' offset size :=
    fun _ _ hle => structField_congr h hle
  unfold Elf32Phdr.read
  rw [hfield 0 4 (by decide), hfield 4 4 (by decide), hfield 8 4 (by decide),
    hfield 16 4 (by decide), hfield 20 4 (by decide)]

theorem elfByte_inside (host : ℤ → Byte) {file : List Byte} {offset : ℤ} {k : ℕ}
    (hoffset : offset = k) (hk : k < file.length) : elfByte host file offset = file.getD k 0 := by
  subst hoffset
  rw [elfByte, if_pos ⟨Int.natCast_nonneg k, by exact_mod_cast hk⟩, Int.toNat_natCast]

theorem elfHeader_eq (host : ℤ → Byte) {file : List Byte} (hsize : Elf32Ehdr.size ≤ file.length) :
    elfHeader host file = fileHeader file :=
  Elf32Ehdr.read_congr fun _ hk => elfByte_inside host rfl (lt_of_lt_of_le hk hsize)

section
variable {file : List Byte}

/-- Where the `i`-th header is, on unbounded integers. -/
def phdrOffset (file : List Byte) (i : ℕ) : ℕ :=
  (fileHeader file).ePhoff.toNat + i * (fileHeader file).ePhentsize.toNat

def phdrAt (file : List Byte) (i : ℕ) : Elf32Phdr :=
  Elf32Phdr.read fun k => file.getD (phdrOffset file i + k) 0

namespace WellFormed

theorem phdr_le (hwf : WellFormed file) {i : ℕ} (hi : i < (fileHeader file).ePhnum.toNat) :
    phdrOffset file i + Elf32Phdr.size ≤ file.length ∧ phdrOffset file i < 2 ^ 32 ∧
      i * (fileHeader file).ePhentsize.toNat < 2 ^ 31 := by
  have hnext : (i + 1) * (fileHeader file).ePhentsize.toNat ≤
      (fileHeader file).ePhnum.toNat * (fileHeader file).ePhentsize.toNat :=
    Nat.mul_le_mul_right _ hi
  rw [Nat.succ_mul] at hnext
  have htable := hwf.table
  have htable' := hwf.table_lt
  have hindex := hwf.index_lt
  have hentry := hwf.phentsize
  unfold phdrOffset
  omega

theorem phdrIndex_toNat (hwf : WellFormed file) {i : ℕ}
    (hi : i < (fileHeader file).ePhnum.toNat) :
    ((fileHeader file).phdrIndex i).toNat = i * (fileHeader file).ePhentsize.toNat := by
  have hlt := (hwf.phdr_le hi).2.2
  have hi32 : i < 2 ^ 32 := hi.trans ((fileHeader file).ePhnum.isLt.trans (by decide))
  have hentry : ((fileHeader file).ePhentsize.setWidth 32).toNat =
      (fileHeader file).ePhentsize.toNat :=
    BitVec.toNat_setWidth_of_le (by decide)
  rw [Elf32Ehdr.phdrIndex, BitVec.toNat_mul, BitVec.toNat_ofNat, Nat.mod_eq_of_lt hi32, hentry,
    Nat.mod_eq_of_lt (by omega)]

theorem phdrPointer_eq (hwf : WellFormed file) {i : ℕ}
    (hi : i < (fileHeader file).ePhnum.toNat) :
    (fileHeader file).phdrPointer i = phdrOffset file i := by
  have hlt := (hwf.phdr_le hi).2.2
  have hindex := hwf.phdrIndex_toNat hi
  rw [Elf32Ehdr.phdrPointer, BitVec.toInt_eq_toNat_of_lt (by omega), hindex]
  exact_mod_cast rfl

theorem phdr_add_toNat (hwf : WellFormed file) {i : ℕ}
    (hi : i < (fileHeader file).ePhnum.toNat) :
    ((fileHeader file).ePhoff + (fileHeader file).phdrIndex i).toNat = phdrOffset file i := by
  have hlt := (hwf.phdr_le hi).2.1
  have hindex := hwf.phdrIndex_toNat hi
  unfold phdrOffset at hlt ⊢
  rw [BitVec.toNat_add_of_lt (by omega), hindex]

theorem read_elfByte (hwf : WellFormed file) (host : ℤ → Byte) {i : ℕ}
    (hi : i < (fileHeader file).ePhnum.toNat) :
    (Elf32Phdr.read fun k => elfByte host file ((fileHeader file).phdrPointer i + k)) =
      phdrAt file i := by
  have hle := (hwf.phdr_le hi).1
  refine Elf32Phdr.read_congr fun k hk => elfByte_inside host ?_ (by omega)
  rw [hwf.phdrPointer_eq hi]
  exact_mod_cast rfl

theorem readPhdr_eq (hwf : WellFormed file) {i : ℕ}
    (hi : i < (fileHeader file).ePhnum.toNat) :
    readPhdr file (fileHeader file) i = some (phdrAt file i) := by
  have hle := (hwf.phdr_le hi).1
  have hlength : (fileBytes file (phdrOffset file i) Elf32Phdr.size).length = Elf32Phdr.size := by
    rw [fileBytes, List.length_take, List.length_drop]
    omega
  unfold readPhdr
  dsimp only
  rw [hwf.phdr_add_toNat hi, if_pos hlength]
  refine congrArg some (Elf32Phdr.read_congr fun k hk => ?_)
  have hlt : k < (fileBytes file (phdrOffset file i) Elf32Phdr.size).length := by omega
  rw [List.getD_eq_getElem _ _ hlt, List.getD_eq_getElem _ _ (by omega)]
  simp only [fileBytes, List.getElem_take, List.getElem_drop]

theorem segments_eq (hwf : WellFormed file) :
    segments file = ((List.range (fileHeader file).ePhnum.toNat).map (phdrAt file)).filter
      fun p => p.pType = ptLoad := by
  rw [segments, loadPhdrs, ← List.filterMap_eq_map]
  congr 1
  exact List.filterMap_congr fun i hi => hwf.readPhdr_eq (List.mem_range.1 hi)

end WellFormed
end

/-! ## The loops -/

/-- A loop whose steps each put a block down or leave RAM alone. -/
theorem foldl_putAll {β : Type} {f : Logged (ℕ → Byte) → β → Logged (ℕ → Byte)}
    {block : β → Option (Overlay.Block Byte)} {bs : List β}
    (hf : ∀ b ∈ bs, ∀ ram, (f ram b).value = (block b).elim ram.value (Overlay.Block.put ram.value))
    (ram : Logged (ℕ → Byte)) :
    (bs.foldl f ram).value = Overlay.putAll (bs.filterMap block) ram.value := by
  induction bs generalizing ram with
  | nil => rfl
  | cons b bs ih =>
    obtain ⟨hb, hbs⟩ := List.forall_mem_cons.1 hf
    rw [List.foldl_cons, ih hbs, hb]
    cases hblock : block b with
    | none => rw [List.filterMap_cons_none hblock]; rfl
    | some blk => rw [List.filterMap_cons_some hblock]; rfl

/-- The blocks of the segments that are accepted, with the first address at index 0. -/
def acceptedBlocks (file : List Byte) (accept : Elf32Phdr → Prop) [DecidablePred accept]
    (base : ℕ) : List (Overlay.Block Byte) :=
  (segments file).filterMap fun p =>
    if accept p then some (p.blockAt file (p.pVaddr.toNat - base)) else none

section
variable {file : List Byte} {accept : Elf32Phdr → Prop} [DecidablePred accept] {base : ℕ}
  {mem : ℕ → Byte}

theorem mem_acceptedBlocks {b : Overlay.Block Byte} :
    b ∈ acceptedBlocks file accept base ↔
      ∃ p ∈ segments file, accept p ∧ p.blockAt file (p.pVaddr.toNat - base) = b := by
  unfold acceptedBlocks
  rw [List.mem_filterMap]
  simp only [Option.ite_none_right_eq_some, Option.some.injEq]

theorem WellFormed.blockAt_covers_iff (hwf : WellFormed file) {p : Elf32Phdr}
    (hp : p ∈ segments file) (hbase : base ≤ p.pVaddr.toNat) (i : ℕ) :
    (p.blockAt file (p.pVaddr.toNat - base)).Covers i ↔ p.Covers (base + i) := by
  have hlength := hwf.length_image hp
  show p.pVaddr.toNat - base ≤ i ∧ i < p.pVaddr.toNat - base + (p.image file).length ↔
    p.pVaddr.toNat ≤ base + i ∧ base + i < p.pVaddr.toNat + p.pMemsz.toNat
  omega

theorem WellFormed.putAll_at (hwf : WellFormed file)
    (hbase : ∀ p ∈ segments file, base ≤ p.pVaddr.toNat) {p : Elf32Phdr}
    (hp : p ∈ segments file) (haccept : accept p) {i : ℕ} (hi : i < p.pMemsz.toNat) :
    Overlay.putAll (acceptedBlocks file accept base) mem (p.pVaddr.toNat - base + i) =
      p.byte file i := by
  have hdisjoint : (acceptedBlocks file accept base).Pairwise Overlay.Block.Disjoint := by
    unfold acceptedBlocks
    rw [List.pairwise_filterMap]
    refine hwf.disjoint.imp_of_mem fun {q r} hq hr hqr b hb c hc => ?_
    cases (Option.ite_none_right_eq_some.1 hb).2
    cases (Option.ite_none_right_eq_some.1 hc).2
    intro j hqj hrj
    rw [hwf.blockAt_covers_iff hq (hbase q hq)] at hqj
    rw [hwf.blockAt_covers_iff hr (hbase r hr)] at hrj
    exact hqr _ hqj hrj
  have hlt : i < (p.image file).length := hwf.length_image hp ▸ hi
  have hblock : p.blockAt file (p.pVaddr.toNat - base) ∈ acceptedBlocks file accept base :=
    mem_acceptedBlocks.2 ⟨p, hp, haccept, rfl⟩
  exact (Overlay.putAll_at hdisjoint hblock hlt).trans (hwf.image_getElem hp hlt)

theorem WellFormed.putAll_rest (hwf : WellFormed file)
    (hbase : ∀ p ∈ segments file, base ≤ p.pVaddr.toNat) {i : ℕ}
    (h : ∀ p ∈ segments file, accept p → ¬ p.Covers (base + i)) :
    Overlay.putAll (acceptedBlocks file accept base) mem i = mem i := by
  refine Overlay.putAll_of_not_covers fun b hb => ?_
  obtain ⟨p, hp, haccept, rfl⟩ := mem_acceptedBlocks.1 hb
  rw [hwf.blockAt_covers_iff hp (hbase p hp)]
  exact h p hp haccept

end

end Herve
