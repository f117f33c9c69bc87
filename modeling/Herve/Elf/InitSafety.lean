import Herve.Elf.Safety

/-! The accesses of `rv_init_elf`. The check of a segment compares sums that wrap and looks at
`p_memsz` only; the indices in the section headers and the symbols are not checked at all. -/

namespace Herve
open RiscV (Byte Word)

/-- Every byte that is touched lies in the array; an access of no bytes is in range anywhere. -/
def ElfAccess.InRange (elfSize memorySize : ℕ) : ElfAccess → Prop
  | .elfData offset size => size ≠ 0 → 0 ≤ offset ∧ offset + size ≤ elfSize
  | .memory index size => size ≠ 0 → index + size ≤ memorySize
  | .heap offset size length => size ≠ 0 → offset + size ≤ length

/-! ## Segments -/

/-- How many of the segment's bytes the file has. -/
def Elf32Phdr.available (file : List Byte) (p : Elf32Phdr) : ℕ :=
  min p.pFilesz.toNat (file.length - p.pOffset.toNat)

def Elf32Phdr.IsAccepted (p : Elf32Phdr) (base size : Word) : Prop :=
  base ≤ p.pVaddr ∧ p.pVaddr + p.pMemsz ≤ base + size

structure Elf32Phdr.Lands (file : List Byte) (p : Elf32Phdr) (base size : Word) : Prop where
  copy : p.available file ≠ 0 → p.pVaddr.toNat + p.available file ≤ base.toNat + size.toNat
  fill : p.pMemsz > p.pFilesz →
    (p.pVaddr - base + p.pFilesz).toNat + (p.pMemsz - p.pFilesz).toNat ≤ size.toNat

theorem length_fileBytes_eq (file : List Byte) (p : Elf32Phdr) :
    (fileBytes file p.pOffset.toNat p.pFilesz.toNat).length = p.available file := by
  rw [fileBytes, List.length_take, List.length_drop, Elf32Phdr.available]

theorem all_initSegment_iff (file : List Byte) (base size : Word) (ram : Logged (ℕ → Byte))
    (p : Elf32Phdr) (n : ℕ) :
    (initSegment file base size ram p).All (ElfAccess.InRange n size.toNat) ↔
      ram.All (ElfAccess.InRange n size.toNat) ∧
        (p.IsAccepted base size → p.Lands file base size) := by
  unfold initSegment
  dsimp only
  by_cases hcheck : p.pVaddr < base ∨ p.pVaddr + p.pMemsz > base + size
  · have hskip : ¬ p.IsAccepted base size := fun h =>
      hcheck.elim (BitVec.not_lt.2 h.1) (BitVec.not_lt.2 h.2)
    rw [if_pos hcheck]
    exact ⟨fun h => ⟨h, fun ha => absurd ha hskip⟩, And.left⟩
  · obtain ⟨hbase, hend⟩ := not_or.1 hcheck
    have hbase : base ≤ p.pVaddr := BitVec.not_lt.1 hbase
    have haccepted : p.IsAccepted base size := ⟨hbase, BitVec.not_lt.1 hend⟩
    have hdst : (p.pVaddr - base).toNat = p.pVaddr.toNat - base.toNat :=
      BitVec.toNat_sub_of_le hbase
    have hbase' : base.toNat ≤ p.pVaddr.toNat := hbase
    rw [if_neg hcheck, all_zeroFill]
    have hfill : (p.pMemsz > p.pFilesz → ElfAccess.InRange n size.toNat
          (.memory (p.pVaddr - base + p.pFilesz).toNat (p.pMemsz - p.pFilesz).toNat)) ↔
        (p.pMemsz > p.pFilesz →
          (p.pVaddr - base + p.pFilesz).toNat + (p.pMemsz - p.pFilesz).toNat ≤ size.toNat) := by
      refine imp_congr_right fun hbss => ⟨fun h => h ?_, fun h _ => h⟩
      bv_omega
    have hcopy : (if p.pFilesz > 0 then
          copySegment (p.pVaddr - base) (fileBytes file p.pOffset.toNat p.pFilesz.toNat) ram
          else ram).All (ElfAccess.InRange n size.toNat) ↔
        ram.All (ElfAccess.InRange n size.toNat) ∧ (p.available file ≠ 0 →
          p.pVaddr.toNat + p.available file ≤ base.toNat + size.toNat) := by
      split_ifs with hfilesz
      · rw [all_copySegment, length_fileBytes_eq, hdst]
        refine and_congr_right fun _ => imp_congr_right fun _ => ?_
        omega
      · have hnone : p.available file = 0 := by
          unfold Elf32Phdr.available
          bv_omega
        exact ⟨fun h => ⟨h, fun h0 => absurd hnone h0⟩, And.left⟩
    rw [hcopy, hfill, and_assoc]
    refine and_congr_right fun _ => ⟨fun h _ => ⟨h.1, h.2⟩, fun h => ?_⟩
    exact ⟨(h haccepted).copy, (h haccepted).fill⟩

/-! ## Symbols -/

def Elf32Sym.IsFunction (sym : Elf32Sym) : Prop := sym.stInfo &&& 0xf = sttFunc ∧ sym.stSize > 0
  deriving Decidable

def symAt (syms : List Byte) (j : ℕ) : Elf32Sym :=
  Elf32Sym.read fun k => syms.getD (Elf32Sym.size * j + k) 0

theorem cString_length_lt_iff (table rest : List Byte) :
    (cString (table ++ rest)).length < table.length ↔ 0 ∈ table := by
  unfold cString
  induction table with
  | nil => exact iff_of_false (Nat.not_lt_zero _) List.not_mem_nil
  | cons c table ih =>
    by_cases hc : c = 0
    · rw [List.cons_append, List.takeWhile_cons_of_neg (by simpa using hc)]
      exact iff_of_true (Nat.succ_pos _) (List.mem_cons.2 (.inl hc.symm))
    · rw [List.cons_append, List.takeWhile_cons_of_pos (by simpa using hc), List.mem_cons]
      exact Nat.succ_lt_succ_iff.trans
        (ih.trans ⟨.inr, fun h => h.resolve_left (Ne.symm hc)⟩)

/-- A string ends within a table exactly when there is a terminator at or after its start. -/
theorem cString_inside_iff (strs rest : List Byte) (n : ℕ) :
    n + ((cString ((strs ++ rest).drop n)).length + 1) ≤ strs.length ↔ 0 ∈ strs.drop n := by
  rcases Nat.lt_or_ge strs.length n with hn | hn
  · rw [List.drop_of_length_le hn.le]
    exact iff_of_false (by omega) List.not_mem_nil
  · have hlength : (strs.drop n).length = strs.length - n := List.length_drop
    rw [List.drop_append_of_le_length hn, ← cString_length_lt_iff _ rest, hlength]
    omega

section
variable {n m : ℕ}

theorem all_loadSymbol_iff (syms strs rest : List Byte) (symsLength : ℕ)
    (table : Logged (List Symbol)) (j : ℕ) :
    (loadSymbol syms (strs ++ rest) symsLength strs.length table j).All (ElfAccess.InRange n m) ↔
      table.All (ElfAccess.InRange n m) ∧ Elf32Sym.size * j + Elf32Sym.size ≤ symsLength ∧
        ((symAt syms j).IsFunction → 0 ∈ strs.drop (symAt syms j).stName.toNat) := by
  have hentry : ElfAccess.InRange n m (.heap (Elf32Sym.size * j) Elf32Sym.size symsLength) ↔
      Elf32Sym.size * j + Elf32Sym.size ≤ symsLength :=
    ⟨fun h => h (by decide), fun h _ => h⟩
  rw [← hentry]
  show Logged.All _ (if (symAt syms j).IsFunction then _ else _) ↔ _
  split_ifs with hfunc
  · have hname := cString_inside_iff strs rest (symAt syms j).stName.toNat
    unfold Logged.All Logged.log
    dsimp only
    rw [List.forall_mem_append, List.forall_mem_append, List.forall_mem_singleton,
      List.forall_mem_singleton, and_assoc]
    refine and_congr_right fun _ => and_congr_right fun _ => ?_
    exact ⟨fun h _ => hname.1 (h (Nat.succ_ne_zero _)), fun h _ => hname.2 (h hfunc)⟩
  · rw [Logged.all_log]
    refine and_congr_right fun _ => ⟨fun h => ⟨h, fun hf => absurd hf hfunc⟩, And.left⟩

end

/-- The bytes of a section that the file has. -/
def Elf32Shdr.content (file : List Byte) (shdr : Elf32Shdr) : List Byte :=
  fileBytes file shdr.shOffset.toNat shdr.shSize.toNat

/-- The string table of section `i` is a section, and in it the name of every function of the
symbol table begins and ends. -/
structure SymtabSafe (file : List Byte) (heap : ℕ → List Byte) (shdrs : List Byte) (eShnum i : ℕ) :
    Prop where
  link : (shdrAt shdrs i).shLink.toNat < eShnum
  names : ∀ j < (shdrAt shdrs i).shSize.toNat / Elf32Sym.size,
    (symAt (freadInto ((shdrAt shdrs i).content file) (heap (2 * i + 1))) j).IsFunction →
      0 ∈ ((shdrAt shdrs (shdrAt shdrs i).shLink.toNat).content file).drop
        (symAt (freadInto ((shdrAt shdrs i).content file) (heap (2 * i + 1))) j).stName.toNat

theorem shdr_inRange_iff (n m i eShnum : ℕ) :
    ElfAccess.InRange n m (.heap (Elf32Shdr.size * i) Elf32Shdr.size (Elf32Shdr.size * eShnum)) ↔
      i < eShnum := by
  have hsize : Elf32Shdr.size = 40 := rfl
  rw [ElfAccess.InRange, hsize]
  omega

theorem all_loadSymtab_iff {n m : ℕ} (file : List Byte) (heap : ℕ → List Byte)
    (shdrs : List Byte) (eShnum : ℕ) (table : Logged (List Symbol)) (i : ℕ) :
    (loadSymtab file heap shdrs eShnum table i).All (ElfAccess.InRange n m) ↔
      table.All (ElfAccess.InRange n m) ∧ i < eShnum ∧
        ((shdrAt shdrs i).shType = shtSymtab → SymtabSafe file heap shdrs eShnum i) := by
  unfold loadSymtab
  dsimp only
  split_ifs with htype
  · rw [Logged.all_log, shdr_inRange_iff]
    exact and_congr_right fun _ => ⟨fun h => ⟨h, fun ht => absurd ht htype⟩, And.left⟩
  · have hloop := all_foldl_iff
      (fun t j => all_loadSymbol_iff (n := n) (m := m)
        (freadInto ((shdrAt shdrs i).content file) (heap (2 * i + 1)))
        ((shdrAt shdrs (shdrAt shdrs i).shLink.toNat).content file)
        ((heap (2 * i + 2)).drop
          ((shdrAt shdrs (shdrAt shdrs i).shLink.toNat).content file).length)
        (shdrAt shdrs i).shSize.toNat t j)
      (List.range ((shdrAt shdrs i).shSize.toNat / Elf32Sym.size))
    refine (hloop _).trans ?_
    rw [Logged.all_log, Logged.all_log, shdr_inRange_iff, shdr_inRange_iff, and_assoc, and_assoc]
    refine and_congr_right fun _ => and_congr_right fun _ => ?_
    constructor
    · rintro ⟨hlink, hnames⟩ -
      exact ⟨hlink, fun j hj => (hnames j (List.mem_range.2 hj)).2⟩
    · intro h
      obtain ⟨hlink, hnames⟩ := h (not_not.1 htype)
      refine ⟨hlink, fun j hj => ⟨?_, hnames j (List.mem_range.1 hj)⟩⟩
      -- the entries are as many as fit into the section
      have hentries := (Nat.le_div_iff_mul_le (by decide)).1 (List.mem_range.1 hj)
      rw [← Nat.mul_succ, Nat.mul_comm]
      exact hentries

/-! ## `rv_init_elf` -/

/-- The section headers as they are read, into what the first block holds. -/
def sectionHeaders (file : List Byte) (heap : ℕ → List Byte) : List Byte :=
  freadInto (fileBytes file (fileHeader file).eShoff.toNat
    (Elf32Shdr.size * (fileHeader file).eShnum.toNat)) (heap 0)

structure InitAccepted (file : List Byte) : Prop where
  size : Elf32Ehdr.size ≤ file.length
  accepted : (fileHeader file).accepted = true
  loadable : minAddr (loadPhdrs file (fileHeader file)) < maxAddr (loadPhdrs file (fileHeader file))

/-- What every file would have to satisfy: the segments that are loaded go to RAM, of which
there are `memorySize` bytes, and the section headers index sections and strings that exist. -/
structure InitSafe (file : List Byte) (heap : ℕ → List Byte) (memorySize : Word) : Prop where
  segments : ∀ p ∈ loadPhdrs file (fileHeader file),
    p.IsAccepted (minAddr (loadPhdrs file (fileHeader file))) memorySize →
      p.Lands file (minAddr (loadPhdrs file (fileHeader file))) memorySize
  shstrndx : (fileHeader file).eShstrndx ≠ 0 →
    (fileHeader file).eShstrndx.toNat < (fileHeader file).eShnum.toNat
  symtabs : ∀ i < (fileHeader file).eShnum.toNat,
    (shdrAt (sectionHeaders file heap) i).shType = shtSymtab →
      SymtabSafe file heap (sectionHeaders file heap) (fileHeader file).eShnum.toNat i

theorem all_loadSymbols_iff {n m : ℕ} (file : List Byte) (heap : ℕ → List Byte)
    (table : Logged (List Symbol)) :
    (loadSymbols file heap (fileHeader file) table).All (ElfAccess.InRange n m) ↔
      table.All (ElfAccess.InRange n m) ∧
        ((fileHeader file).eShstrndx ≠ 0 →
          (fileHeader file).eShstrndx.toNat < (fileHeader file).eShnum.toNat) ∧
        ∀ i < (fileHeader file).eShnum.toNat,
          (shdrAt (sectionHeaders file heap) i).shType = shtSymtab →
            SymtabSafe file heap (sectionHeaders file heap) (fileHeader file).eShnum.toNat i := by
  have hloop := all_foldl_iff
    (all_loadSymtab_iff (n := n) (m := m) file heap (sectionHeaders file heap)
      (fileHeader file).eShnum.toNat)
    (List.range (fileHeader file).eShnum.toNat)
  have hnames : (if (fileHeader file).eShstrndx ≠ 0 then
        table.log (.heap (Elf32Shdr.size * (fileHeader file).eShstrndx.toNat) Elf32Shdr.size
          (Elf32Shdr.size * (fileHeader file).eShnum.toNat)) else table).All
            (ElfAccess.InRange n m) ↔
      table.All (ElfAccess.InRange n m) ∧ ((fileHeader file).eShstrndx ≠ 0 →
        (fileHeader file).eShstrndx.toNat < (fileHeader file).eShnum.toNat) := by
    split_ifs with hindex
    · rw [Logged.all_log, shdr_inRange_iff]
      exact and_congr_right fun _ => ⟨fun h _ => h, fun h => h hindex⟩
    · exact ⟨fun h => ⟨h, fun h0 => absurd h0 hindex⟩, And.left⟩
  refine (hloop _).trans ?_
  rw [hnames, and_assoc]
  refine and_congr_right fun _ => and_congr_right fun _ => ?_
  exact ⟨fun h i hi => (h i (List.mem_range.2 hi)).2,
    fun h i hi => ⟨List.mem_range.1 hi, h i (List.mem_range.1 hi)⟩⟩

variable {δ : Type}

/-- The accesses of `rv_init_elf` are in range exactly when the file is rejected, RAM cannot be
allocated or the file is safe for the RAM that is allocated. -/
theorem rvInitElf_inRange_iff (file : List Byte) (ramSize : ℕ) (block : Option (ℕ → Byte))
    (heap : ℕ → List Byte) (s : State δ) :
    (rvInitElf (some file) ramSize block heap s).All (ElfAccess.InRange file.length
        (rvInitElf (some file) ramSize block heap s).value.2.memorySize.toNat) ↔
      (InitAccepted file → block.isSome → InitSafe file heap
        (ramNeeded ramSize (minAddr (loadPhdrs file (fileHeader file)))
          (maxAddr (loadPhdrs file (fileHeader file)) -
            minAddr (loadPhdrs file (fileHeader file))))) := by
  have hnothing : ∀ (P : ElfAccess → Prop) (v : Word × State δ), Logged.All P ⟨v, []⟩ :=
    fun P v a ha => absurd ha List.not_mem_nil
  unfold rvInitElf
  dsimp only
  split_ifs with hsize haccepted haddr
  · exact iff_of_true (hnothing _ _) fun h => absurd h.size (not_le.2 hsize)
  · exact iff_of_true (hnothing _ _) fun h => absurd h.accepted (by simpa using haccepted)
  · exact iff_of_true (hnothing _ _) fun h => absurd h.loadable (BitVec.not_lt.2 haddr)
  · have hreached : InitAccepted file :=
      ⟨not_lt.1 hsize, by simpa using haccepted, BitVec.not_le.1 haddr⟩
    cases block with
    | none => exact iff_of_true (hnothing _ _) fun _ h => absurd h Bool.false_ne_true
    | some block =>
      refine (all_loadSymbols_iff file heap _).trans ?_
      have hloop := all_foldl_iff
        (fun ram p => all_initSegment_iff file
          (minAddr (loadPhdrs file (fileHeader file)))
          (ramNeeded ramSize (minAddr (loadPhdrs file (fileHeader file)))
            (maxAddr (loadPhdrs file (fileHeader file)) -
              minAddr (loadPhdrs file (fileHeader file)))) ram p file.length)
        (loadPhdrs file (fileHeader file))
      -- the symbols go on with the log of the segments
      refine (and_congr_left fun _ => hloop _).trans ?_
      constructor
      · rintro ⟨⟨-, hsegments⟩, hshstrndx, hsymtabs⟩ - -
        exact ⟨hsegments, hshstrndx, hsymtabs⟩
      · intro h
        obtain ⟨hsegments, hshstrndx, hsymtabs⟩ := h hreached rfl
        exact ⟨⟨fun a ha => absurd ha List.not_mem_nil, hsegments⟩, hshstrndx, hsymtabs⟩

/-- Two segments, of which the second ends 16 bytes past the top of the address space: the check
sees its end at 16, and RAM has 1 MB. -/
theorem not_inRange_vaddr :
    let file := elfFile 4 [⟨ptLoad, 116, 0, 0, 0x1000⟩, ⟨ptLoad, 116, 0xFFFFFFF0, 0, 0x20⟩] []
    let init := rvInitElf (some file) 0 (some fun _ => 0) (fun _ => []) (State.start ())
    ¬ init.All (ElfAccess.InRange file.length init.value.2.memorySize.toNat) := by
  intro file init h
  have hfill := h (.memory 0xFFFFFFF0 0x20) (by decide +kernel) (by decide)
  exact absurd hfill (by decide +kernel)

end Herve
