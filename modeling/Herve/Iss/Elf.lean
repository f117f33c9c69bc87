import Herve.Iss.Init

/-! `rv_load_elf` and `rv_init_elf`. Both log the array accesses that an ELF file steers; reads
of the file itself are not among them, since `fread` stops at its end. -/

namespace Herve
open RiscV (Byte Word Reg fromBytes)

/-- An access to the buffer, to `memory[]`, or to a block that `malloc` returned and that holds
`length` bytes of the file: first byte and number of bytes. -/
inductive ElfAccess
  | elfData (offset : ℤ) (size : ℕ)
  | memory (index size : ℕ)
  | heap (offset size length : ℕ)
  deriving DecidableEq, Repr

/-- What a loader has computed, and the accesses it made for that. -/
structure Logged (α : Type) where
  value : α
  accesses : List ElfAccess

def Logged.log {α : Type} (l : Logged α) (a : ElfAccess) : Logged α :=
  { l with accesses := l.accesses ++ [a] }

/-! ## Headers -/

def ptLoad : Word := 1
def shtSymtab : Word := 2
def sttFunc : Byte := 2

/-- A field of a host struct: `size` bytes at `offset`. -/
def structField (b : ℕ → Byte) (offset size : ℕ) : Word := fromBytes size fun k => b (offset + k)

structure Elf32Ehdr where
  eIdent : Fin 16 → Byte
  eMachine : BitVec 16
  eEntry : Word
  ePhoff : Word
  eShoff : Word
  ePhentsize : BitVec 16
  ePhnum : BitVec 16
  eShnum : BitVec 16
  eShstrndx : BitVec 16

def Elf32Ehdr.size : ℕ := 52

def Elf32Ehdr.read (b : ℕ → Byte) : Elf32Ehdr where
  eIdent k := b k
  eMachine := (structField b 18 2).setWidth 16
  eEntry := structField b 24 4
  ePhoff := structField b 28 4
  eShoff := structField b 32 4
  ePhentsize := (structField b 42 2).setWidth 16
  ePhnum := (structField b 44 2).setWidth 16
  eShnum := (structField b 48 2).setWidth 16
  eShstrndx := (structField b 50 2).setWidth 16

/-- Magic, class, byte order and machine. -/
def Elf32Ehdr.accepted (ehdr : Elf32Ehdr) : Bool :=
  ehdr.eIdent 0 = 0x7f && ehdr.eIdent 1 = 0x45 && ehdr.eIdent 2 = 0x4c && ehdr.eIdent 3 = 0x46 &&
    ehdr.eIdent 4 = 1 && ehdr.eIdent 5 = 1 && ehdr.eMachine = 0xF3

/-- `i * e_phentsize`, an `int`. -/
def Elf32Ehdr.phdrIndex (ehdr : Elf32Ehdr) (i : ℕ) : Word :=
  BitVec.ofNat 32 i * ehdr.ePhentsize.setWidth 32

def Elf32Ehdr.phEnd (ehdr : Elf32Ehdr) : Word :=
  ehdr.ePhoff + ehdr.ePhnum.setWidth 32 * ehdr.ePhentsize.setWidth 32

/-- `elf_data + e_phoff + i * e_phentsize`, from `elf_data` -/
def Elf32Ehdr.phdrPointer (ehdr : Elf32Ehdr) (i : ℕ) : ℤ :=
  ehdr.ePhoff.toNat + (ehdr.phdrIndex i).toInt

structure Elf32Phdr where
  pType : Word
  pOffset : Word
  pVaddr : Word
  pFilesz : Word
  pMemsz : Word
  deriving DecidableEq

def Elf32Phdr.size : ℕ := 32

def Elf32Phdr.read (b : ℕ → Byte) : Elf32Phdr where
  pType := structField b 0 4
  pOffset := structField b 4 4
  pVaddr := structField b 8 4
  pFilesz := structField b 16 4
  pMemsz := structField b 20 4

structure Elf32Shdr where
  shType : Word
  shOffset : Word
  shSize : Word
  shLink : Word

def Elf32Shdr.size : ℕ := 40

def Elf32Shdr.read (b : ℕ → Byte) : Elf32Shdr where
  shType := structField b 4 4
  shOffset := structField b 16 4
  shSize := structField b 20 4
  shLink := structField b 24 4

structure Elf32Sym where
  stName : Word
  stValue : Word
  stSize : Word
  stInfo : Byte

def Elf32Sym.size : ℕ := 16

def Elf32Sym.read (b : ℕ → Byte) : Elf32Sym where
  stName := structField b 0 4
  stValue := structField b 4 4
  stSize := structField b 8 4
  stInfo := b 12

/-! ## Segments -/

/-- `memcpy` or `fread` of `bytes` to `&memory[dst]`. -/
def copySegment (dst : Word) (bytes : List Byte) (ram : Logged (ℕ → Byte)) :
    Logged (ℕ → Byte) where
  value := copyBytes dst.toNat bytes ram.value
  accesses := ram.accesses ++ [.memory dst.toNat bytes.length]

/-- `memset(&memory[dst + p_filesz], 0, p_memsz - p_filesz)` where that is anything. -/
def zeroFill (dst : Word) (p : Elf32Phdr) (ram : Logged (ℕ → Byte)) : Logged (ℕ → Byte) :=
  if p.pMemsz > p.pFilesz then
    { value := zeroBytes (dst + p.pFilesz).toNat (p.pMemsz - p.pFilesz).toNat ram.value
      accesses := ram.accesses ++
        [.memory (dst + p.pFilesz).toNat (p.pMemsz - p.pFilesz).toNat] }
  else ram

/-- `elf_data[offset]`; `host` gives what lies outside the buffer. -/
def elfByte (host : ℤ → Byte) (data : List Byte) (offset : ℤ) : Byte :=
  if 0 ≤ offset ∧ offset < data.length then data.getD offset.toNat 0 else host offset

/-- The body of `rv_load_elf`'s loop for the header at `elf_data + phdr`. A field is logged
where the source first reads it. -/
def loadSegment (host : ℤ → Byte) (data : List Byte) (memorySize : Word) (phdr : ℤ)
    (ram : Logged (ℕ → Byte)) : Logged (ℕ → Byte) :=
  let p := Elf32Phdr.read fun k => elfByte host data (phdr + k)
  let ram := ram.log (.elfData phdr 4)
  if p.pType ≠ ptLoad then ram
  else
    let ram := (ram.log (.elfData (phdr + 8) 4)).log (.elfData (phdr + 20) 4)
    if p.pVaddr + p.pMemsz > memorySize then ram
    else
      let ram := ram.log (.elfData (phdr + 16) 4)
      if p.pFilesz > 0 then
        let ram := ram.log (.elfData (phdr + 4) 4)
        -- the sum is 32 bits wide, `elf_size` need not be; the `continue` skips the BSS too
        if (p.pOffset + p.pFilesz).toNat > data.length then ram
        else
          let ram := ram.log (.elfData p.pOffset.toNat p.pFilesz.toNat)
          let bytes := (List.range p.pFilesz.toNat).map fun k : ℕ =>
            elfByte host data (p.pOffset.toNat + k)
          zeroFill p.pVaddr p (copySegment p.pVaddr bytes ram)
      else zeroFill p.pVaddr p ram

def elfHeader (host : ℤ → Byte) (data : List Byte) : Elf32Ehdr :=
  Elf32Ehdr.read fun k => elfByte host data k

def rvLoadElf {δ : Type} (host : ℤ → Byte) (elfData : Option (List Byte)) (s : State δ) :
    Logged (Word × State δ) :=
  match elfData with
  | none => ⟨(0, s), []⟩
  | some data =>
    if data.length < Elf32Ehdr.size then ⟨(0, s), []⟩
    else
      let ehdr := elfHeader host data
      let header := [ElfAccess.elfData 0 Elf32Ehdr.size]
      if !ehdr.accepted then ⟨(0, s), header⟩
      else if ehdr.phEnd.toNat > data.length ∨ ehdr.ePhentsize.toNat < Elf32Phdr.size then
        ⟨(0, s), header⟩
      else
        let ram := (List.range ehdr.ePhnum.toNat).foldl
          (fun ram i => loadSegment host data s.memorySize (ehdr.phdrPointer i) ram)
          ⟨s.memory, header⟩
        ⟨(ehdr.eEntry, { s with memory := ram.value }), ram.accesses⟩

/-! ## Loading a file -/

/-- `fseek` to `offset` and `fread` of `size` bytes: what the file has of them. -/
def fileBytes (file : List Byte) (offset size : ℕ) : List Byte := (file.drop offset).take size

def fileHeader (file : List Byte) : Elf32Ehdr := Elf32Ehdr.read fun k => file.getD k 0

/-- The header at which the loops of `rv_init_elf` look for `i`, if the file has all of it. -/
def readPhdr (file : List Byte) (ehdr : Elf32Ehdr) (i : ℕ) : Option Elf32Phdr :=
  let bytes := fileBytes file (ehdr.ePhoff + ehdr.phdrIndex i).toNat Elf32Phdr.size
  if bytes.length = Elf32Phdr.size then some (Elf32Phdr.read fun k => bytes.getD k 0) else none

/-- What both loops get to see past their `continue`s. -/
def loadPhdrs (file : List Byte) (ehdr : Elf32Ehdr) : List Elf32Phdr :=
  ((List.range ehdr.ePhnum.toNat).filterMap (readPhdr file ehdr)).filter fun p => p.pType = ptLoad

def minAddr (phdrs : List Elf32Phdr) : Word :=
  phdrs.foldl (fun m p => if p.pVaddr < m then p.pVaddr else m) 0xFFFFFFFF#32

def maxAddr (phdrs : List Elf32Phdr) : Word :=
  phdrs.foldl (fun m p => if p.pVaddr + p.pMemsz > m then p.pVaddr + p.pMemsz else m) 0

/-- The number of bytes to allocate for segments that start at `lowest` and span `span` bytes. -/
def ramNeeded (ramSize : ℕ) (lowest span : Word) : Word :=
  let needed := if ramSize > span.toNat then BitVec.ofNat 32 ramSize else span
  let needed :=
    -- 2 MB for a program in high memory, whatever it spans
    if ramSize = 0 ∧ lowest ≥ 0x80000000#32 then 0x200000#32
    else if needed < 0x100000#32 then 0x100000#32
    else needed
  (needed + 4095) &&& ~~~4095#32

/-- The body of `rv_init_elf`'s second loop. -/
def initSegment (file : List Byte) (memoryBase memorySize : Word) (ram : Logged (ℕ → Byte))
    (p : Elf32Phdr) : Logged (ℕ → Byte) :=
  if p.pVaddr < memoryBase ∨ p.pVaddr + p.pMemsz > memoryBase + memorySize then ram
  else
    let dst := p.pVaddr - memoryBase
    let ram :=
      if p.pFilesz > 0 then
        copySegment dst (fileBytes file p.pOffset.toNat p.pFilesz.toNat) ram
      else ram
    zeroFill dst p ram

/-! ## Symbols -/

/-- `strdup` of a string that starts a block: its bytes up to the terminator. -/
def cString (block : List Byte) : CStr := block.takeWhile (· ≠ 0)

/-- A block from `malloc` after `fread` has put `bytes` at its start. -/
def freadInto (bytes block : List Byte) : List Byte := bytes ++ block.drop bytes.length

/-- The copies that `strdup` makes are never freed, so that the number of earlier symbols tells
them apart. -/
def addSymbol (addr size : Word) (name : CStr) (symbols : List Symbol) : List Symbol :=
  symbols ++ [⟨addr, size, ⟨symbols.length, name⟩⟩]

def shdrAt (shdrs : List Byte) (i : ℕ) : Elf32Shdr :=
  Elf32Shdr.read fun k => shdrs.getD (Elf32Shdr.size * i + k) 0

def loadSymbol (syms strs : List Byte) (symsLength strsLength : ℕ)
    (table : Logged (List Symbol)) (j : ℕ) : Logged (List Symbol) :=
  let sym := Elf32Sym.read fun k => syms.getD (Elf32Sym.size * j + k) 0
  let table := table.log (.heap (Elf32Sym.size * j) Elf32Sym.size symsLength)
  if sym.stInfo &&& 0xf = sttFunc ∧ sym.stSize > 0 then
    let name := cString (strs.drop sym.stName.toNat)
    { value := addSymbol sym.stValue sym.stSize name table.value
      accesses := table.accesses ++ [.heap sym.stName.toNat (name.length + 1) strsLength] }
  else table

/-- The body of the loop over the sections. `heap n` is what the host holds from the `n`-th
block that `malloc` returns on. -/
def loadSymtab (file : List Byte) (heap : ℕ → List Byte) (shdrs : List Byte) (eShnum : ℕ)
    (table : Logged (List Symbol)) (i : ℕ) : Logged (List Symbol) :=
  let symtab := shdrAt shdrs i
  let table := table.log (.heap (Elf32Shdr.size * i) Elf32Shdr.size (Elf32Shdr.size * eShnum))
  if symtab.shType ≠ shtSymtab then table
  else
    let link := symtab.shLink.toNat
    let strtab := shdrAt shdrs link
    let table :=
      table.log (.heap (Elf32Shdr.size * link) Elf32Shdr.size (Elf32Shdr.size * eShnum))
    let syms := fileBytes file symtab.shOffset.toNat symtab.shSize.toNat
    let strs := fileBytes file strtab.shOffset.toNat strtab.shSize.toNat
    (List.range (symtab.shSize.toNat / Elf32Sym.size)).foldl
      (loadSymbol (freadInto syms (heap (2 * i + 1))) (freadInto strs (heap (2 * i + 2)))
        symtab.shSize.toNat strs.length) table

def loadSymbols (file : List Byte) (heap : ℕ → List Byte) (ehdr : Elf32Ehdr)
    (table : Logged (List Symbol)) : Logged (List Symbol) :=
  let eShnum := ehdr.eShnum.toNat
  let shdrs := freadInto (fileBytes file ehdr.eShoff.toNat (Elf32Shdr.size * eShnum)) (heap 0)
  let table :=
    if ehdr.eShstrndx ≠ 0 then
      -- the section names are read in and never looked at
      table.log (.heap (Elf32Shdr.size * ehdr.eShstrndx.toNat) Elf32Shdr.size
        (Elf32Shdr.size * eShnum))
    else table
  (List.range eShnum).foldl (loadSymtab file heap shdrs eShnum) table

/-! ## `rv_init_elf` -/

variable {δ : Type}

def State.htifReset (s : State δ) : State δ :=
  { s with
    htifTohostLo := 0, htifTohostHi := 0, htifFromhostLo := 0, htifFromhostHi := 0
    htifExit := false, htifExitCode := 0, htifHalted := false }

/-- `file` is `none` where there is none to open, `block` where `malloc` has no RAM. -/
def rvInitElf (file : Option (List Byte)) (ramSize : ℕ) (block : Option (ℕ → Byte))
    (heap : ℕ → List Byte) (s : State δ) : Logged (Word × State δ) :=
  match file with
  | none => ⟨(0, s), []⟩
  | some file =>
    if file.length < Elf32Ehdr.size then ⟨(0, s), []⟩
    else
      let ehdr := fileHeader file
      if !ehdr.accepted then ⟨(0, s), []⟩
      else
        let s := s.htifReset
        let phdrs := loadPhdrs file ehdr
        if maxAddr phdrs ≤ minAddr phdrs then ⟨(0, s), []⟩
        else
          let needed := ramNeeded ramSize (minAddr phdrs) (maxAddr phdrs - minAddr phdrs)
          match block with
          | none => ⟨(0, s.unallocated), []⟩
          | some block =>
            let s := s.allocated block needed (minAddr phdrs)
            let ram := phdrs.foldl (initSegment file s.memoryBase s.memorySize) ⟨s.memory, []⟩
            let table := loadSymbols file heap ehdr ⟨s.symbols, ram.accesses⟩
            ⟨(ehdr.eEntry,
              { s with memory := ram.value, symbols := table.value, pc := ehdr.eEntry }),
              table.accesses⟩

/-- An ELF file: its headers, one after the other, and then `content`. -/
def elfFile (entry : Word) (phdrs : List Elf32Phdr) (content : List Byte) : List Byte :=
  programBytes ([0x464c457f, 0x00010101, 0, 0, 0x00F30002, 1, entry, 52, 0, 0, 0x00200034,
      BitVec.ofNat 32 phdrs.length, 0] ++
    phdrs.flatMap fun p => [p.pType, p.pOffset, p.pVaddr, 0, p.pFilesz, p.pMemsz, 0, 0]) ++ content

end Herve
