import Herve.Elf.Image
import Herve.Elf.Reject

/-! The symbol table over several loads. Every load appends its functions, nothing is taken out,
and `herve_get_symbol_at` returns the first match. -/

namespace Herve
open RiscV (Byte Word)

variable {δ : Type}

/-! ## The functions of an ELF file -/

/-- An entry of type `STT_FUNC` with a size other than 0. -/
structure FunctionSymbol where
  addr : Word
  size : Word
  name : CStr
  deriving DecidableEq

/-- The functions in section `i`, in the order of its entries. -/
def sectionFunctions (file : List Byte) (heap : ℕ → List Byte) (i : ℕ) : List FunctionSymbol :=
  let shdrs := sectionHeaders file heap
  let symtab := shdrAt shdrs i
  let strtab := shdrAt shdrs symtab.shLink.toNat
  let syms := freadInto (symtab.content file) (heap (2 * i + 1))
  let strs := freadInto (strtab.content file) (heap (2 * i + 2))
  if symtab.shType = shtSymtab then
    (((List.range (symtab.shSize.toNat / Elf32Sym.size)).map (symAt syms)).filter
      fun sym => sym.IsFunction).map
        fun sym => ⟨sym.stValue, sym.stSize, cString (strs.drop sym.stName.toNat)⟩
  else []

/-- The functions of a file. Where it ends before its tables do, the rest of them is what the
host held in the blocks they are read into. -/
def functionSymbols (file : List Byte) (heap : ℕ → List Byte) : List FunctionSymbol :=
  (List.range (fileHeader file).eShnum.toNat).flatMap (sectionFunctions file heap)

/-! ### Files that hold their tables -/

/-- The file has its section headers, its symbol tables and the names of its functions. -/
structure TablesHeld (file : List Byte) : Prop where
  headers : Elf32Shdr.size * (fileHeader file).eShnum.toNat ≤
    (fileBytes file (fileHeader file).eShoff.toNat
      (Elf32Shdr.size * (fileHeader file).eShnum.toNat)).length
  link : ∀ i < (fileHeader file).eShnum.toNat,
    (shdrAt (sectionHeaders file fun _ => []) i).shType = shtSymtab →
      (shdrAt (sectionHeaders file fun _ => []) i).shLink.toNat < (fileHeader file).eShnum.toNat
  entries : ∀ i < (fileHeader file).eShnum.toNat,
    (shdrAt (sectionHeaders file fun _ => []) i).shType = shtSymtab →
      (shdrAt (sectionHeaders file fun _ => []) i).shSize.toNat ≤
        ((shdrAt (sectionHeaders file fun _ => []) i).content file).length
  names : ∀ i < (fileHeader file).eShnum.toNat,
    (shdrAt (sectionHeaders file fun _ => []) i).shType = shtSymtab →
      ∀ j < (shdrAt (sectionHeaders file fun _ => []) i).shSize.toNat / Elf32Sym.size,
        (symAt ((shdrAt (sectionHeaders file fun _ => []) i).content file) j).IsFunction →
          0 ∈ ((shdrAt (sectionHeaders file fun _ => [])
            (shdrAt (sectionHeaders file fun _ => []) i).shLink.toNat).content file).drop
              (symAt ((shdrAt (sectionHeaders file fun _ => []) i).content file) j).stName.toNat

theorem getD_freadInto {bytes block : List Byte} {k : ℕ} (h : k < bytes.length) :
    (freadInto bytes block).getD k 0 = bytes.getD k 0 := by
  rw [freadInto, List.getD_append _ _ _ _ h]

theorem shdrAt_freadInto {bytes block : List Byte} {i : ℕ}
    (h : Elf32Shdr.size * i + Elf32Shdr.size ≤ bytes.length) :
    shdrAt (freadInto bytes block) i = shdrAt bytes i := by
  have hbyte : ∀ k < Elf32Shdr.size, (freadInto bytes block).getD (Elf32Shdr.size * i + k) 0 =
      bytes.getD (Elf32Shdr.size * i + k) 0 := fun k hk => getD_freadInto (by omega)
  have hsize : Elf32Shdr.size = 40 := rfl
  unfold shdrAt Elf32Shdr.read
  rw [structField_congr hbyte (by omega), structField_congr hbyte (by omega),
    structField_congr hbyte (by omega), structField_congr hbyte (by omega)]

theorem symAt_freadInto {bytes block : List Byte} {j : ℕ}
    (h : Elf32Sym.size * j + Elf32Sym.size ≤ bytes.length) :
    symAt (freadInto bytes block) j = symAt bytes j := by
  have hbyte : ∀ k < Elf32Sym.size, (freadInto bytes block).getD (Elf32Sym.size * j + k) 0 =
      bytes.getD (Elf32Sym.size * j + k) 0 := fun k hk => getD_freadInto (by omega)
  have hsize : Elf32Sym.size = 16 := rfl
  unfold symAt Elf32Sym.read
  rw [structField_congr hbyte (by omega), structField_congr hbyte (by omega),
    structField_congr hbyte (by omega)]
  congr 1
  exact hbyte 12 (by omega)

theorem cString_append {table : List Byte} (h : 0 ∈ table) (rest : List Byte) :
    cString (table ++ rest) = cString table := by
  induction table with
  | nil => exact absurd h List.not_mem_nil
  | cons c table ih =>
    unfold cString at ih ⊢
    by_cases hc : c = 0
    · rw [List.cons_append, List.takeWhile_cons_of_neg (by simpa using hc),
        List.takeWhile_cons_of_neg (by simpa using hc)]
    · rw [List.cons_append, List.takeWhile_cons_of_pos (by simpa using hc),
        List.takeWhile_cons_of_pos (by simpa using hc),
        ih ((List.mem_cons.1 h).resolve_left (Ne.symm hc))]

theorem cString_freadInto {strs block : List Byte} {n : ℕ} (h : 0 ∈ strs.drop n) :
    cString ((freadInto strs block).drop n) = cString (strs.drop n) := by
  rw [freadInto, List.drop_append, cString_append h]

theorem freadInto_nil (bytes : List Byte) : freadInto bytes [] = bytes := by
  rw [freadInto, List.drop_nil, List.append_nil]

namespace TablesHeld
variable {file : List Byte}

theorem shdrAt_eq (h : TablesHeld file) (heap : ℕ → List Byte) {i : ℕ}
    (hi : i < (fileHeader file).eShnum.toNat) :
    shdrAt (sectionHeaders file heap) i = shdrAt (sectionHeaders file fun _ => []) i := by
  have hsize : Elf32Shdr.size = 40 := rfl
  have hheaders := h.headers
  have hle : Elf32Shdr.size * i + Elf32Shdr.size ≤ (fileBytes file (fileHeader file).eShoff.toNat
      (Elf32Shdr.size * (fileHeader file).eShnum.toNat)).length := by
    rw [hsize] at hheaders ⊢
    omega
  rw [sectionHeaders, sectionHeaders, shdrAt_freadInto hle, shdrAt_freadInto hle]

/-- What the host held does not matter. -/
theorem functionSymbols_eq (h : TablesHeld file) (heap : ℕ → List Byte) :
    functionSymbols file heap = functionSymbols file fun _ => [] := by
  apply List.flatMap_congr
  intro i hi
  have hi := List.mem_range.1 hi
  unfold sectionFunctions
  dsimp only
  rw [h.shdrAt_eq heap hi]
  by_cases htype : (shdrAt (sectionHeaders file fun _ => []) i).shType = shtSymtab
  · rw [if_pos htype, if_pos htype, h.shdrAt_eq heap (h.link i hi htype), freadInto_nil,
      freadInto_nil, List.map_congr_left fun j hj => symAt_freadInto ?_]
    · apply List.map_congr_left
      intro sym hsym
      obtain ⟨hmem, hfunction⟩ := List.mem_filter.1 hsym
      obtain ⟨j, hj, rfl⟩ := List.mem_map.1 hmem
      rw [cString_freadInto (h.names i hi htype j (List.mem_range.1 hj)
        (of_decide_eq_true hfunction))]
    · have hentries := (Nat.le_div_iff_mul_le (by decide)).1 (List.mem_range.1 hj)
      rw [← Nat.mul_succ, Nat.mul_comm]
      exact hentries.trans (h.entries i hi htype)
  · rw [if_neg htype, if_neg htype]

end TablesHeld

def addFunction (table : List Symbol) (f : FunctionSymbol) : List Symbol :=
  addSymbol f.addr f.size f.name table

theorem loadSymbol_value (syms strs : List Byte) (symsLength strsLength : ℕ)
    (table : Logged (List Symbol)) (j : ℕ) :
    (loadSymbol syms strs symsLength strsLength table j).value =
      if (symAt syms j).IsFunction then
        addFunction table.value ⟨(symAt syms j).stValue, (symAt syms j).stSize,
          cString (strs.drop (symAt syms j).stName.toNat)⟩
      else table.value := by
  show Logged.value (if (symAt syms j).IsFunction then _ else _) = _
  split_ifs <;> rfl

theorem loadSymtab_value (file : List Byte) (heap : ℕ → List Byte) (table : Logged (List Symbol))
    (i : ℕ) :
    (loadSymtab file heap (sectionHeaders file heap) (fileHeader file).eShnum.toNat table i).value =
      (sectionFunctions file heap i).foldl addFunction table.value := by
  unfold loadSymtab sectionFunctions
  dsimp only
  by_cases htype : (shdrAt (sectionHeaders file heap) i).shType = shtSymtab
  · rw [if_neg (not_not.2 htype), if_pos htype, List.foldl_map, List.foldl_filter, List.foldl_map,
      ← List.foldl_hom Logged.value fun t j => ?_]
    · rfl
    · rw [loadSymbol_value]
      simp only [decide_eq_true_eq]
      rfl
  · rw [if_pos htype, if_neg htype]
    rfl

theorem loadSymbols_value (file : List Byte) (heap : ℕ → List Byte)
    (table : Logged (List Symbol)) :
    (loadSymbols file heap (fileHeader file) table).value =
      (functionSymbols file heap).foldl addFunction table.value := by
  have hloop : ∀ (is : List ℕ) (t : Logged (List Symbol)),
      (is.foldl (loadSymtab file heap (sectionHeaders file heap) (fileHeader file).eShnum.toNat)
        t).value = is.foldl (fun t i => (sectionFunctions file heap i).foldl addFunction t)
          t.value :=
    fun _ _ => (List.foldl_hom Logged.value fun t i => (loadSymtab_value file heap t i).symm).symm
  rw [functionSymbols, List.foldl_flatMap]
  refine (hloop _ _).trans ?_
  split_ifs <;> rfl

/-! ## The table -/

/-- What the functions of a table are once `n` have been there before. -/
def numbered (n : ℕ) (fs : List FunctionSymbol) : List Symbol :=
  (fs.zipIdx n).map fun f => ⟨f.1.addr, f.1.size, ⟨f.2, f.1.name⟩⟩

theorem numbered_cons (n : ℕ) (f : FunctionSymbol) (fs : List FunctionSymbol) :
    numbered n (f :: fs) = ⟨f.addr, f.size, ⟨n, f.name⟩⟩ :: numbered (n + 1) fs := rfl

theorem numbered_append (n : ℕ) (fs gs : List FunctionSymbol) :
    numbered n (fs ++ gs) = numbered n fs ++ numbered (n + fs.length) gs := by
  rw [numbered, List.zipIdx_append, List.map_append]
  rfl

theorem length_numbered (n : ℕ) (fs : List FunctionSymbol) :
    (numbered n fs).length = fs.length := by
  rw [numbered, List.length_map, List.length_zipIdx]

theorem ptr_of_mem_numbered {n : ℕ} {fs : List FunctionSymbol} {s : Symbol}
    (h : s ∈ numbered n fs) : n ≤ s.name.ptr ∧ s.name.ptr < n + fs.length := by
  obtain ⟨⟨f, k⟩, hk, rfl⟩ := List.mem_map.1 h
  obtain ⟨hle, hlt, -⟩ := List.mem_zipIdx hk
  exact ⟨hle, hlt⟩

theorem foldl_addFunction (fs : List FunctionSymbol) (table : List Symbol) :
    fs.foldl addFunction table = table ++ numbered table.length fs := by
  induction fs generalizing table with
  | nil => exact (List.append_nil table).symm
  | cons f fs ih =>
    rw [List.foldl_cons, ih, addFunction, addSymbol, List.length_append, List.append_assoc,
      numbered_cons]
    rfl

/-! ## Runs -/

instance (file : List Byte) : Decidable (InitAccepted file) :=
  decidable_of_iff (Elf32Ehdr.size ≤ file.length ∧ (fileHeader file).accepted = true ∧
    minAddr (loadPhdrs file (fileHeader file)) < maxAddr (loadPhdrs file (fileHeader file)))
    ⟨fun h => ⟨h.1, h.2.1, h.2.2⟩, fun h => ⟨h.size, h.accepted, h.loadable⟩⟩

/-- A call of `rv_init_elf`, and what the host does about it. -/
structure ElfCall where
  file : Option (List Byte)
  ramSize : ℕ
  block : Option (ℕ → Byte)
  heap : ℕ → List Byte

def ElfCall.run (c : ElfCall) (s : State δ) : State δ :=
  (rvInitElf c.file c.ramSize c.block c.heap s).value.2

/-- The functions of the file that the call loads, if it loads one. -/
def ElfCall.loaded (c : ElfCall) : Option (List FunctionSymbol) :=
  match c.file, c.block with
  | some file, some _ =>
    if InitAccepted file then some (functionSymbols file c.heap) else none
  | _, _ => none

def runElfCalls (calls : List ElfCall) (s : State δ) : State δ :=
  calls.foldl (fun s c => c.run s) s

/-- The programs that are loaded, each given by its functions. -/
def programs (calls : List ElfCall) : List (List FunctionSymbol) := calls.filterMap ElfCall.loaded

theorem ElfCall.run_symbols (c : ElfCall) (s : State δ) :
    (c.run s).symbols = s.symbols ++ numbered s.symbols.length (c.loaded.getD []) := by
  have hnone : s.symbols ++ numbered s.symbols.length [] = s.symbols := List.append_nil _
  obtain ⟨file, ramSize, block, heap⟩ := c
  cases file with
  | none => exact hnone.symm
  | some f =>
    by_cases h : InitAccepted f
    · cases block with
      | none =>
        rw [run, h.rvInitElf_none]
        exact hnone.symm
      | some block =>
        have hloaded : ElfCall.loaded ⟨some f, ramSize, some block, heap⟩ =
          some (functionSymbols f heap) := if_pos h
        obtain ⟨accesses, hsymbols⟩ := h.rvInitElf_symbols ramSize block heap s
        rw [run, hsymbols, loadSymbols_value, foldl_addFunction, hloaded]
        rfl
    · have hloaded : ElfCall.loaded ⟨some f, ramSize, block, heap⟩ = none := by
        cases block with
        | none => rfl
        | some block => exact if_neg h
      have hrejected : Rejected (some f) := fun g hg => Option.mem_some.1 hg ▸ h
      rw [run, hloaded, Option.getD_none, hnone]
      have hvalue : (rvInitElf (some f) ramSize block heap s).value = (0, s) ∨
          (rvInitElf (some f) ramSize block heap s).value = (0, s.htifReset) := hrejected.value
      rcases hvalue with hvalue | hvalue
      · rw [hvalue]
      · rw [hvalue]
        rfl

/-- The table after a run: what every program brought, one after the other. -/
theorem runElfCalls_symbols (calls : List ElfCall) (s : State δ) :
    (runElfCalls calls s).symbols =
      s.symbols ++ numbered s.symbols.length (programs calls).flatten := by
  induction calls generalizing s with
  | nil => exact (List.append_nil s.symbols).symm
  | cons c calls ih =>
    have hprograms : (programs (c :: calls)).flatten =
        c.loaded.getD [] ++ (programs calls).flatten := by
      rw [programs, List.filterMap_cons]
      cases c.loaded <;> rfl
    rw [runElfCalls, List.foldl_cons]
    refine (ih (c.run s)).trans ?_
    rw [c.run_symbols, hprograms, numbered_append, List.length_append, length_numbered,
      List.append_assoc]

/-! ### On another host -/

/-- The file that is loaded, if one is, holds its tables. -/
def ElfCall.Held (c : ElfCall) : Prop := ∀ file ∈ c.file, InitAccepted file → TablesHeld file

/-- The call on a host that held nothing. -/
def ElfCall.heapless (c : ElfCall) : ElfCall := { c with heap := fun _ => [] }

theorem ElfCall.Held.loaded_heapless {c : ElfCall} (h : c.Held) : c.heapless.loaded = c.loaded := by
  obtain ⟨file, ramSize, block, heap⟩ := c
  cases file with
  | none => rfl
  | some f =>
    cases block with
    | none => rfl
    | some block =>
      refine if_ctx_congr Iff.rfl (fun haccepted => ?_) fun _ => rfl
      have hheld : TablesHeld f := h f rfl haccepted
      exact congrArg some (hheld.functionSymbols_eq heap).symm

theorem programs_heapless {calls : List ElfCall} (h : ∀ c ∈ calls, c.Held) :
    programs (calls.map ElfCall.heapless) = programs calls := by
  rw [programs, List.filterMap_map]
  exact List.filterMap_congr fun c hc => (h c hc).loaded_heapless

/-! ## Lookup -/

namespace FunctionSymbol

/-- `a` is one of the function's addresses, on unbounded integers. -/
def Contains (a : Word) (f : FunctionSymbol) : Prop :=
  f.addr.toNat ≤ a.toNat ∧ a.toNat < f.addr.toNat + f.size.toNat
  deriving Decidable

/-- The function ends below the top of the address space. -/
def Fits (f : FunctionSymbol) : Prop := f.addr.toNat + f.size.toNat < 2 ^ 32

/-- The test of `herve_get_symbol_at`. -/
def passes (a : Word) (f : FunctionSymbol) : Bool := f.addr ≤ a && a < f.addr + f.size

theorem passes_iff {a : Word} {f : FunctionSymbol} : f.passes a = true ↔ f.Fits ∧ f.Contains a := by
  have ha := a.isLt
  have haddr := f.addr.isLt
  have hsize := f.size.isLt
  rw [passes, Bool.and_eq_true, decide_eq_true_iff, decide_eq_true_iff, BitVec.le_def,
    BitVec.lt_def, BitVec.toNat_add, Fits, Contains]
  omega

theorem passes_addr {f : FunctionSymbol} (hfits : f.Fits) (hsize : 0 < f.size.toNat) :
    f.passes f.addr = true :=
  passes_iff.2 ⟨hfits, le_rfl, Nat.lt_add_of_pos_right hsize⟩

/-- The last address is found in no function, since the end of one that contains it wraps. -/
theorem passes_top (f : FunctionSymbol) : f.passes 0xFFFFFFFF#32 = false := by
  rw [← Bool.not_eq_true, passes_iff]
  rintro ⟨hfits, -, hlt⟩
  exact absurd hlt (not_lt.2 (Nat.le_of_lt_succ hfits))

theorem contains_top {f : FunctionSymbol} (h : ¬ f.Fits) : f.Contains 0xFFFFFFFF#32 :=
  ⟨Nat.le_of_lt_succ f.addr.isLt, (Nat.lt_succ_self _).trans_le (not_lt.1 h)⟩

theorem passes_of_not_fits {f : FunctionSymbol} (h : ¬ f.Fits) (a : Word) : f.passes a = false := by
  rw [← Bool.not_eq_true, passes_iff]
  exact fun hpasses => h hpasses.1

end FunctionSymbol

theorem herveGetSymbolAt_append (xs ys : List Symbol) (a : Word) :
    herveGetSymbolAt (xs ++ ys) a = (herveGetSymbolAt xs a).or (herveGetSymbolAt ys a) := by
  rw [herveGetSymbolAt, List.find?_append, Option.map_or]
  rfl

theorem herveGetSymbolAt_numbered (n : ℕ) (fs : List FunctionSymbol) (a : Word) :
    (herveGetSymbolAt (numbered n fs) a).map SymbolName.str =
      (fs.find? (·.passes a)).map FunctionSymbol.name := by
  induction fs generalizing n with
  | nil => rfl
  | cons f fs ih =>
    rw [numbered_cons, herveGetSymbolAt, List.find?_cons, List.find?_cons]
    cases hpasses : f.passes a with
    | true =>
      have htest : (f.addr ≤ a && a < f.addr + f.size) = true := hpasses
      dsimp only
      rw [htest]
      rfl
    | false =>
      have htest : (f.addr ≤ a && a < f.addr + f.size) = false := hpasses
      dsimp only
      rw [htest]
      exact ih (n + 1)

theorem ptr_of_herveGetSymbolAt {n : ℕ} {fs : List FunctionSymbol} {a : Word} {name : SymbolName}
    (h : herveGetSymbolAt (numbered n fs) a = some name) :
    n ≤ name.ptr ∧ name.ptr < n + fs.length := by
  obtain ⟨s, hs, rfl⟩ := Option.map_eq_some_iff.1 h
  exact ptr_of_mem_numbered (List.mem_of_find?_eq_some hs)

/-! ## Lookup after a run -/

theorem sectionFunctions_size_pos {file : List Byte} {heap : ℕ → List Byte} {i : ℕ} :
    ∀ f ∈ sectionFunctions file heap i, 0 < f.size.toNat := by
  intro f hf
  unfold sectionFunctions at hf
  dsimp only at hf
  split_ifs at hf with htype
  · obtain ⟨sym, hsym, rfl⟩ := List.mem_map.1 hf
    have hfunction := of_decide_eq_true (List.mem_filter.1 hsym).2
    exact hfunction.2
  · exact absurd hf List.not_mem_nil

theorem programs_size_pos {calls : List ElfCall} :
    ∀ fs ∈ programs calls, ∀ f ∈ fs, 0 < f.size.toNat := by
  intro fs hfs f hf
  obtain ⟨c, -, hc⟩ := List.mem_filterMap.1 hfs
  unfold ElfCall.loaded at hc
  split at hc
  · split_ifs at hc with haccepted
    cases hc
    obtain ⟨i, -, hi⟩ := List.mem_flatMap.1 hf
    exact sectionFunctions_size_pos f hi
  · exact absurd hc (by simp)

def latestFunctions (calls : List ElfCall) : List FunctionSymbol :=
  (programs calls).getLast?.getD []

def earlierFunctions (calls : List ElfCall) : List FunctionSymbol :=
  (programs calls).dropLast.flatten

theorem earlierFunctions_size_pos {calls : List ElfCall} :
    ∀ f ∈ earlierFunctions calls, 0 < f.size.toNat := by
  intro f hf
  obtain ⟨fs, hfs, hmem⟩ := List.mem_flatten.1 hf
  exact programs_size_pos fs (List.mem_of_mem_dropLast hfs) f hmem

theorem programs_flatten (calls : List ElfCall) :
    (programs calls).flatten = earlierFunctions calls ++ latestFunctions calls := by
  rw [earlierFunctions, latestFunctions]
  rcases List.eq_nil_or_concat (programs calls) with h | ⟨fss, fs, h⟩
  · rw [h]
    rfl
  · rw [h, List.concat_eq_append, List.dropLast_concat, List.getLast?_concat, List.flatten_append,
      List.flatten_singleton]
    rfl

/-- Lookup finds the first function of the last program that contains the address, and no name
that was there before that program was loaded. -/
structure ReflectsLatest (calls : List ElfCall) (table : List Symbol) : Prop where
  name : ∀ a, (herveGetSymbolAt table a).map SymbolName.str =
    ((latestFunctions calls).find? fun f => f.Contains a).map FunctionSymbol.name
  latest : ∀ a, ∀ name ∈ herveGetSymbolAt table a, (earlierFunctions calls).length ≤ name.ptr

theorem find?_contains {fs : List FunctionSymbol} (h : ∀ f ∈ fs, f.Fits) (a : Word) :
    fs.find? (·.passes a) = fs.find? fun f => f.Contains a := by
  induction fs with
  | nil => rfl
  | cons f fs ih =>
    have hpasses : f.passes a = decide (f.Contains a) := by
      rw [Bool.eq_iff_iff, FunctionSymbol.passes_iff, decide_eq_true_iff]
      exact and_iff_right (h f List.mem_cons_self)
    rw [List.find?_cons, List.find?_cons, hpasses, ih fun g hg => h g (List.mem_cons_of_mem f hg)]

theorem herveGetSymbolAt_eq_none_iff {n : ℕ} {fs : List FunctionSymbol} {a : Word} :
    herveGetSymbolAt (numbered n fs) a = none ↔ ∀ f ∈ fs, f.passes a = false := by
  rw [← Option.map_eq_none_iff, herveGetSymbolAt_numbered, Option.map_eq_none_iff,
    List.find?_eq_none]
  simp only [Bool.not_eq_true]

theorem runElfCalls_start (calls : List ElfCall) (d : δ) :
    (runElfCalls calls (State.start d)).symbols =
      numbered 0 (earlierFunctions calls) ++
        numbered (earlierFunctions calls).length (latestFunctions calls) := by
  rw [runElfCalls_symbols, programs_flatten]
  show numbered 0 (_ ++ _) = _
  rw [numbered_append, Nat.zero_add]

/-- An earlier function that ends below the top is found at its first address. -/
theorem ReflectsLatest.earlier {calls : List ElfCall} {table : List Symbol}
    (h : ReflectsLatest calls (numbered 0 (earlierFunctions calls) ++ table)) :
    ∀ f ∈ earlierFunctions calls, ¬ f.Fits := by
  intro f hf hfits
  have hpasses := FunctionSymbol.passes_addr hfits (earlierFunctions_size_pos f hf)
  rcases hfound : herveGetSymbolAt (numbered 0 (earlierFunctions calls)) f.addr with _ | name
  · exact Bool.noConfusion (hpasses.symm.trans (herveGetSymbolAt_eq_none_iff.1 hfound f hf))
  · have hlookup : herveGetSymbolAt (numbered 0 (earlierFunctions calls) ++ table) f.addr =
        some name := by
      rw [herveGetSymbolAt_append, hfound]
      rfl
    have hptr := (ptr_of_herveGetSymbolAt hfound).2
    have hlatest := h.latest f.addr name hlookup
    omega

/-- A function that reaches the top is missed at the last address. -/
theorem ReflectsLatest.fits {calls : List ElfCall} {fs gs : List FunctionSymbol} {m n : ℕ}
    (h : ReflectsLatest calls (numbered m fs ++ numbered n gs)) :
    ∀ f ∈ latestFunctions calls, f.Fits := by
  intro f hf
  by_contra hfits
  have hlookup := h.name 0xFFFFFFFF#32
  rw [herveGetSymbolAt_append, herveGetSymbolAt_eq_none_iff.2 fun g _ => g.passes_top,
    herveGetSymbolAt_eq_none_iff.2 fun g _ => g.passes_top, eq_comm, Option.or_none,
    Option.map_none, Option.map_eq_none_iff, List.find?_eq_none] at hlookup
  exact hlookup f hf (decide_eq_true (FunctionSymbol.contains_top hfits))

theorem herveGetSymbolAt_latest {calls : List ElfCall}
    (h : ∀ f ∈ earlierFunctions calls, ¬ f.Fits) (table : List Symbol) (a : Word) :
    herveGetSymbolAt (numbered 0 (earlierFunctions calls) ++ table) a =
      herveGetSymbolAt table a := by
  have hnone : herveGetSymbolAt (numbered 0 (earlierFunctions calls)) a = none :=
    herveGetSymbolAt_eq_none_iff.2 fun f hf => FunctionSymbol.passes_of_not_fits (h f hf) a
  rw [herveGetSymbolAt_append, hnone, Option.none_or]

/-- Lookup reflects the last program exactly when no earlier one brought a function that can be
found and every function of the last can be. -/
theorem reflectsLatest_iff (calls : List ElfCall) (d : δ) :
    ReflectsLatest calls (runElfCalls calls (State.start d)).symbols ↔
      (∀ f ∈ earlierFunctions calls, ¬ f.Fits) ∧ ∀ f ∈ latestFunctions calls, f.Fits := by
  rw [runElfCalls_start]
  constructor
  · exact fun h => ⟨h.earlier, h.fits⟩
  · rintro ⟨hearlier, hlatest⟩
    refine ⟨fun a => ?_, fun a name hname => ?_⟩
    · rw [herveGetSymbolAt_latest hearlier, herveGetSymbolAt_numbered, find?_contains hlatest]
    · rw [herveGetSymbolAt_latest hearlier] at hname
      exact (ptr_of_herveGetSymbolAt hname).1

theorem ReflectsLatest.congr {calls calls' : List ElfCall} {table : List Symbol}
    (hprograms : programs calls = programs calls') (h : ReflectsLatest calls table) :
    ReflectsLatest calls' table := by
  have hearlier : earlierFunctions calls = earlierFunctions calls' :=
    congrArg (fun fss => (List.dropLast fss).flatten) hprograms
  have hlatest : latestFunctions calls = latestFunctions calls' :=
    congrArg (fun fss => (List.getLast? fss).getD []) hprograms
  exact ⟨hlatest ▸ h.name, hearlier ▸ h.latest⟩

/-- Where the files hold their tables, the table that is searched and what should be found in it
come from the files alone. -/
theorem reflectsLatest_heapless {calls : List ElfCall} (h : ∀ c ∈ calls, c.Held) (d : δ) :
    (runElfCalls (calls.map ElfCall.heapless) (State.start d)).symbols =
        (runElfCalls calls (State.start d)).symbols ∧
      ∀ table, ReflectsLatest (calls.map ElfCall.heapless) table ↔ ReflectsLatest calls table := by
  have hprograms := programs_heapless h
  refine ⟨?_, fun table => ⟨.congr hprograms, .congr hprograms.symm⟩⟩
  rw [runElfCalls_symbols, runElfCalls_symbols, hprograms]

/-- A file with one segment, a symbol table and its strings: the function `name` takes the 256
bytes from `0x1000` on. -/
def functionFile (name : Byte) : List Byte :=
  programBytes [0x464c457f, 0x00010101, 0, 0, 0x00F30002, 1, 0x1000, 52, 84, 0, 0x00200034,
    0x00280001, 2, ptLoad, 0, 0x1000, 0, 0, 0x100, 0, 0, 0, shtSymtab, 0, 0, 164, 16, 1, 0, 0, 0,
    0, 3, 0, 0, 180, 2, 0, 0, 0, 0, 0, 0x1000, 0x100, 2] ++ [name, 0]

def loadFunction (name : Byte) : ElfCall :=
  ⟨some (functionFile name), 0, some fun _ => 0, fun _ => []⟩

/-- After `g` is loaded over `f`, the address of `g` is still that of `f`. -/
theorem not_reflectsLatest :
    let calls := [loadFunction 0x66, loadFunction 0x67]
    latestFunctions calls = [⟨0x1000, 0x100, [0x67]⟩] ∧
      (herveGetSymbolAt (runElfCalls calls (State.start ())).symbols 0x1000).map
        SymbolName.str = some [0x66] ∧
      ¬ ReflectsLatest calls (runElfCalls calls (State.start ())).symbols := by
  refine ⟨by decide +kernel, by decide +kernel, fun h => ?_⟩
  exact absurd (h.name 0x1000) (by decide +kernel)

end Herve
