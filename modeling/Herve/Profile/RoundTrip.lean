import Herve.Profile.CallGraph
import Herve.Profile.ParseCsv

/-! The report read back: `parse_csv` recovers from the text exactly what the profiler has
counted. Its dictionaries lose nothing because no function name and no class comes twice. -/

namespace Herve
open RiscV

/-! ## Lines and fields -/

/-- A field that ends neither at a comma nor at a newline of its own. -/
def Clean (field : CStr) : Prop := ∀ b ∈ field, b ≠ 0x2C#8 ∧ b ≠ 0x0A#8

instance (field : CStr) : Decidable (Clean field) :=
  inferInstanceAs (Decidable (∀ b ∈ field, b ≠ 0x2C#8 ∧ b ≠ 0x0A#8))

theorem mem_intercalate {sep : CStr} {fields : List CStr} {b : Byte}
    (h : b ∈ sep.intercalate fields) : b ∈ sep ∨ ∃ field ∈ fields, b ∈ field := by
  induction fields with
  | nil => exact absurd h List.not_mem_nil
  | cons x xs ih =>
    cases xs with
    | nil => exact .inr ⟨x, List.mem_cons_self, by simpa using h⟩
    | cons y ys =>
      rw [List.intercalate_cons_cons, List.append_assoc, List.mem_append, List.mem_append] at h
      rcases h with hx | hsep | hrest
      · exact .inr ⟨x, List.mem_cons_self, hx⟩
      · exact .inl hsep
      · exact (ih hrest).imp_right fun ⟨field, hfield, hb⟩ =>
          ⟨field, List.mem_cons_of_mem _ hfield, hb⟩

/-- A row that can be told apart in the text: clean fields, the first one not empty. -/
structure CleanRow (row : List CStr) : Prop where
  fields : ∀ field ∈ row, Clean field
  head : ∃ field rest, row = field :: rest ∧ field ≠ []

theorem csvReader_line {row : List CStr} (h : CleanRow row) (text : CStr) :
    csvReader (csvLine row ++ text) = row :: csvReader text := by
  obtain ⟨hfields, field, rest, hrow, hfield⟩ := h
  have hnewline : (0x0A#8 : Byte) ∉ [0x2C#8].intercalate row := by
    intro hmem
    rcases mem_intercalate hmem with hsep | ⟨x, hx, hb⟩
    · exact absurd (List.mem_singleton.1 hsep) (by decide)
    · exact (hfields x hx _ hb).2 rfl
  have hline : [0x2C#8].intercalate row ≠ [] := by
    rw [hrow]
    cases rest with
    | nil => simpa using hfield
    | cons y ys => simp [List.intercalate_cons_cons, hfield]
  have hsplit : ([0x2C#8].intercalate row).splitOn 0x2C#8 = row :=
    List.splitOn_intercalate _ (fun x hx hb => (hfields x hx _ hb).1 rfl) (by simp [hrow])
  rw [csvReader, csvLine, List.append_assoc, List.singleton_append,
    List.splitOn_append_cons_self_of_not_mem hnewline, List.map_cons, if_neg hline, hsplit]
  rfl

theorem csvReader_lines {rows : List (List CStr)} (h : ∀ row ∈ rows, CleanRow row) :
    csvReader (rows.flatMap csvLine) = rows ++ [[]] := by
  induction rows with
  | nil => rfl
  | cons row rows ih =>
    rw [List.flatMap_cons, csvReader_line (h row List.mem_cons_self),
      ih fun x hx => h x (List.mem_cons_of_mem _ hx)]
    rfl

/-! ## Names and numbers -/

/-- A nonempty printable ASCII string without comma, double quote or space at its ends. -/
structure PlainName (s : CStr) : Prop where
  nonempty : s ≠ []
  printable : ∀ b ∈ s, 0x20#8 ≤ b ∧ b ≤ 0x7E#8 ∧ b ≠ 0x2C#8 ∧ b ≠ 0x22#8
  leading : s.head? ≠ some 0x20#8
  trailing : s.getLast? ≠ some 0x20#8

theorem clean_of_printable {s : CStr} (h : ∀ b ∈ s, 0x20#8 ≤ b ∧ b ≠ 0x2C#8) : Clean s := by
  intro b hb
  obtain ⟨hle, hcomma⟩ := h b hb
  refine ⟨hcomma, ?_⟩
  rintro rfl
  exact absurd hle (by decide)

theorem strip_eq_self {s : CStr} (hhead : ∀ b, s.head? = some b → isSpace b = false)
    (hlast : ∀ b, s.getLast? = some b → isSpace b = false) : strip s = s := by
  have hdrop : s.dropWhile isSpace = s := by
    cases s with
    | nil => rfl
    | cons b s => rw [List.dropWhile_cons, hhead b rfl]; rfl
  rw [strip, hdrop, List.rdropWhile_eq_self_iff]
  intro hne
  rw [hlast _ (List.getLast?_eq_some_getLast hne)]
  decide

theorem isSpace_of_printable {b : Byte} (h : 0x20#8 ≤ b) (hne : b ≠ 0x20#8) :
    isSpace b = false := by
  have hle : 32 ≤ b.toNat := h
  have hlt : b.toNat ≠ 32 := fun heq => hne (BitVec.eq_of_toNat_eq heq)
  rw [isSpace, Bool.or_eq_false_iff, Bool.and_eq_false_iff, Bool.and_eq_false_iff]
  simp only [decide_eq_false_iff_not, BitVec.le_def, BitVec.toNat_ofNat]
  omega

theorem PlainName.strip_eq {s : CStr} (h : PlainName s) : strip s = s := by
  refine strip_eq_self (fun b hb => ?_) fun b hb => ?_
  · refine isSpace_of_printable (h.printable b (List.mem_of_mem_head? hb)).1 ?_
    rintro rfl
    exact h.leading hb
  · refine isSpace_of_printable (h.printable b (List.mem_of_getLast? hb)).1 ?_
    rintro rfl
    exact h.trailing hb

theorem PlainName.clean {s : CStr} (h : PlainName s) : Clean s :=
  clean_of_printable fun b hb => ⟨(h.printable b hb).1, (h.printable b hb).2.2.1⟩

theorem digit_bounds {b : Byte} (h : Decimal.isDigit b = true) : 0x30#8 ≤ b ∧ b ≤ 0x39#8 := by
  simpa [Decimal.isDigit] using h

theorem digit_printable {b : Byte} (h : Decimal.isDigit b = true) :
    0x20#8 ≤ b ∧ b ≠ 0x20#8 ∧ b ≠ 0x2C#8 := by
  have hle : 48 ≤ b.toNat := (digit_bounds h).1
  refine ⟨?_, ?_, ?_⟩
  · show 32 ≤ b.toNat
    omega
  · rintro rfl
    exact absurd hle (by decide)
  · rintro rfl
    exact absurd hle (by decide)

theorem digit_of_mem_llu {v : BitVec 64} {b : Byte} (h : b ∈ llu v) : Decimal.isDigit b = true :=
  Decimal.isDigit_of_mem_print h

theorem clean_llu (v : BitVec 64) : Clean (llu v) :=
  clean_of_printable fun _ hb =>
    ⟨(digit_printable (digit_of_mem_llu hb)).1, (digit_printable (digit_of_mem_llu hb)).2.2⟩

theorem strip_llu (v : BitVec 64) : strip (llu v) = llu v := by
  have hdigit : ∀ b ∈ llu v, isSpace b = false := fun b hb =>
    isSpace_of_printable (digit_printable (digit_of_mem_llu hb)).1
      (digit_printable (digit_of_mem_llu hb)).2.1
  exact strip_eq_self (fun b hb => hdigit b (List.mem_of_mem_head? hb))
    fun b hb => hdigit b (List.mem_of_getLast? hb)

theorem pyDigits_llu (v : BitVec 64) : pyDigits (llu v) = some (v.toNat : ℤ) := by
  have hsplit : (llu v).splitOn 0x5F#8 = [llu v] := by
    refine List.splitOn_eq_singleton fun hb => ?_
    exact absurd (digit_of_mem_llu hb) (by decide)
  have hdigits : (llu v).all Decimal.isDigit = true :=
    List.all_eq_true.2 fun _ hb => digit_of_mem_llu hb
  have hne : (llu v).isEmpty = false := by
    rw [List.isEmpty_eq_false_iff]
    exact Decimal.print_ne_nil _
  have hvalue : Decimal.value (llu v) = v.toNat := Decimal.value_print _
  rw [pyDigits, hsplit]
  simp [hdigits, hne, hvalue]

theorem pyInt_llu (v : BitVec 64) : pyInt (llu v) = some (v.toNat : ℤ) := by
  rw [pyInt, strip_llu]
  rcases hc : llu v with _ | ⟨c, s⟩
  · exact absurd hc (Decimal.print_ne_nil _)
  have hdigit : 48 ≤ c.toNat :=
    (digit_bounds (digit_of_mem_llu (hc ▸ List.mem_cons_self))).1
  have hminus : c ≠ 0x2D#8 := by
    rintro rfl
    exact absurd hdigit (by decide)
  have hplus : c ≠ 0x2B#8 := by
    rintro rfl
    exact absurd hdigit (by decide)
  dsimp only
  rw [if_neg hminus, if_neg hplus, ← hc, pyDigits_llu]

theorem plainName_insnTypeToStr (t : InsnType) : PlainName (insnTypeToStr t) := by
  cases t <;> exact ⟨by decide +kernel, by decide +kernel, by decide +kernel, by decide +kernel⟩

theorem insnTypeToStr_injective : Function.Injective insnTypeToStr := by
  have hnodup : (InsnType.all.map insnTypeToStr).Nodup := by decide +kernel
  intro s t h
  exact List.inj_on_of_nodup_map hnodup (InsnType.mem_all s) (InsnType.mem_all t) h

/-! ## Rows -/

variable {p : Parsed} {name : CStr}

theorem parseRow_meta (row : List CStr) : parseRow p (ascii "META" :: row) = parseMeta p row := rfl

theorem parseRow_func (row : List CStr) : parseRow p (ascii "FUNC" :: row) = parseFunc p row := rfl

theorem parseRow_instr (row : List CStr) :
    parseRow p (ascii "INSTR" :: row) = parseInstr p row := rfl

theorem parseRow_icount (row : List CStr) :
    parseRow p (ascii "ICOUNT" :: row) = parseIcount p row := rfl

theorem parseFunc_total (hname : PlainName name) (v : BitVec 64) :
    parseFunc p [name, ascii "total_cycles", llu v] =
      some (p.modifyFunc name fun d => { d with totalCycles := v.toNat }) := by
  have hread : parseFunc p [name, ascii "total_cycles", llu v] =
      (pyInt (llu v)).bind fun value =>
        some (p.modifyFunc (strip name) fun d => { d with totalCycles := value }) := rfl
  rw [hread, pyInt_llu, hname.strip_eq]
  rfl

theorem parseFunc_calls (hname : PlainName name) (v : BitVec 64) :
    parseFunc p [name, ascii "calls", llu v] =
      some (p.modifyFunc name fun d => { d with calls := v.toNat }) := by
  have hread : parseFunc p [name, ascii "calls", llu v] =
      (pyInt (llu v)).bind fun value =>
        some (p.modifyFunc (strip name) fun d => { d with calls := value }) := rfl
  rw [hread, pyInt_llu, hname.strip_eq]
  rfl

theorem parseInstr_class (hname : PlainName name) (type : InsnType) (v : BitVec 64) :
    parseInstr p [name, insnTypeToStr type, llu v] = some (p.modifyFunc name fun d =>
      { d with insnCycles := Dict.set (insnTypeToStr type) v.toNat d.insnCycles }) := by
  have hread : parseInstr p [name, insnTypeToStr type, llu v] = (pyInt (llu v)).bind fun cycles =>
      some (p.modifyFunc (strip name) fun d => { d with
        insnCycles := Dict.set (strip (insnTypeToStr type)) cycles d.insnCycles }) := rfl
  rw [hread, pyInt_llu, hname.strip_eq, (plainName_insnTypeToStr type).strip_eq]
  rfl

theorem parseIcount_class (hname : PlainName name) (type : InsnType) (v : BitVec 64) :
    parseIcount p [name, insnTypeToStr type, llu v] = some (p.modifyFunc name fun d =>
      { d with insnCounts := Dict.set (insnTypeToStr type) v.toNat d.insnCounts }) := by
  have hread : parseIcount p [name, insnTypeToStr type, llu v] = (pyInt (llu v)).bind fun count =>
      some (p.modifyFunc (strip name) fun d => { d with
        insnCounts := Dict.set (strip (insnTypeToStr type)) count d.insnCounts }) := rfl
  rw [hread, pyInt_llu, hname.strip_eq, (plainName_insnTypeToStr type).strip_eq]
  rfl

/-! ## One function -/

def Parsed.withFunc (p : Parsed) (name : CStr) (d : FuncData) : Parsed :=
  { p with funcData := p.funcData ++ [(name, d)] }

theorem modifyFunc_new (hnew : name ∉ p.funcData.map Prod.fst) (f : FuncData → FuncData) :
    p.modifyFunc name f = p.withFunc name (f FuncData.zero) := by
  rw [Parsed.modifyFunc, Dict.modify_of_notMem hnew]
  rfl

theorem modifyFunc_last (hnew : name ∉ p.funcData.map Prod.fst) (d : FuncData)
    (f : FuncData → FuncData) :
    (p.withFunc name d).modifyFunc name f = p.withFunc name (f d) := by
  rw [Parsed.modifyFunc, Parsed.withFunc, Dict.modify_last hnew]
  rfl

/-- What the two lines of a class add to the data of a function. -/
def FuncData.addInsn (fs : FuncStats) (d : FuncData) (type : InsnType) : FuncData :=
  if fs.insnCounts type > 0 then
    { d with
      insnCycles := Dict.set (insnTypeToStr type) (fs.insnCycles type).toNat d.insnCycles
      insnCounts := Dict.set (insnTypeToStr type) (fs.insnCounts type).toNat d.insnCounts }
  else d

theorem parse_reportInsn {fs : FuncStats} (hname : PlainName fs.name)
    (hnew : fs.name ∉ p.funcData.map Prod.fst) (d : FuncData) (type : InsnType) :
    (reportInsn fs type).foldlM parseRow (p.withFunc fs.name d) =
      some (p.withFunc fs.name (d.addInsn fs type)) := by
  unfold reportInsn FuncData.addInsn
  split_ifs
  · rw [List.foldlM_cons, parseRow_instr, parseInstr_class hname, modifyFunc_last hnew]
    rw [Option.bind_eq_bind, Option.bind_some, List.foldlM_cons, parseRow_icount,
      parseIcount_class hname, modifyFunc_last hnew]
    rfl
  · rfl

theorem parse_reportInsns {fs : FuncStats} (hname : PlainName fs.name)
    (hnew : fs.name ∉ p.funcData.map Prod.fst) (types : List InsnType) (d : FuncData) :
    (types.flatMap (reportInsn fs)).foldlM parseRow (p.withFunc fs.name d) =
      some (p.withFunc fs.name (types.foldl (FuncData.addInsn fs) d)) := by
  induction types generalizing d with
  | nil => rfl
  | cons type types ih =>
    rw [List.flatMap_cons, List.foldlM_append, parse_reportInsn hname hnew, Option.bind_eq_bind,
      Option.bind_some, ih]
    rfl

def FuncStats.classes (fs : FuncStats) (types : List InsnType) : List InsnType :=
  types.filter fun type => fs.insnCounts type ≠ 0

variable {fs : FuncStats} {type : InsnType}

theorem classes_cons_zero (h : fs.insnCounts type = 0) (types : List InsnType) :
    fs.classes (type :: types) = fs.classes types := List.filter_cons_of_neg (by simpa using h)

theorem classes_cons_pos (h : fs.insnCounts type ≠ 0) (types : List InsnType) :
    fs.classes (type :: types) = type :: fs.classes types :=
  List.filter_cons_of_pos (by simpa using h)

theorem foldl_addInsn (fs : FuncStats) {types : List InsnType} (hnodup : types.Nodup)
    {d : FuncData} (hcycles : ∀ type ∈ types, insnTypeToStr type ∉ d.insnCycles.map Prod.fst)
    (hcounts : ∀ type ∈ types, insnTypeToStr type ∉ d.insnCounts.map Prod.fst) :
    types.foldl (FuncData.addInsn fs) d = { d with
      insnCycles := d.insnCycles ++ (fs.classes types).map fun type =>
        (insnTypeToStr type, ((fs.insnCycles type).toNat : ℤ))
      insnCounts := d.insnCounts ++ (fs.classes types).map fun type =>
        (insnTypeToStr type, ((fs.insnCounts type).toNat : ℤ)) } := by
  induction types generalizing d with
  | nil => simp [FuncStats.classes]
  | cons type types ih =>
    rw [List.nodup_cons] at hnodup
    rw [List.foldl_cons]
    by_cases hzero : fs.insnCounts type = 0
    · have hadd : d.addInsn fs type = d := if_neg (by rw [hzero]; decide)
      rw [hadd, ih hnodup.2 (fun t ht => hcycles t (List.mem_cons_of_mem _ ht))
        fun t ht => hcounts t (List.mem_cons_of_mem _ ht), classes_cons_zero hzero]
    · have hpos : fs.insnCounts type > 0 := (BitVec.pos_iff_ne_zero _).2 hzero
      have hother : ∀ t ∈ types, insnTypeToStr t ≠ insnTypeToStr type := by
        intro t ht heq
        exact hnodup.1 (insnTypeToStr_injective heq ▸ ht)
      rw [FuncData.addInsn, if_pos hpos,
        Dict.set_of_notMem (hcycles type List.mem_cons_self),
        Dict.set_of_notMem (hcounts type List.mem_cons_self), ih hnodup.2, classes_cons_pos hzero]
      · simp only [List.append_assoc, List.singleton_append, List.map_cons]
      · intro t ht
        simpa [hother t ht] using hcycles t (List.mem_cons_of_mem _ ht)
      · intro t ht
        simpa [hother t ht] using hcounts t (List.mem_cons_of_mem _ ht)

def FuncStats.reported (fs : FuncStats) (types : List InsnType) : FuncData where
  totalCycles := fs.totalCycles.toNat
  calls := fs.calls.toNat
  insnCycles := (fs.classes types).map fun type => (insnTypeToStr type, (fs.insnCycles type).toNat)
  insnCounts := (fs.classes types).map fun type => (insnTypeToStr type, (fs.insnCounts type).toNat)

theorem parse_reportFunc {fs : FuncStats} (hname : PlainName fs.name)
    (hnew : fs.name ∉ p.funcData.map Prod.fst) :
    (reportFunc fs).foldlM parseRow p =
      some (p.withFunc fs.name (fs.reported InsnType.all.tail)) := by
  rw [reportFunc, List.foldlM_append, List.foldlM_cons, parseRow_func, parseFunc_total hname,
    modifyFunc_new hnew, Option.bind_eq_bind, Option.bind_some, List.foldlM_cons, parseRow_func,
    parseFunc_calls hname, modifyFunc_last hnew]
  refine (parse_reportInsns hname hnew _ _).trans ?_
  rw [foldl_addInsn fs (by decide) (fun _ _ => List.not_mem_nil) fun _ _ => List.not_mem_nil]
  rfl

/-! ## The whole report -/

theorem parse_reportFuncs {stats : List FuncStats} (hnames : ∀ fs ∈ stats, PlainName fs.name)
    (hnodup : (p.funcData.map Prod.fst ++ stats.map FuncStats.name).Nodup) :
    (stats.flatMap reportFunc).foldlM parseRow p = some { p with
      funcData := p.funcData ++
        stats.map fun fs => (fs.name, fs.reported InsnType.all.tail) } := by
  induction stats generalizing p with
  | nil => simp
  | cons fs stats ih =>
    rw [List.map_cons, List.append_cons] at hnodup
    have hnew : fs.name ∉ p.funcData.map Prod.fst := fun hmem =>
      (List.disjoint_of_nodup_append (List.nodup_append.1 hnodup).1) hmem List.mem_cons_self
    have hkeys : (p.withFunc fs.name (fs.reported InsnType.all.tail)).funcData.map Prod.fst =
        p.funcData.map Prod.fst ++ [fs.name] := List.map_append
    rw [List.flatMap_cons, List.foldlM_append, parse_reportFunc (hnames fs List.mem_cons_self) hnew,
      Option.bind_eq_bind, Option.bind_some,
      ih (fun x hx => hnames x (List.mem_cons_of_mem _ hx)) (by rw [hkeys]; exact hnodup)]
    simp only [Parsed.withFunc, List.append_assoc, List.singleton_append, List.map_cons]

def CallPair.reported (cp : CallPair) : CallEdge := ⟨cp.caller, cp.callee, cp.count.toNat⟩

theorem parse_reportCalls {pairs : List CallPair}
    (hnames : ∀ cp ∈ pairs, PlainName cp.caller ∧ PlainName cp.callee) :
    (pairs.map reportCall).foldlM parseRow p =
      some { p with callEdges := p.callEdges ++ pairs.map CallPair.reported } := by
  induction pairs generalizing p with
  | nil => simp
  | cons cp pairs ih =>
    obtain ⟨hcaller, hcallee⟩ := hnames cp List.mem_cons_self
    have hread : parseRow p (reportCall cp) = (pyInt (llu cp.count)).bind fun count =>
        some { p with
          callEdges := p.callEdges ++ [⟨strip cp.caller, strip cp.callee, count⟩] } := rfl
    rw [pyInt_llu, hcaller.strip_eq, hcallee.strip_eq] at hread
    rw [List.map_cons, List.foldlM_cons, hread, Option.bind_some, Option.bind_eq_bind,
      Option.bind_some, ih fun x hx => hnames x (List.mem_cons_of_mem _ hx)]
    simp only [List.append_assoc, List.singleton_append, List.map_cons]
    rfl

def reportedMeta (p : Profiler) : List (CStr × MetaValue) :=
  [(ascii "arch", .str (archName p)), (ascii "isa", .str (ascii "rv32im")),
    (ascii "total_cycles", .int p.totalCycles.toNat),
    (ascii "total_instructions", .int p.totalInstructions.toNat)]

theorem parseMeta_total {key : CStr}
    (hkey : key = ascii "total_cycles" ∨ key = ascii "total_instructions") (v : BitVec 64) :
    parseMeta p [key, llu v] =
      some { p with metadata := Dict.set key (.int v.toNat) p.metadata } := by
  have hread : parseMeta p [key, llu v] =
      if strip key = ascii "total_cycles" ∨ strip key = ascii "total_instructions" then
        (pyInt (strip (llu v))).bind fun n =>
          some { p with metadata := Dict.set (strip key) (.int n) p.metadata }
      else some { p with metadata := Dict.set (strip key) (.str (strip (llu v))) p.metadata } := rfl
  have hstrip : strip key = key := by
    rcases hkey with rfl | rfl
    · decide +kernel
    · decide +kernel
  rw [hread, hstrip, if_pos hkey, strip_llu, pyInt_llu]
  rfl

theorem parse_reportMeta {p : Profiler} (harch : PlainName (archName p)) :
    (reportMeta p).foldlM parseRow ⟨[], [], []⟩ = some ⟨reportedMeta p, [], []⟩ := by
  have hname : parseMeta ⟨[], [], []⟩ [ascii "arch", archName p] =
      some ⟨[(ascii "arch", .str (strip (archName p)))], [], []⟩ := rfl
  have hisa : ∀ d, parseMeta ⟨[(ascii "arch", d)], [], []⟩ [ascii "isa", ascii "rv32im"] =
      some ⟨[(ascii "arch", d), (ascii "isa", .str (ascii "rv32im"))], [], []⟩ := fun _ => rfl
  rw [harch.strip_eq] at hname
  rw [reportMeta, List.foldlM_cons, parseRow_meta, hname, Option.bind_eq_bind, Option.bind_some,
    List.foldlM_cons, parseRow_meta, hisa, Option.bind_eq_bind, Option.bind_some,
    List.foldlM_cons, parseRow_meta, parseMeta_total (.inl rfl), Option.bind_eq_bind,
    Option.bind_some, List.foldlM_cons, parseRow_meta, parseMeta_total (.inr rfl)]
  rfl

/-! ## The text of a report -/

theorem cleanRow_cons {type : CStr} (hclean : Clean type) (hne : type ≠ []) {fields : List CStr}
    (hfields : ∀ field ∈ fields, Clean field) : CleanRow (type :: fields) :=
  ⟨List.forall_mem_cons.2 ⟨hclean, hfields⟩, type, fields, rfl, hne⟩

theorem cleanRow_reportMeta {p : Profiler} (harch : PlainName (archName p)) :
    ∀ row ∈ reportMeta p, CleanRow row := by
  have hrow : ∀ key value : CStr, Clean key → Clean value →
      CleanRow [ascii "META", key, value] := by
    intro key value hkey hvalue
    exact cleanRow_cons (by decide +kernel) (by decide +kernel) (by simp [hkey, hvalue])
  intro row h
  rw [reportMeta, List.mem_cons, List.mem_cons, List.mem_cons, List.mem_singleton] at h
  rcases h with rfl | rfl | rfl | rfl
  · exact hrow _ _ (by decide +kernel) harch.clean
  · exact hrow _ _ (by decide +kernel) (by decide +kernel)
  · exact hrow _ _ (by decide +kernel) (clean_llu _)
  · exact hrow _ _ (by decide +kernel) (clean_llu _)

theorem cleanRow_reportFunc {fs : FuncStats} (hname : PlainName fs.name) :
    ∀ row ∈ reportFunc fs, CleanRow row := by
  have hrow : ∀ (type field : CStr) (v : BitVec 64), Clean type ∧ type ≠ [] → Clean field →
      CleanRow [type, fs.name, field, llu v] := by
    intro type field v htype hfield
    exact cleanRow_cons htype.1 htype.2 (by simp [hname.clean, hfield, clean_llu])
  have hfunc : Clean (ascii "FUNC") ∧ ascii "FUNC" ≠ [] := by decide +kernel
  intro row h
  rw [reportFunc, List.mem_append, List.mem_cons, List.mem_singleton, List.mem_flatMap] at h
  rcases h with (rfl | rfl) | ⟨type, -, h⟩
  · exact hrow _ _ _ hfunc (by decide +kernel)
  · exact hrow _ _ _ hfunc (by decide +kernel)
  · unfold reportInsn at h
    split_ifs at h
    · rw [List.mem_cons, List.mem_singleton] at h
      have hclass : Clean (insnTypeToStr type) := (plainName_insnTypeToStr type).clean
      rcases h with rfl | rfl
      · exact hrow _ _ _ (by decide +kernel) hclass
      · exact hrow _ _ _ (by decide +kernel) hclass
    · exact absurd h List.not_mem_nil

theorem cleanRow_reportRows {p : Profiler} (harch : PlainName (archName p))
    (hfuncs : ∀ fs ∈ p.funcStats, PlainName fs.name)
    (hpairs : ∀ cp ∈ p.callPairs, PlainName cp.caller ∧ PlainName cp.callee) :
    ∀ row ∈ reportRows p, CleanRow row := by
  intro row h
  rw [reportRows, List.mem_append, List.mem_append, List.mem_flatMap, List.mem_map] at h
  rcases h with (h | ⟨fs, hfs, h⟩) | ⟨cp, hcp, rfl⟩
  · exact cleanRow_reportMeta harch row h
  · exact cleanRow_reportFunc (hfuncs fs hfs) row h
  · obtain ⟨hcaller, hcallee⟩ := hpairs cp hcp
    exact cleanRow_cons (by decide +kernel) (by decide +kernel)
      (by simp [hcaller.clean, hcallee.clean, clean_llu])

/-! ## The class that a report leaves out -/

theorem unknown_zero_inside {f : SymbolName} {type : InsnType} (htype : type ≠ .unknown)
    {cycles : BitVec 64} {called : Prop} [Decidable called] {stats : List FuncStats}
    (h : ∀ fs ∈ stats, fs.insnCounts .unknown = 0) :
    ∀ fs ∈ statsInside f type cycles called stats, fs.insnCounts .unknown = 0 := by
  have hbump : ∀ counts : InsnType → BitVec 64, bump counts type 1 .unknown = counts .unknown := by
    intro counts
    rw [bump_apply, if_neg htype.symm, add_zero]
  have hspend : ∀ fs ∈ updateFuncStats f.str (FuncStats.spend type cycles) stats,
      fs.insnCounts .unknown = 0 := by
    rw [updateFuncStats_eq]
    exact Tally.forall_upsert h (fun fs _ hfs => (hbump _).trans hfs) (hbump _)
  unfold statsInside
  split_ifs
  · rw [updateFuncStats_eq]
    exact Tally.forall_upsert hspend (fun fs _ hfs => hfs) rfl
  · exact hspend

theorem unknown_count_zero (symbols : List Symbol) {records : List Record} (p : Profiler)
    (htypes : ∀ r ∈ records, r.type ≠ .unknown) :
    ∀ fs ∈ (recordAll symbols records (herveProfilerEnable true p)).funcStats,
      fs.insnCounts .unknown = 0 := by
  induction records using List.reverseRecOn with
  | nil => exact fun fs hfs => absurd hfs List.not_mem_nil
  | append_singleton records r ih =>
    have hprev := ih fun x hx => htypes x (List.mem_append_left _ hx)
    have htype := htypes r (List.mem_append_right _ (List.mem_singleton_self r))
    have henabled := recordAll_enabled symbols records p
    rw [recordAll_concat]
    rcases hf : r.func symbols with _ | f
    · rw [record_outside henabled hf]
      exact hprev
    · rw [record_inside henabled hf]
      exact unknown_zero_inside htype hprev

theorem reported_tail {fs : FuncStats} (h : fs.insnCounts .unknown = 0) :
    fs.reported InsnType.all.tail = fs.reported InsnType.all := by
  have hclasses : fs.classes InsnType.all = fs.classes InsnType.all.tail := classes_cons_zero h _
  rw [FuncStats.reported, FuncStats.reported, hclasses]

/-! ## The round trip -/

/-- Everything a profile says, as `parse_csv` returns it. -/
def Profiler.reported (p : Profiler) : Parsed where
  metadata := reportedMeta p
  callEdges := p.callPairs.map CallPair.reported
  funcData := p.funcStats.map fun fs => (fs.name, fs.reported InsnType.all)

theorem recordAll_currentArch (symbols : List Symbol) (records : List Record) (p : Profiler) :
    (recordAll symbols records (herveProfilerEnable true p)).currentArch = p.currentArch := by
  induction records using List.reverseRecOn with
  | nil => rfl
  | append_singleton records r ih =>
    have henabled := recordAll_enabled symbols records p
    obtain ⟨_, _, _, hrecord⟩ := record_advance symbols r henabled
    rw [recordAll_concat, hrecord]
    exact ih

/-- The text of a report, read back, is the profile. -/
theorem parseCsv_report {symbols : List Symbol} {records : List Record} {p : Profiler}
    (htypes : ∀ r ∈ records, r.type ≠ .unknown)
    (harch : ∀ arch, p.currentArch = some arch → PlainName arch.name)
    (hfuncs : ∀ fs ∈ (recordAll symbols records (herveProfilerEnable true p)).funcStats,
      PlainName fs.name) :
    parseCsv (herveProfilerReportCsv (recordAll symbols records (herveProfilerEnable true p))) =
      some (recordAll symbols records (herveProfilerEnable true p)).reported := by
  have hcurrent := recordAll_currentArch symbols records p
  have hnodup := (profiler_conserved symbols records p).stats.names
  have hends := (graph_wellFormed symbols records p).ends
  have hunknown := unknown_count_zero symbols p htypes
  generalize recordAll symbols records (herveProfilerEnable true p) = q at *
  have hplain : ∀ name ∈ q.funcStats.map FuncStats.name, PlainName name := by
    intro name hname
    obtain ⟨fs, hfs, rfl⟩ := List.mem_map.1 hname
    exact hfuncs fs hfs
  have hpairs : ∀ cp ∈ q.callPairs, PlainName cp.caller ∧ PlainName cp.callee := fun cp hcp =>
    ⟨hplain _ (hends cp hcp).1, hplain _ (hends cp hcp).2⟩
  have harchName : PlainName (archName q) := by
    rw [archName, hcurrent]
    rcases ha : p.currentArch with _ | arch
    · exact ⟨by decide, by decide, by decide, by decide⟩
    · exact harch arch ha
  have hdata : q.funcStats.map (fun fs => (fs.name, fs.reported InsnType.all.tail)) =
      q.funcStats.map fun fs => (fs.name, fs.reported InsnType.all) :=
    List.map_congr_left fun fs hfs => by rw [reported_tail (hunknown fs hfs)]
  have hfuncs' := parse_reportFuncs (p := ⟨reportedMeta q, [], []⟩) hfuncs hnodup
  rw [parseCsv, herveProfilerReportCsv,
    csvReader_lines (cleanRow_reportRows harchName hfuncs hpairs), reportRows, List.foldlM_append,
    List.foldlM_append, List.foldlM_append, parse_reportMeta harchName, Option.bind_eq_bind,
    Option.bind_some, hfuncs', Option.bind_some, parse_reportCalls hpairs, Option.bind_some, hdata]
  rfl

/-- Two functions and an edge. -/
theorem parseCsv_report_call :
    let q := recordAll twoFunctions (callsThenFall 1)
      (herveProfilerEnable true (State.start ()).profiler)
    parseCsv (herveProfilerReportCsv q) = some q.reported := by
  refine parseCsv_report (by decide) (fun arch harch => by cases harch) fun fs hfs => ?_
  have hnames : (recordAll twoFunctions (callsThenFall 1)
      (herveProfilerEnable true (State.start ()).profiler)).funcStats.map FuncStats.name =
        [[0x66], [0x67]] := by decide
  have hname := List.mem_map_of_mem (f := FuncStats.name) hfs
  rw [hnames, List.mem_cons, List.mem_singleton] at hname
  rcases hname with h | h
  · rw [h]
    exact ⟨by decide, by decide, by decide, by decide⟩
  · rw [h]
    exact ⟨by decide, by decide, by decide, by decide⟩

end Herve
