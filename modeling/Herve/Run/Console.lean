import Herve.Mem.HtifRequest
import Herve.Run.Iteration

/-! The console. Between two requests a guest prints nothing, so that what a run prints is what its
requests print. Of each buffer `htif_process_request` prints the first byte, whatever the length. -/

namespace Herve
open RiscV AppendLog

variable {δ : Type} (dev : Device δ)

def Event.char : Event → Option Byte
  | .putchar ch => some ch
  | _ => none

def printed (es : List Event) : List Byte := es.filterMap Event.char

/-- From `b` to `c` nothing is printed. -/
def Quiet (b c : Bus δ) : Prop := Extends (fun e => e.char = none) b.trace c.trace

/-! ## Only a store to `tohost` prints -/

namespace Quiet

theorem refl (b : Bus δ) : Quiet b b := Extends.refl _ _

theorem trans {b c d : Bus δ} (h : Quiet b c) (h' : Quiet c d) : Quiet b d := Extends.trans h h'

theorem log (b : Bus δ) {e : Event} (he : e.char = none) : Quiet b (b.log e) :=
  (Extends.refl _ _).append he

theorem dpiMmioRead (b : Bus δ) (addr : Word) : Quiet b (b.dpiMmioRead dev addr).2 :=
  (Extends.refl _ _).append rfl

theorem mmioMerge (b : Bus δ) (addr lane ones value : Word) :
    Quiet b (b.mmioMerge dev addr lane ones value) :=
  (dpiMmioRead dev b _).append rfl

theorem readU32 (b : Bus δ) (addr : Word) : Quiet b (b.readU32 dev addr).2 := by
  unfold Bus.readU32
  by_cases hhtif : isHtifAddress addr = true
  · rw [if_pos hhtif]
    exact refl b
  rw [if_neg hhtif]
  split_ifs
  · exact dpiMmioRead dev b addr
  · exact refl b
  · exact log b rfl

theorem readU16 (b : Bus δ) (addr : Word) : Quiet b (b.readU16 dev addr).2 := by
  unfold Bus.readU16
  split_ifs
  · exact readU32 dev b addr
  · exact dpiMmioRead dev b _
  · exact refl b
  · exact log b rfl

theorem readU8 (b : Bus δ) (addr : Word) : Quiet b (b.readU8 dev addr).2 := by
  unfold Bus.readU8
  split_ifs
  · exact readU32 dev b addr
  · exact dpiMmioRead dev b _
  · exact refl b
  · exact log b rfl

theorem writeU32 (b : Bus δ) {addr : Word} (h : addr ≠ 0x80001000#32) (value : Word) :
    Quiet b (b.writeU32 dev addr value) := by
  unfold Bus.writeU32
  rw [if_neg h]
  split_ifs <;> first | exact refl b | exact (Extends.refl _ _).append rfl

theorem writeU16 (b : Bus δ) (addr : Word) (value : BitVec 16) :
    Quiet b (b.writeU16 dev addr value) := by
  unfold Bus.writeU16
  split_ifs
  · exact mmioMerge dev b _ _ _ _
  · exact refl b
  · exact (Extends.refl _ _).append rfl

theorem writeU8 (b : Bus δ) (addr : Word) (value : Byte) :
    Quiet b (b.writeU8 dev addr value) := by
  unfold Bus.writeU8
  split_ifs
  · exact mmioMerge dev b _ _ _ _
  · exact refl b
  · exact (Extends.refl _ _).append rfl

theorem loadData (op : Load) (addr : Word) (b : Bus δ) :
    Quiet b (loadData dev op addr b).2 := by
  cases op <;> unfold Herve.loadData
  · exact readU8 dev b addr
  · exact readU16 dev b addr
  · exact readU32 dev b addr
  · exact readU8 dev b addr
  · exact readU16 dev b addr

theorem storeData {op : Store} {addr : Word} (h : op = .sw → addr ≠ 0x80001000#32) (value : Word)
    (b : Bus δ) : Quiet b (storeData dev op addr value b) := by
  cases op <;> unfold Herve.storeData
  · exact writeU8 dev b addr _
  · exact writeU16 dev b addr _
  · exact writeU32 dev b (h rfl) value

end Quiet

theorem Arm.run_quiet (a : Arm) (nextPc : Word) (c : Core δ) :
    Quiet c.toBus (a.run dev nextPc c).2.toBus ∨
      ∃ value, (a.run dev nextPc c).2.toBus = c.toBus.writeU32 dev 0x80001000 value := by
  cases a with
  | load op rd addr => exact .inl (.loadData dev op addr c.toBus)
  | store op rs2 addr =>
    by_cases h : op = .sw ∧ addr = 0x80001000#32
    · obtain ⟨rfl, rfl⟩ := h
      exact .inr ⟨c.regs rs2, rfl⟩
    · exact .inl (.storeData dev (fun hop haddr => h ⟨hop, haddr⟩) _ _)
  | _ => exact .inl (.refl _)

/-- An iteration prints nothing, or it stores a word to `tohost`. -/
theorem iteration_quiet (profiled : Bool) (s : State δ) :
    Quiet s.toBus (iteration dev profiled s).2.toBus ∨
      ∃ value, Quiet ((s.fetched dev).toBus.writeU32 dev 0x80001000 value)
        (iteration dev profiled s).2.toBus := by
  by_cases hf : s.CanFetch
  · obtain ⟨a, nextPc, b, _, hb, hend⟩ := iteration_bus dev profiled hf
    have hretire : Quiet b (iteration dev profiled s).2.toBus := by
      rcases hend with ⟨hend, _⟩ | ⟨insn, hend, _⟩
      · rw [hend]
        exact .refl b
      · rw [hend]
        exact .log b rfl
    have hfetch : Quiet s.toBus (s.fetched dev).toBus := .readU32 dev _ _
    rcases a.run_quiet dev nextPc (s.fetched dev).toCore with hquiet | ⟨value, hstore⟩
    · exact .inl ((hfetch.trans (hb ▸ hquiet)).trans hretire)
    · exact .inr ⟨value, hstore ▸ hb ▸ hretire⟩
  · rw [iteration_stop dev profiled hf]
    exact .inl (.refl _)

/-! ## Requests -/

/-- A 64-bit field of the guest at an index of the host array. -/
def Holds64 (memory : ℕ → Byte) (i : ℕ) (v : BitVec 64) : Prop :=
  ∀ k : Fin 8, memory (i + k) = (v >>> (8 * k.val)).setWidth 8
  deriving Decidable

/-- A request of the guest to write `len` bytes, on the bus that its store to `tohost` finds. -/
structure WriteRequest (δ : Type) where
  bus : Bus δ
  ptr : Word
  buf : BitVec 64
  len : BitVec 64
  request_in_ram : bus.memoryBase.toNat ≤ ptr.toNat ∧
    ptr.toNat + 32 ≤ bus.memoryBase.toNat + bus.memorySize.toNat
  buffer_in_ram : ∀ k < len.toNat, bus.memoryBase.toNat ≤ buf.toNat + k ∧
    buf.toNat + k < bus.memoryBase.toNat + bus.memorySize.toNat
  holds_magic : Holds64 bus.memory (ptr.toNat - bus.memoryBase.toNat) 64
  holds_device : Holds64 bus.memory (ptr.toNat - bus.memoryBase.toNat + 8) 1
  holds_buf : Holds64 bus.memory (ptr.toNat - bus.memoryBase.toNat + 16) buf
  holds_len : Holds64 bus.memory (ptr.toNat - bus.memoryBase.toNat + 24) len
  /-- the runtime clears `fromhost` when it has seen the last acknowledgement -/
  cleared : bus.fromhost = 0

namespace WriteRequest

def served (r : WriteRequest δ) : Bus δ := r.bus.writeU32 dev 0x80001000 r.ptr

def output (r : WriteRequest δ) : List Byte :=
  (List.range r.len.toNat).map fun k =>
    r.bus.memory (r.buf.toNat + k - r.bus.memoryBase.toNat)

/-- The request is one for a single byte, or for none at an address that the source does not
print from, and neither its address nor RAM's end defeats the tests. -/
def SingleByte (r : WriteRequest δ) : Prop :=
  r.ptr &&& 1 = 0 ∧ r.ptr ≠ 0 ∧ r.bus.memoryBase.toNat + r.bus.memorySize.toNat < 2 ^ 32 ∧
    (r.len = 1 ∨ r.len = 0 ∧ ¬ r.bus.InRange (r.buf.setWidth 32))
  deriving Decidable

end WriteRequest

/-! ## One request -/

theorem Holds64.fromBytes {memory : ℕ → Byte} {i : ℕ} {v : BitVec 64} (h : Holds64 memory i v) :
    (fromBytes 4 fun k => memory (i + k)) = v.setWidth 32 := by
  rw [← fromBytes_byteOf (v.setWidth 32)]
  refine fromBytes_congr fun k hk => ?_
  rw [h ⟨k, by omega⟩, byteOf]
  apply BitVec.eq_of_getLsbD_eq
  intro i hi
  have hbit : 8 * k + i < 32 := by omega
  simp [hbit]

namespace WriteRequest
variable (r : WriteRequest δ)

theorem requestWord_of_holds (o : Word) (ho : o.toNat ≤ 24) {v : BitVec 64}
    (h : Holds64 r.bus.memory (r.ptr.toNat - r.bus.memoryBase.toNat + o.toNat) v) :
    r.bus.requestWord r.ptr o = v.setWidth 32 := by
  obtain ⟨hbase, hend⟩ := r.request_in_ram
  have hindex : (r.ptr - r.bus.memoryBase + o).toNat =
      r.ptr.toNat - r.bus.memoryBase.toNat + o.toNat := by
    bv_omega
  rw [Bus.requestWord, hindex]
  exact h.fromBytes

theorem magic : r.bus.requestWord r.ptr 0 = 64 :=
  r.requestWord_of_holds 0 (by decide) r.holds_magic

theorem device : r.bus.requestWord r.ptr 8 = 1 :=
  r.requestWord_of_holds 8 (by decide) r.holds_device

theorem argument : r.bus.requestWord r.ptr 16 = r.buf.setWidth 32 :=
  r.requestWord_of_holds 16 (by decide) r.holds_buf

theorem inRange_iff :
    r.bus.InRange r.ptr ↔ r.bus.memoryBase.toNat + r.bus.memorySize.toNat < 2 ^ 32 := by
  obtain ⟨hbase, hend⟩ := r.request_in_ram
  unfold Bus.InRange
  -- a sum that wraps is below `memory_base`, and then no pointer passes
  bv_omega

def emitted : List Byte :=
  if r.bus.Requests r.ptr ∧ r.bus.InRange (r.buf.setWidth 32) then
    [r.bus.memory (r.buf.setWidth 32 - r.bus.memoryBase).toNat]
  else []

theorem printed_fieldEvents (b : Bus δ) (ptr : Word) : printed (b.fieldEvents ptr) = [] := rfl

theorem printed_requestEvents : printed (r.bus.requestEvents r.ptr) = r.emitted := by
  by_cases hreq : r.bus.Requests r.ptr
  · rw [Bus.requestEvents, if_pos hreq, if_pos r.magic, printed, List.filterMap_append]
    refine (congrArg (· ++ _) (printed_fieldEvents r.bus r.ptr)).trans ?_
    rw [List.nil_append, Bus.consoleEvents, Bus.requestChar, r.device, r.argument]
    by_cases hrange : r.bus.InRange (r.buf.setWidth 32)
    · rw [emitted, if_pos ⟨rfl, hrange⟩, if_pos ⟨hreq, hrange⟩]
      rfl
    · rw [emitted, if_neg fun h => hrange h.2, if_neg fun h => hrange h.2]
      rfl
  · rw [Bus.requestEvents, if_neg hreq, emitted, if_neg fun h => hreq h.1]
    rfl

theorem served_fromhost :
    (r.served dev).fromhost = if r.bus.Requests r.ptr then 1 else 0 := by
  rw [served, Bus.writeU32_tohost_fromhost, r.cleared]
  by_cases hreq : r.bus.Requests r.ptr
  · rw [if_pos hreq, if_pos ⟨hreq, r.magic⟩]
  · rw [if_neg hreq, if_neg fun hack => hreq hack.1]

theorem output_length : r.output.length = r.len.toNat := by
  rw [output, List.length_map, List.length_range]

/-- One byte in RAM: its address is one of the source's 32 bits. -/
theorem output_one (hsize : r.bus.memoryBase.toNat + r.bus.memorySize.toNat < 2 ^ 32)
    (hlen : r.len = 1) : r.bus.InRange (r.buf.setWidth 32) ∧
      r.output = [r.bus.memory (r.buf.setWidth 32 - r.bus.memoryBase).toNat] := by
  have hone : r.len.toNat = 1 := congrArg BitVec.toNat hlen
  obtain ⟨hbase, hend⟩ := r.buffer_in_ram 0 (by omega)
  have hbuf : (r.buf.setWidth 32).toNat = r.buf.toNat := by
    rw [BitVec.toNat_setWidth, Nat.mod_eq_of_lt (by omega)]
  have hindex : (r.buf.setWidth 32 - r.bus.memoryBase).toNat =
      r.buf.toNat - r.bus.memoryBase.toNat := by
    bv_omega
  refine ⟨⟨by bv_omega, by bv_omega⟩, ?_⟩
  rw [output, hone, hindex]
  rfl

/-- A request prints its buffer and is acknowledged exactly if it is for a single byte. -/
theorem emitted_eq_output_iff :
    r.emitted = r.output ∧ (r.served dev).fromhost ≠ 0 ↔ r.SingleByte := by
  rw [r.served_fromhost]
  by_cases hreq : r.bus.Requests r.ptr
  · have hsize := r.inRange_iff.1 hreq.2.2
    have hlength := r.output_length
    rw [if_pos hreq, emitted]
    have hacked : (1 : BitVec 64) ≠ 0 := by decide
    -- the source prints one byte or none, so the length of the buffer decides
    by_cases hrange : r.bus.InRange (r.buf.setWidth 32)
    · rw [if_pos ⟨hreq, hrange⟩]
      constructor
      · rintro ⟨heq, _⟩
        rw [← heq] at hlength
        exact ⟨hreq.1, hreq.2.1, hsize, .inl (BitVec.eq_of_toNat_eq hlength.symm)⟩
      · rintro ⟨_, _, _, hlen | ⟨_, hout⟩⟩
        · exact ⟨(r.output_one hsize hlen).2.symm, hacked⟩
        · exact absurd hrange hout
    · rw [if_neg fun h => hrange h.2]
      constructor
      · rintro ⟨heq, _⟩
        rw [← heq] at hlength
        exact ⟨hreq.1, hreq.2.1, hsize, .inr ⟨BitVec.eq_of_toNat_eq hlength.symm, hrange⟩⟩
      · rintro ⟨_, _, _, hlen | ⟨hlen, _⟩⟩
        · exact absurd (r.output_one hsize hlen).1 hrange
        · rw [hlen] at hlength
          exact ⟨(List.length_eq_zero_iff.1 hlength).symm, hacked⟩
  · rw [if_neg hreq]
    refine iff_of_false (fun h => h.2 rfl) fun h => hreq ?_
    exact ⟨h.1, h.2.1, r.inRange_iff.2 h.2.2.1⟩

end WriteRequest

/-! ## A run -/

/-- The requests of a run from `b`: the guest prints nothing before each of them. -/
def IsRun (b : Bus δ) : List (WriteRequest δ) → Prop
  | [] => True
  | r :: rs => Quiet b r.bus ∧ IsRun (r.served dev) rs

def afterAll (b : Bus δ) : List (WriteRequest δ) → Bus δ
  | [] => b
  | r :: rs => afterAll (r.served dev) rs

/-- Whenever a request is done, what has been printed is the buffers of the requests so far, and
the request is acknowledged. -/
structure Lossless (b : Bus δ) (rs : List (WriteRequest δ)) : Prop where
  printed : ∀ qs, qs <+: rs →
    printed (newEvents b (afterAll dev b qs)) = qs.flatMap WriteRequest.output
  acknowledged : ∀ r ∈ rs, (r.served dev).fromhost ≠ 0

theorem IsRun.initial {b : Bus δ} {qs rs : List (WriteRequest δ)} (h : IsRun dev b rs)
    (hqs : qs <+: rs) : IsRun dev b qs := by
  obtain ⟨ps, rfl⟩ := hqs
  induction qs generalizing b with
  | nil => trivial
  | cons q qs ih => exact ⟨h.1, ih h.2⟩

theorem printed_append (es fs : List Event) : printed (es ++ fs) = printed es ++ printed fs :=
  List.filterMap_append

theorem Quiet.printed {b c : Bus δ} (h : Quiet b c) :
    ∃ es, c.trace = b.trace ++ es ∧ printed es = [] := by
  obtain ⟨es, htrace, hes⟩ := h
  exact ⟨es, htrace, List.filterMap_eq_nil_iff.2 hes⟩

theorem afterAll_trace {b : Bus δ} {rs : List (WriteRequest δ)} (h : IsRun dev b rs) :
    ∃ es, (afterAll dev b rs).trace = b.trace ++ es ∧
      printed es = rs.flatMap WriteRequest.emitted := by
  induction rs generalizing b with
  | nil => exact ⟨[], (List.append_nil _).symm, rfl⟩
  | cons r rs ih =>
    obtain ⟨es, hes, hquiet⟩ := h.1.printed
    obtain ⟨fs, hfs, hprinted⟩ := ih h.2
    have hserved : (r.served dev).trace = r.bus.trace ++ r.bus.requestEvents r.ptr :=
      Bus.writeU32_tohost_trace dev r.bus r.ptr
    refine ⟨es ++ (r.bus.requestEvents r.ptr ++ fs), ?_, ?_⟩
    · rw [afterAll, hfs, hserved, hes, List.append_assoc, List.append_assoc]
    · rw [printed_append, printed_append, hquiet, hprinted, r.printed_requestEvents]
      rfl

theorem printed_afterAll {b : Bus δ} {rs : List (WriteRequest δ)} (h : IsRun dev b rs) :
    printed (newEvents b (afterAll dev b rs)) = rs.flatMap WriteRequest.emitted := by
  obtain ⟨es, htrace, hprinted⟩ := afterAll_trace dev h
  rw [newEvents_of_append htrace, hprinted]

/-- A run is lossless exactly if each of its requests is for a single byte. -/
theorem lossless_iff {b : Bus δ} {rs : List (WriteRequest δ)} (h : IsRun dev b rs) :
    Lossless dev b rs ↔ ∀ r ∈ rs, r.SingleByte := by
  have hprinted : (∀ qs, qs <+: rs →
      printed (newEvents b (afterAll dev b qs)) = qs.flatMap WriteRequest.output) ↔
        ∀ r ∈ rs, r.emitted = r.output := by
    rw [← flatMap_prefixes_iff]
    exact forall₂_congr fun qs hqs => by rw [printed_afterAll dev (h.initial dev hqs)]
  constructor
  · intro hrun r hr
    exact (r.emitted_eq_output_iff dev).1 ⟨hprinted.1 hrun.printed r hr, hrun.acknowledged r hr⟩
  · intro hsingle
    have hright := fun (r : WriteRequest δ) hr => (r.emitted_eq_output_iff dev).2 (hsingle r hr)
    exact ⟨hprinted.2 fun r hr => (hright r hr).1, fun r hr => (hright r hr).2⟩

/-- A request at 8 to write the first bytes of "hi", which stands behind it. -/
def greeting (n : Fin 3) : WriteRequest Unit where
  bus := { State.booted [] with
    memory := fun i =>
      if i = 8 then 64 else if i = 16 then 1 else if i = 24 then 40
      else if i = 32 then BitVec.ofNat 8 n
      else if i = 40 then 0x68 else if i = 41 then 0x69 else 0 }.toBus
  ptr := 8
  buf := 40
  len := BitVec.ofNat 64 n
  request_in_ram := by revert n; decide
  buffer_in_ram := by revert n; decide
  holds_magic := by revert n; decide
  holds_device := by revert n; decide
  holds_buf := by revert n; decide
  holds_len := by revert n; decide
  cleared := by revert n; decide

theorem lossless_greeting : Lossless herveStubs (greeting 1).bus [greeting 1] := by
  have hrun : IsRun herveStubs (greeting 1).bus [greeting 1] := ⟨.refl _, trivial⟩
  exact (lossless_iff herveStubs hrun).2 (by decide)

/-- Of "hi" only the first byte is printed. -/
theorem greeting_not_lossless :
    IsRun herveStubs (greeting 2).bus [greeting 2] ∧
      ¬ Lossless herveStubs (greeting 2).bus [greeting 2] := by
  refine ⟨⟨.refl _, trivial⟩, fun h => ?_⟩
  exact absurd (h.printed _ (List.prefix_refl _)) (by decide)

end Herve
