import Herve.Iss.Arm

/-! Which store of bytes stands behind an access. Loads look for the HTIF window at every
width, stores at the full width only. -/

namespace Herve
open RiscV

variable {δ : Type} (dev : Device δ)

/-- What may serve an access; `nothing` answers loads with zero and drops stores. -/
inductive Backing
  | htif | mmio | ram | nothing
  deriving DecidableEq, Repr

def unsignedLoad : Store → Load
  | .sb => .lbu
  | .sh => .lhu
  | .sw => .lw

namespace Bus

/-- The tests of `read_u8`, `read_u16` and `read_u32`, in their order. -/
def loadBacking (b : Bus δ) (op : Store) (addr : Word) : Backing :=
  if isHtifAddress addr then .htif
  else if isMmioAddress addr then .mmio
  else if b.validMemoryAccess addr (BitVec.ofNat 32 op.width) then .ram
  else .nothing

/-- The tests of `write_u8`, `write_u16` and `write_u32`, in their order. -/
def storeBacking (b : Bus δ) (op : Store) (addr : Word) : Backing :=
  if op = .sw ∧ isHtifAddress addr then .htif
  else if isMmioAddress addr then .mmio
  else if b.validMemoryAccess addr (BitVec.ofNat 32 op.width) then .ram
  else .nothing

def htifRead (b : Bus δ) (addr : Word) : Word :=
  if addr = 0x80001008#32 then b.htifFromhostLo
  else if addr = 0x8000100c#32 then b.htifFromhostHi
  else 0

/-- What a load from each backing does. One from the device reads a word and shifts its lane
down. -/
def LoadsFrom (b : Bus δ) (op : Store) (addr : Word) : Backing → Prop
  | .htif => loadData dev (unsignedLoad op) addr b = (b.htifRead addr, b)
  | .mmio => ∃ (word : Word) (shift : ℕ), loadData dev (unsignedLoad op) addr b =
      ((b.dpiMmioRead dev word).1 >>> shift, (b.dpiMmioRead dev word).2)
  | .ram => loadData dev (unsignedLoad op) addr b =
      b.memcpyFrom true (addr - b.memoryBase) op.width
  | .nothing => loadData dev (unsignedLoad op) addr b = (0, b)

/-- What a store to each backing does. One of less than a word to the device reads the word and
writes it back with its lane replaced. -/
def StoresTo (b : Bus δ) (op : Store) (addr value : Word) : Backing → Prop
  | .htif => (storeData dev op addr value b).memory = b.memory ∧
      (storeData dev op addr value b).device = b.device
  | .mmio => ∃ word data : Word, storeData dev op addr value b = b.dpiMmioWrite dev word data ∨
      storeData dev op addr value b = (b.dpiMmioRead dev word).2.dpiMmioWrite dev word data
  | .ram => storeData dev op addr value b = b.memcpyTo (addr - b.memoryBase) op.width
      ((value.setWidth (8 * op.width)).setWidth 32)
  | .nothing => storeData dev op addr value b = b

/-- The tests of the load lead to `k`, and from there it is served. -/
structure LoadServed (b : Bus δ) (op : Store) (addr : Word) (k : Backing) : Prop where
  tests : b.loadBacking op addr = k
  loads : b.LoadsFrom dev op addr k

/-- The tests of the store lead to `k`, and there every value goes. -/
structure StoreServed (b : Bus δ) (op : Store) (addr : Word) (k : Backing) : Prop where
  tests : b.storeBacking op addr = k
  stores : ∀ value, b.StoresTo dev op addr value k

theorem loadData_served (b : Bus δ) (op : Store) (addr : Word) :
    b.LoadServed dev op addr (b.loadBacking op addr) := by
  have hu32 : isHtifAddress addr = true → b.readU32 dev addr = (b.htifRead addr, b) :=
    fun h => by rw [readU32, if_pos h]; rfl
  refine ⟨rfl, ?_⟩
  unfold loadBacking
  split_ifs with hhtif hmmio hvalid
  · cases op with
    | sb => exact (if_pos hhtif).trans (hu32 hhtif)
    | sh => exact (if_pos hhtif).trans (hu32 hhtif)
    | sw => exact hu32 hhtif
  · cases op with
    | sb => exact ⟨_, _, (if_neg hhtif).trans (if_pos hmmio)⟩
    | sh => exact ⟨_, _, (if_neg hhtif).trans (if_pos hmmio)⟩
    | sw => exact ⟨addr, 0, ((if_neg hhtif).trans (if_pos hmmio)).trans
        (by rw [BitVec.ushiftRight_zero])⟩
  · have hvalid' : ¬ (!b.validMemoryAccess addr (BitVec.ofNat 32 op.width)) = true := by
      rw [hvalid]
      decide
    cases op <;> exact ((if_neg hhtif).trans (if_neg hmmio)).trans (if_neg hvalid')
  · have hvalid' : (!b.validMemoryAccess addr (BitVec.ofNat 32 op.width)) = true := by
      simpa using hvalid
    cases op <;> exact ((if_neg hhtif).trans (if_neg hmmio)).trans (if_pos hvalid')

theorem htifProcessRequest_outside (b : Bus δ) :
    b.htifProcessRequest.memory = b.memory ∧ b.htifProcessRequest.device = b.device := by
  unfold htifProcessRequest
  dsimp only [memcpyFrom, log]
  split_ifs <;> exact ⟨rfl, rfl⟩

theorem storeData_served (b : Bus δ) (op : Store) (addr : Word) :
    b.StoreServed dev op addr (b.storeBacking op addr) := by
  refine ⟨rfl, fun value => ?_⟩
  unfold storeBacking
  by_cases hhtif : op = .sw ∧ isHtifAddress addr = true
  · rw [if_pos hhtif]
    obtain ⟨rfl, haddr⟩ := hhtif
    show (b.writeU32 dev addr value).memory = b.memory ∧
      (b.writeU32 dev addr value).device = b.device
    unfold writeU32
    rw [if_pos haddr]
    dsimp only
    split_ifs <;> first | exact htifProcessRequest_outside _ | exact ⟨rfl, rfl⟩
  · rw [if_neg hhtif]
    have hwindow : ∀ {α : Type} (x y : α), op = .sw → (if isHtifAddress addr then x else y) = y :=
      fun x y hop => if_neg fun haddr => hhtif ⟨hop, haddr⟩
    split_ifs with hmmio hvalid
    · cases op with
      | sb => exact ⟨_, _, .inr (if_pos hmmio)⟩
      | sh => exact ⟨_, _, .inr (if_pos hmmio)⟩
      | sw => exact ⟨addr, value, .inl ((hwindow _ _ rfl).trans (if_pos hmmio))⟩
    · have hvalid' : ¬ (!b.validMemoryAccess addr (BitVec.ofNat 32 op.width)) = true := by
        rw [hvalid]
        decide
      cases op with
      | sb => exact (if_neg hmmio).trans (if_neg hvalid')
      | sh => exact (if_neg hmmio).trans (if_neg hvalid')
      | sw =>
        have hwhole : (value.setWidth (8 * Store.sw.width)).setWidth 32 = value :=
          (BitVec.setWidth_eq _).trans (BitVec.setWidth_eq _)
        rw [StoresTo, hwhole]
        exact (hwindow _ _ rfl).trans ((if_neg hmmio).trans (if_neg hvalid'))
    · have hvalid' : (!b.validMemoryAccess addr (BitVec.ofNat 32 op.width)) = true := by
        simpa using hvalid
      cases op with
      | sb => exact (if_neg hmmio).trans (if_pos hvalid')
      | sh => exact (if_neg hmmio).trans (if_pos hvalid')
      | sw => exact (hwindow _ _ rfl).trans ((if_neg hmmio).trans (if_pos hvalid'))

/-! ## A load after a store -/

/-- The byte at `addr` is in RAM and in neither window. -/
def IsRamByte (b : Bus δ) (addr : Word) : Prop :=
  b.memoryBase ≤ addr ∧ addr - b.memoryBase < b.memorySize ∧
    isMmioAddress addr = false ∧ isHtifAddress addr = false
  deriving Decidable

def InRam (b : Bus δ) (op : Store) (addr : Word) : Prop :=
  ∀ k < op.width, b.IsRamByte (addr + BitVec.ofNat 32 k)

/-- The access is aligned and lies in one of the two `fromhost` words. -/
def InFromhost (op : Store) (addr : Word) : Prop :=
  op.width ∣ addr.toNat ∧
    (0x80001008 ≤ addr.toNat ∧ addr.toNat + op.width ≤ 0x8000100c ∨
      0x8000100c ≤ addr.toNat ∧ addr.toNat + op.width ≤ 0x80001010)
  deriving Decidable

/-- A store and the load of its width are served by one backing, and the load returns what was
stored where that is plain memory. -/
structure Coherent (b : Bus δ) (op : Store) (addr : Word) : Prop where
  backing : ∃ k, b.LoadServed dev op addr k ∧ b.StoreServed dev op addr k
  returns : b.InRam op addr ∨ InFromhost op addr → ∀ value,
    (loadData dev (unsignedLoad op) addr (storeData dev op addr value b)).1.toNat =
      value.toNat % 2 ^ (8 * op.width)

theorem InRam.valid {b : Bus δ} {op : Store} {addr : Word} (h : b.InRam op addr) :
    b.validMemoryAccess addr (BitVec.ofNat 32 op.width) = true := by
  have hfirst := h 0 op.width_pos
  have hlast := h (op.width - 1) (Nat.sub_lt op.width_pos one_pos)
  unfold IsRamByte at hfirst hlast
  rw [validMemoryAccess_eq_true]
  cases op <;> dsimp only [Store.width] at hfirst hlast ⊢ <;> constructor <;> bv_omega

theorem memcpyFrom_memcpyTo (b : Bus δ) (guarded : Bool) (i : Word) (op : Store) (value : Word) :
    ((b.memcpyTo i op.width ((value.setWidth (8 * op.width)).setWidth 32)).memcpyFrom guarded i
      op.width).1.toNat = value.toNat % 2 ^ (8 * op.width) := by
  have hbytes : ((b.memcpyTo i op.width ((value.setWidth (8 * op.width)).setWidth 32)).memcpyFrom
      guarded i op.width).1 = fromBytes op.width (byteOf value) := by
    refine fromBytes_congr fun k hk => ?_
    rw [memcpyTo]
    show (if i.toNat ≤ i.toNat + k ∧ i.toNat + k < i.toNat + op.width then _ else _) = _
    rw [if_pos ⟨Nat.le_add_right _ _, Nat.add_lt_add_left hk _⟩, Nat.add_sub_cancel_left,
      byteOf_truncate hk]
  rw [hbytes, fromBytes_byteOf_eq, BitVec.toNat_setWidth, BitVec.toNat_setWidth]
  have hlt : value.toNat % 2 ^ (8 * op.width) < 2 ^ 32 :=
    (Nat.mod_le _ _).trans_lt value.isLt
  exact Nat.mod_eq_of_lt hlt

/-- In the full width both sides test the same windows; elsewhere they part at HTIF. -/
theorem loadBacking_eq_iff (b : Bus δ) (op : Store) (addr : Word) :
    b.loadBacking op addr = b.storeBacking op addr ↔ op = .sw ∨ isHtifAddress addr = false := by
  unfold loadBacking storeBacking
  by_cases hhtif : isHtifAddress addr = true
  · rw [if_pos hhtif]
    by_cases hop : op = .sw
    · rw [if_pos ⟨hop, hhtif⟩]
      exact iff_of_true rfl (.inl hop)
    · rw [if_neg fun h => hop h.1]
      refine iff_of_false (fun heq => ?_) fun h =>
        h.elim hop (by rw [hhtif]; exact Bool.noConfusion)
      split_ifs at heq
  · have hstore : ¬ (op = .sw ∧ isHtifAddress addr = true) := fun h => hhtif h.2
    rw [if_neg hhtif, if_neg hstore]
    exact iff_of_true rfl (.inr (by simpa using hhtif))

/-- The two `fromhost` words answer a full-width load with what was stored. -/
theorem returns_fromhost {addr : Word} (h : InFromhost .sw addr) (b : Bus δ) (value : Word) :
    (loadData dev .lw addr (storeData dev .sw addr value b)).1 = value := by
  have haddr : addr = 0x80001008#32 ∨ addr = 0x8000100c#32 := by
    obtain ⟨-, hrange⟩ := h
    dsimp only [Store.width] at hrange
    bv_omega
  rcases haddr with rfl | rfl <;> rfl

theorem served_iff (b : Bus δ) (op : Store) (addr : Word) :
    (∃ k, b.LoadServed dev op addr k ∧ b.StoreServed dev op addr k) ↔
      op = .sw ∨ isHtifAddress addr = false := by
  rw [← b.loadBacking_eq_iff op addr]
  constructor
  · rintro ⟨k, hload, hstore⟩
    exact hload.tests.trans hstore.tests.symm
  · intro h
    exact ⟨_, loadData_served dev b op addr, h ▸ storeData_served dev b op addr⟩

theorem coherent_iff (b : Bus δ) (op : Store) (addr : Word) :
    b.Coherent dev op addr ↔ op = .sw ∨ isHtifAddress addr = false := by
  refine ⟨fun h => (served_iff dev b op addr).1 h.backing, fun h => ?_⟩
  refine ⟨(served_iff dev b op addr).2 h, ?_⟩
  rintro (hram | hfromhost) value
  · have hfirst := hram 0 op.width_pos
    have haddr : addr + BitVec.ofNat 32 0 = addr := BitVec.add_zero addr
    rw [haddr] at hfirst
    obtain ⟨-, -, hmmio, hhtif⟩ := hfirst
    have hstore := (storeData_served dev b op addr).stores value
    have hserved : b.storeBacking op addr = .ram := by
      rw [storeBacking, if_neg (by simp [hhtif]), hmmio, hram.valid]
      rfl
    rw [hserved, StoresTo] at hstore
    -- the store moves no window, so that the load is served by RAM again
    have hload := (loadData_served dev (storeData dev op addr value b) op addr).loads
    have hserved' : (storeData dev op addr value b).loadBacking op addr = .ram := by
      rw [← hserved, ← (b.loadBacking_eq_iff op addr).2 h, hstore]
      rfl
    rw [hserved', LoadsFrom] at hload
    rw [hload, hstore]
    exact memcpyFrom_memcpyTo b true _ op value
  · have hhtif : isHtifAddress addr = true := by
      obtain ⟨-, hrange⟩ := hfromhost
      have hwidth := op.width_pos
      rw [isHtifAddress_iff]
      omega
    obtain rfl : op = .sw := h.resolve_right (by rw [hhtif]; exact Bool.noConfusion)
    exact (congrArg BitVec.toNat (returns_fromhost dev hfromhost b value)).trans
      (Nat.mod_eq_of_lt value.isLt).symm

/-- A byte stored to `fromhost` goes to RAM; the load asks HTIF. -/
theorem not_coherent_fromhost :
    ¬ Bus.Coherent herveStubs
      { State.start () with memorySize := 0x2000, memoryBase := 0x80000000 } .sb 0x80001008 := by
  intro h
  exact absurd (h.returns (.inr (by decide)) 1) (by decide)

end Bus
end Herve
