import Herve.Decode.Fields
import Herve.Iss.Step

/-! The hart an emulator state implements: RAM seen through guest addresses. Accesses
inside RAM are the hart's own loads and stores, and an arm that stays inside RAM does to
the hart what `Arm.exec` says. -/

namespace Herve
open RiscV

variable {δ : Type} (dev : Device δ)

def Core.hart (c : Core δ) : Hart where
  pc := c.pc
  x := c.regs
  mem a := c.memory (a - c.memoryBase).toNat

/-- Accesses of `w` bytes at `addr` go to RAM: the address starts outside both windows and
each byte of the access is a byte of RAM. -/
structure Bus.RamAccess (b : Bus δ) (addr : Word) (w : ℕ) : Prop where
  not_htif : isHtifAddress addr = false
  not_mmio : isMmioAddress addr = false
  base_le : b.memoryBase ≤ addr
  lt_size : ∀ k < w, addr + BitVec.ofNat 32 k - b.memoryBase < b.memorySize

structure SameBus (b b' : Bus δ) : Prop where
  memorySize : b'.memorySize = b.memorySize
  memoryBase : b'.memoryBase = b.memoryBase
  irqMask : b'.irqMask = b.irqMask
  htifTohostLo : b'.htifTohostLo = b.htifTohostLo
  htifTohostHi : b'.htifTohostHi = b.htifTohostHi
  htifFromhostLo : b'.htifFromhostLo = b.htifFromhostLo
  htifFromhostHi : b'.htifFromhostHi = b.htifFromhostHi
  htifExit : b'.htifExit = b.htifExit
  htifExitCode : b'.htifExitCode = b.htifExitCode
  htifHalted : b'.htifHalted = b.htifHalted
  device : b'.device = b.device

theorem SameBus.refl (b : Bus δ) : SameBus b b := by constructor <;> rfl

theorem SameBus.memcpyFrom (b : Bus δ) (guarded : Bool) (i : Word) (n : ℕ) :
    SameBus b (b.memcpyFrom guarded i n).2 := by constructor <;> rfl

theorem SameBus.memcpyTo (b : Bus δ) (i : Word) (n : ℕ) (v : Word) :
    SameBus b (b.memcpyTo i n v) := by constructor <;> rfl

namespace Bus.RamAccess
variable {b : Bus δ} {addr : Word} {w : ℕ}

/-- The byte of offset `k` is `k` bytes after the first one, unless the sum wraps. -/
theorem index_add {base : Word} {k : ℕ} (h : (addr - base).toNat + k < 2 ^ 32) :
    (addr + BitVec.ofNat 32 k - base).toNat = (addr - base).toNat + k := by
  have hsub : addr + BitVec.ofNat 32 k - base = addr - base + BitVec.ofNat 32 k := by
    bv_omega
  rw [hsub, BitVec.toNat_add, BitVec.toNat_ofNat, Nat.mod_eq_of_lt (by omega : k < 2 ^ 32),
    Nat.mod_eq_of_lt h]

/-- RAM is shorter than `2 ^ 32`, so an access inside it does not wrap around. -/
theorem index_add_le (h : b.RamAccess addr w) (hw : 0 < w) :
    (addr - b.memoryBase).toNat + w ≤ b.memorySize.toNat := by
  have hprefix : ∀ k, 0 < k → k ≤ w →
      (addr - b.memoryBase).toNat + k ≤ b.memorySize.toNat := by
    intro k hk hkw
    -- one byte at a time: the next index is known not to wrap because the last was in RAM
    induction k, hk using Nat.le_induction with
    | base =>
      have h0 := h.lt_size 0 hw
      rw [BitVec.lt_def, index_add (by omega)] at h0
      omega
    | succ k hk ih =>
      have hk' := h.lt_size k (by omega)
      have hprev := ih (by omega)
      rw [BitVec.lt_def, index_add (by omega)] at hk'
      omega
  exact hprefix w hw le_rfl

theorem valid (h : b.RamAccess addr w) (hw : 0 < w) :
    b.validMemoryAccess addr (BitVec.ofNat 32 w) = true := by
  have hle := h.index_add_le hw
  have hsum : addr - b.memoryBase + BitVec.ofNat 32 w ≤ b.memorySize := by
    rw [BitVec.le_def, BitVec.toNat_add, BitVec.toNat_ofNat, Nat.mod_eq_of_lt (by omega),
      Nat.mod_eq_of_lt (by omega)]
    exact hle
  simp [validMemoryAccess, h.base_le, hsum]

end Bus.RamAccess

/-! ## Loads and stores -/

theorem Core.memcpyFrom_hart (c : Core δ) {addr : Word} {w : ℕ}
    (h : c.RamAccess addr w) (hw : 0 < w) :
    (c.memcpyFrom true (addr - c.memoryBase) w).1 = c.hart.load w addr := by
  refine fromBytes_congr fun k hk => ?_
  have hle := h.index_add_le hw
  show _ = c.memory (addr + BitVec.ofNat 32 k - c.memoryBase).toNat
  rw [Bus.RamAccess.index_add (by omega)]

theorem Core.memcpyTo_hart (c : Core δ) {addr : Word} {w : ℕ} (v : Word)
    (h : c.RamAccess addr w) (hw : 0 < w) :
    ({ c with toBus := c.memcpyTo (addr - c.memoryBase) w v } : Core δ).hart
      = c.hart.store w addr v := by
  have hle := h.index_add_le hw
  simp only [Core.hart, Hart.store, Bus.memcpyTo, Bus.log, Hart.mk.injEq, true_and]
  funext a
  by_cases ha : (a - addr).toNat < w
  · have hidx : (a - c.memoryBase).toNat = (addr - c.memoryBase).toNat + (a - addr).toNat := by
      bv_omega
    rw [if_pos ha, if_pos (by omega), hidx, Nat.add_sub_cancel_left]
  · rw [if_neg ha, if_neg]
    rintro ⟨hlo, hhi⟩
    bv_omega

theorem Bus.memcpyTo_congr (b : Bus δ) (i : Word) {n : ℕ} {v v' : Word}
    (h : ∀ k < n, byteOf v k = byteOf v' k) : b.memcpyTo i n v = b.memcpyTo i n v' := by
  unfold Bus.memcpyTo
  congr 2
  funext j
  split_ifs with hj
  · exact h _ (by omega)
  · rfl

theorem loadData_ram {op : Load} {addr : Word} {b : Bus δ} (h : b.RamAccess addr op.width) :
    loadData dev op addr b =
      (op.extend (b.memcpyFrom true (addr - b.memoryBase) op.width).1,
        (b.memcpyFrom true (addr - b.memoryBase) op.width).2) := by
  cases op with
  | lb =>
    have hv : b.validMemoryAccess addr 1 = true := h.valid (by decide)
    simp only [loadData, Bus.readU8, h.not_htif, h.not_mmio, hv]
    exact congrArg (·, _) (signExtend_eq (by decide) rfl)
  | lh =>
    have hv : b.validMemoryAccess addr 2 = true := h.valid (by decide)
    simp only [loadData, Bus.readU16, h.not_htif, h.not_mmio, hv]
    exact congrArg (·, _) (signExtend_eq (by decide) rfl)
  | lw =>
    have hv : b.validMemoryAccess addr 4 = true := h.valid (by decide)
    simp only [loadData, Bus.readU32, h.not_htif, h.not_mmio, hv]
    rfl
  | lbu =>
    have hv : b.validMemoryAccess addr 1 = true := h.valid (by decide)
    simp only [loadData, Bus.readU8, h.not_htif, h.not_mmio, hv]
    rfl
  | lhu =>
    have hv : b.validMemoryAccess addr 2 = true := h.valid (by decide)
    simp only [loadData, Bus.readU16, h.not_htif, h.not_mmio, hv]
    rfl

theorem storeData_ram {op : Store} {addr : Word} {b : Bus δ} (h : b.RamAccess addr op.width)
    (v : Word) : storeData dev op addr v b = b.memcpyTo (addr - b.memoryBase) op.width v := by
  cases op with
  | sb =>
    have hv : b.validMemoryAccess addr 1 = true := h.valid (by decide)
    simp only [storeData, Bus.writeU8, h.not_mmio, hv]
    exact b.memcpyTo_congr _ fun k hk => byteOf_truncate hk v
  | sh =>
    have hv : b.validMemoryAccess addr 2 = true := h.valid (by decide)
    simp only [storeData, Bus.writeU16, h.not_mmio, hv]
    exact b.memcpyTo_congr _ fun k hk => byteOf_truncate hk v
  | sw =>
    have hv : b.validMemoryAccess addr 4 = true := h.valid (by decide)
    simp only [storeData, Bus.writeU32, h.not_htif, h.not_mmio, hv]
    rfl

/-! ## Arms -/

def Arm.exec (nextPc : Word) (h : Hart) : Arm → Hart
  | .fail | .skip => h.goto nextPc
  | .writeReg rd value => (h.set rd value).goto nextPc
  | .load op rd addr => (h.set rd (op.extend (h.load op.width addr))).goto nextPc
  | .store op rs2 addr => (h.store op.width addr (h.x rs2)).goto nextPc
  | .setPc target => h.goto target
  | .link rd value target => (h.set rd value).goto target

theorem Core.hart_writeReg (c : Core δ) (r : Reg) (v pc : Word) :
    ({ c with regs := writeReg r v c.regs, pc := pc } : Core δ).hart =
      (c.hart.set r v).goto pc := by
  unfold writeReg Hart.set
  by_cases hr : r = 0
  · rw [if_neg (not_not_intro hr), if_pos hr]
    rfl
  · rw [if_pos hr, if_neg hr]
    rfl

/-- An arm that keeps to RAM refines its effect on the hart and leaves the bus alone. -/
theorem Arm.run_hart {a : Arm} (nextPc : Word) {c : Core δ} (hfail : a ≠ .fail)
    (hacc : ∀ addr w, a.access = some (addr, w) → c.RamAccess addr w) :
    (a.run dev nextPc c).1 = true ∧ (a.run dev nextPc c).2.hart = a.exec nextPc c.hart ∧
      SameBus c.toBus (a.run dev nextPc c).2.toBus := by
  cases a with
  | fail => exact absurd rfl hfail
  | skip => exact ⟨rfl, rfl, .refl _⟩
  | writeReg r v => exact ⟨rfl, c.hart_writeReg r v nextPc, .refl _⟩
  | setPc t => exact ⟨rfl, rfl, .refl _⟩
  | link r v t => exact ⟨rfl, c.hart_writeReg r v t, .refl _⟩
  | load op r addr =>
    have h := hacc addr op.width rfl
    have hdata := c.memcpyFrom_hart h op.width_pos
    simp only [Arm.run, loadData_ram dev h, hdata]
    exact ⟨trivial, c.hart_writeReg r _ nextPc, .memcpyFrom _ _ _ _⟩
  | store op r addr =>
    have h := hacc addr op.width rfl
    have hmem := c.memcpyTo_hart (c.regs r) h op.width_pos
    simp only [Arm.run, storeData_ram dev h]
    exact ⟨trivial, congrArg (Hart.goto · nextPc) hmem, .memcpyTo _ _ _ _⟩

end Herve
