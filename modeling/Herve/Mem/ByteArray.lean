import Herve.Mem.Routing
import Herve.Refine.Hart

/-! RAM as one array of bytes under accesses of every width: a load after a store anywhere in RAM
takes each byte from the store where it covers that byte, and from the old content elsewhere. -/

namespace Herve
open RiscV

variable {δ : Type} (dev : Device δ)

theorem unsignedLoad_width (op : Store) : (unsignedLoad op).width = op.width := by
  cases op <;> rfl

theorem unsignedLoad_extend (op : Store) (v : Word) : (unsignedLoad op).extend v = v := by
  cases op <;> rfl

/-- `read_u8`, `read_u16` or `read_u32` inside RAM. -/
theorem loadData_unsigned {op : Store} {addr : Word} {b : Bus δ} (h : b.RamAccess addr op.width) :
    (loadData dev (unsignedLoad op) addr b).1 =
      fromBytes op.width fun k => b.memory ((addr - b.memoryBase).toNat + k) := by
  have h' : b.RamAccess addr (unsignedLoad op).width := (unsignedLoad_width op).symm ▸ h
  rw [loadData_ram dev h', unsignedLoad_extend, unsignedLoad_width]
  rfl

theorem memcpyTo_memory (b : Bus δ) (i : Word) (n : ℕ) (v : Word) (j : ℕ) :
    (b.memcpyTo i n v).memory j =
      if i.toNat ≤ j ∧ j < i.toNat + n then byteOf v (j - i.toNat) else b.memory j := rfl

/-- A store of width `wa` at `a`, then a load of width `wb` at `b`, aligned or not, overlapping
or not. -/
theorem load_after_store (wa wb : Store) {a b : Word} {bus : Bus δ}
    (ha : bus.RamAccess a wa.width) (hb : bus.RamAccess b wb.width) (v : Word) :
    (loadData dev (unsignedLoad wb) b (storeData dev wa a v bus)).1 =
      fromBytes wb.width fun k =>
        if a.toNat ≤ b.toNat + k ∧ b.toNat + k < a.toNat + wa.width then
          byteOf v (b.toNat + k - a.toNat)
        else bus.memory (b.toNat + k - bus.memoryBase.toNat) := by
  have hbase : bus.memoryBase.toNat ≤ a.toNat ∧ bus.memoryBase.toNat ≤ b.toNat :=
    ⟨ha.base_le, hb.base_le⟩
  have hia : (a - bus.memoryBase).toNat = a.toNat - bus.memoryBase.toNat :=
    BitVec.toNat_sub_of_le ha.base_le
  have hib : (b - bus.memoryBase).toNat = b.toNat - bus.memoryBase.toNat :=
    BitVec.toNat_sub_of_le hb.base_le
  -- a store to RAM moves neither RAM nor the windows
  have hb' : (bus.memcpyTo (a - bus.memoryBase) wa.width v).RamAccess b wb.width :=
    ⟨hb.not_htif, hb.not_mmio, hb.base_le, hb.lt_size⟩
  rw [storeData_ram dev ha, loadData_unsigned dev hb']
  refine fromBytes_congr fun k _ => ?_
  show (bus.memcpyTo (a - bus.memoryBase) wa.width v).memory ((b - bus.memoryBase).toNat + k) = _
  rw [memcpyTo_memory, hia, hib]
  have hindex : b.toNat - bus.memoryBase.toNat + k = b.toNat + k - bus.memoryBase.toNat := by omega
  by_cases hin : a.toNat ≤ b.toNat + k ∧ b.toNat + k < a.toNat + wa.width
  · have hoffset : b.toNat + k - bus.memoryBase.toNat - (a.toNat - bus.memoryBase.toNat) =
        b.toNat + k - a.toNat := by omega
    rw [if_pos hin, if_pos (by omega), hindex, hoffset]
  · rw [if_neg hin, if_neg (by omega), hindex]

/-- A word stored at an odd address, and the halfword that its last byte begins. -/
theorem load_after_store_odd :
    let bus := (State.holding 0x44332211).toBus
    (loadData herveStubs .lhu 0x80000004 (storeData herveStubs .sw 0x80000001 0xddccbbaa bus)).1 =
      0xdd := by
  intro bus
  have ha : bus.RamAccess 0x80000001 4 := ⟨by decide, by decide, by decide, by decide⟩
  have hb : bus.RamAccess 0x80000004 2 := ⟨by decide, by decide, by decide, by decide⟩
  exact (load_after_store herveStubs .sw .sh ha hb 0xddccbbaa).trans (by decide)

end Herve
