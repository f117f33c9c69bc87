import Herve.Lib.AppendLog
import Herve.Iss.Step

/-! What a memory access and an arm leave unchanged, and what they log: at most one checked
access to the host array, between entries that are neither that nor a step of the loop. -/

namespace Herve
open RiscV AppendLog

variable {δ : Type} (dev : Device δ)

def Event.IsBus : Event → Prop
  | .setIrq _ | .dispatch _ | .retire _ _ => False
  | _ => True

def Event.IsIteration : Event → Prop
  | .setIrq _ | .dispatch _ => False
  | _ => True

/-- Entries that use the host array, if at all, without `valid_memory_access`. -/
def Event.IsUnguarded : Event → Prop
  | .host true _ _ | .setIrq _ | .dispatch _ | .retire _ _ => False
  | _ => True

theorem Event.IsBus.isIteration {e : Event} (h : e.IsBus) : e.IsIteration := by
  cases e <;> trivial

theorem Event.IsUnguarded.isBus {e : Event} (h : e.IsUnguarded) : e.IsBus := by
  cases e <;> trivial

/-- RAM stays where it is, the interrupt mask moves only at the device's hand, and what is
logged satisfies `P`. -/
structure BusStep (P : Event → Prop) (b b' : Bus δ) : Prop where
  memorySize : b'.memorySize = b.memorySize
  memoryBase : b'.memoryBase = b.memoryBase
  irqMask : dev.Silent → b'.irqMask = b.irqMask
  trace : Extends P b.trace b'.trace

/-- What an access of `w` bytes at `addr` does to the log. -/
inductive Access (b b' : Bus δ) (addr : Word) (w : ℕ) : Prop
  | guarded (hvalid : b.validMemoryAccess addr (BitVec.ofNat 32 w) = true)
      (hstep : BusStep dev (· = .host true (addr - b.memoryBase).toNat w) b b')
      (hmem : .host true (addr - b.memoryBase).toNat w ∈ newEvents b b')
  | unguarded
      (haddr : isHtifAddress addr = true ∨ isMmioAddress addr = true ∨
        b.validMemoryAccess addr (BitVec.ofNat 32 w) = false)
      (hstep : BusStep dev Event.IsUnguarded b b')

namespace BusStep
variable {dev} {P Q : Event → Prop} {b b' b'' : Bus δ}

theorem refl (P : Event → Prop) (b : Bus δ) : BusStep dev P b b :=
  ⟨rfl, rfl, fun _ => rfl, .refl _ _⟩

theorem trans (h : BusStep dev P b b') (h' : BusStep dev P b' b'') : BusStep dev P b b'' where
  memorySize := h'.memorySize.trans h.memorySize
  memoryBase := h'.memoryBase.trans h.memoryBase
  irqMask hd := (h'.irqMask hd).trans (h.irqMask hd)
  trace := h.trace.trans h'.trace

theorem mono (h : BusStep dev P b b') (hPQ : ∀ e, P e → Q e) : BusStep dev Q b b' :=
  { h with trace := h.trace.mono hPQ }

theorem log (b : Bus δ) {e : Event} (he : P e) : BusStep dev P b (b.log e) :=
  ⟨rfl, rfl, fun _ => rfl, (Extends.refl _ _).append he⟩

theorem memcpyFrom (b : Bus δ) (guarded : Bool) (i : Word) (n : ℕ)
    (he : P (.host guarded i.toNat n)) : BusStep dev P b (b.memcpyFrom guarded i n).2 :=
  log b he

theorem memcpyTo (b : Bus δ) (i : Word) (n : ℕ) (v : Word) (he : P (.host true i.toNat n)) :
    BusStep dev P b (b.memcpyTo i n v) :=
  ⟨rfl, rfl, fun _ => rfl, (Extends.refl _ _).append he⟩

theorem dpiMmioRead (b : Bus δ) (addr : Word) :
    BusStep dev Event.IsUnguarded b (b.dpiMmioRead dev addr).2 where
  memorySize := rfl
  memoryBase := rfl
  irqMask hd := by
    show ((dev.read b.device addr).2.2).getD b.irqMask = b.irqMask
    rw [hd.1]
    rfl
  trace := (Extends.refl _ _).append trivial

theorem dpiMmioWrite (b : Bus δ) (addr value : Word) :
    BusStep dev Event.IsUnguarded b (b.dpiMmioWrite dev addr value) where
  memorySize := rfl
  memoryBase := rfl
  irqMask hd := by
    show ((dev.write b.device addr value).2).getD b.irqMask = b.irqMask
    rw [hd.2]
    rfl
  trace := (Extends.refl _ _).append trivial

theorem mmioMerge (b : Bus δ) (addr lane ones value : Word) :
    BusStep dev Event.IsUnguarded b (b.mmioMerge dev addr lane ones value) :=
  (dpiMmioRead b _).trans (dpiMmioWrite _ _ _)

theorem htifProcessRequest (b : Bus δ) :
    BusStep dev Event.IsUnguarded b b.htifProcessRequest := by
  have hread : ∀ (b : Bus δ) (i : Word) (n : ℕ),
      BusStep dev Event.IsUnguarded b (b.memcpyFrom false i n).2 :=
    fun b i n => memcpyFrom b false i n trivial
  have hdescriptor : ∀ i j k l : Word, BusStep dev Event.IsUnguarded b
      ((((b.memcpyFrom false i 4).2.memcpyFrom false j 4).2.memcpyFrom false k 4).2.memcpyFrom
        false l 4).2 :=
    fun i j k l => (((hread _ i 4).trans (hread _ j 4)).trans (hread _ k 4)).trans (hread _ l 4)
  have hfromhost : ∀ c : Bus δ,
      BusStep dev Event.IsUnguarded c { c with htifFromhostLo := 1, htifFromhostHi := 0 } :=
    fun c => ⟨rfl, rfl, fun _ => rfl, .refl _ _⟩
  unfold Bus.htifProcessRequest
  dsimp only
  split_ifs
  · exact ⟨rfl, rfl, fun _ => rfl, .refl _ _⟩
  · exact refl _ b
  · exact hdescriptor _ _ _ _
  · refine BusStep.trans ?_ (hfromhost _)
    exact ((hdescriptor _ _ _ _).trans (hread _ _ 1)).trans (log (e := .putchar _) _ trivial)
  · exact (hdescriptor _ _ _ _).trans (hfromhost _)
  · exact refl _ b

end BusStep

/-! ## The six access functions -/

namespace Access
variable {dev} {b b' : Bus δ} {addr : Word} {w : ℕ}

theorem isBus (h : Access dev b b' addr w) : BusStep dev Event.IsBus b b' := by
  cases h with
  | guarded _ hstep _ => exact hstep.mono fun e he => he ▸ trivial
  | unguarded _ hstep => exact hstep.mono fun _ => Event.IsUnguarded.isBus

theorem memcpyFrom (hv : ¬ (!b.validMemoryAccess addr (BitVec.ofNat 32 w)) = true) :
    Access dev b (b.memcpyFrom true (addr - b.memoryBase) w).2 addr w := by
  refine .guarded (by simpa using hv) (.memcpyFrom _ _ _ _ rfl) ?_
  rw [newEvents_of_append rfl]
  exact List.mem_singleton_self _

theorem memcpyTo (v : Word) (hv : ¬ (!b.validMemoryAccess addr (BitVec.ofNat 32 w)) = true) :
    Access dev b (b.memcpyTo (addr - b.memoryBase) w v) addr w := by
  refine .guarded (by simpa using hv) (.memcpyTo _ _ _ _ rfl) ?_
  rw [newEvents_of_append rfl]
  exact List.mem_singleton_self _

theorem invalid (hv : (!b.validMemoryAccess addr (BitVec.ofNat 32 w)) = true) :
    Access dev b b addr w :=
  .unguarded (.inr (.inr (by simpa using hv))) (.refl _ b)

theorem readU32 (b : Bus δ) (addr : Word) : Access dev b (b.readU32 dev addr).2 addr 4 := by
  unfold Bus.readU32
  by_cases hh : isHtifAddress addr = true
  · rw [if_pos hh]
    exact .unguarded (.inl hh) (.refl _ b)
  rw [if_neg hh]
  split_ifs with hm hv
  · exact .unguarded (.inr (.inl hm)) (.dpiMmioRead b addr)
  · exact invalid hv
  · exact memcpyFrom hv

theorem readU16 (b : Bus δ) (addr : Word) : Access dev b (b.readU16 dev addr).2 addr 2 := by
  unfold Bus.readU16
  split_ifs with hh hm hv
  · rw [Bus.readU32, if_pos hh]
    exact .unguarded (.inl hh) (.refl _ b)
  · exact .unguarded (.inr (.inl hm)) (.dpiMmioRead b _)
  · exact invalid hv
  · exact memcpyFrom hv

theorem readU8 (b : Bus δ) (addr : Word) : Access dev b (b.readU8 dev addr).2 addr 1 := by
  unfold Bus.readU8
  split_ifs with hh hm hv
  · rw [Bus.readU32, if_pos hh]
    exact .unguarded (.inl hh) (.refl _ b)
  · exact .unguarded (.inr (.inl hm)) (.dpiMmioRead b _)
  · exact invalid hv
  · exact memcpyFrom hv

/-- Only word stores reach the HTIF registers. -/
theorem writeU32 (b : Bus δ) (addr value : Word) :
    Access dev b (b.writeU32 dev addr value) addr 4 := by
  have hset : ∀ lo hi from_lo from_hi : Word, BusStep dev Event.IsUnguarded b
      { b with htifTohostLo := lo, htifTohostHi := hi, htifFromhostLo := from_lo
               htifFromhostHi := from_hi } :=
    fun _ _ _ _ => ⟨rfl, rfl, fun _ => rfl, .refl _ _⟩
  unfold Bus.writeU32
  dsimp only
  split_ifs with hh _ _ _ _ _ hm hv
  · exact .unguarded (.inl hh) ((hset _ _ _ _).trans (.htifProcessRequest _))
  · exact .unguarded (.inl hh) (hset _ _ _ _)
  · exact .unguarded (.inl hh) (hset _ _ _ _)
  · exact .unguarded (.inl hh) (hset _ _ _ _)
  · exact .unguarded (.inl hh) (hset _ _ _ _)
  · exact .unguarded (.inl hh) (.refl _ b)
  · exact .unguarded (.inr (.inl hm)) (.dpiMmioWrite b addr value)
  · exact invalid hv
  · exact memcpyTo _ hv

theorem writeU16 (b : Bus δ) (addr : Word) (value : BitVec 16) :
    Access dev b (b.writeU16 dev addr value) addr 2 := by
  unfold Bus.writeU16
  split_ifs with hm hv
  · exact .unguarded (.inr (.inl hm)) (.mmioMerge b _ _ _ _)
  · exact invalid hv
  · exact memcpyTo _ hv

theorem writeU8 (b : Bus δ) (addr : Word) (value : Byte) :
    Access dev b (b.writeU8 dev addr value) addr 1 := by
  unfold Bus.writeU8
  split_ifs with hm hv
  · exact .unguarded (.inr (.inl hm)) (.mmioMerge b _ _ _ _)
  · exact invalid hv
  · exact memcpyTo _ hv

theorem loadData (op : Load) (addr : Word) (b : Bus δ) :
    Access dev b (loadData dev op addr b).2 addr op.width := by
  cases op <;> unfold Herve.loadData Load.width
  · exact readU8 b addr
  · exact readU16 b addr
  · exact readU32 b addr
  · exact readU8 b addr
  · exact readU16 b addr

theorem storeData (op : Store) (addr value : Word) (b : Bus δ) :
    Access dev b (storeData dev op addr value b) addr op.width := by
  cases op <;> unfold Herve.storeData Store.width
  · exact writeU8 b addr _
  · exact writeU16 b addr _
  · exact writeU32 b addr value

end Access

def Touches (access : Option (Word × ℕ)) (b b' : Bus δ) : Prop :=
  match access with
  | none => b' = b
  | some (addr, w) => Access dev b b' addr w

theorem Touches.isBus {access : Option (Word × ℕ)} {b b' : Bus δ}
    (h : Touches dev access b b') : BusStep dev Event.IsBus b b' := by
  cases access with
  | none => exact h ▸ .refl _ _
  | some aw => exact Access.isBus h

theorem Arm.run_touches (a : Arm) (nextPc : Word) (c : Core δ) :
    Touches dev a.access c.toBus (a.run dev nextPc c).2.toBus := by
  cases a with
  | load op rd addr => exact Access.loadData op addr c.toBus
  | store op rs2 addr => exact Access.storeData op addr (c.regs rs2) c.toBus
  | _ => rfl

end Herve
