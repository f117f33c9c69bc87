import Herve.Decode.Fields
import Herve.Mem.Routing

/-! Bytes and halfwords of a device that knows words only. A store merges its lane into the word
that it reads; a load shifts the word down and leaves what stands above the lane. -/

namespace Herve
open RiscV

variable {δ : Type} (dev : Device δ)

def IsMmioWord (addr : Word) : Prop := isMmioAddress addr = true ∧ addr &&& 0x3#32 = 0
  deriving Decidable

/-- The device is a file of words: it reads what was last written, and a read changes nothing.
`word d` is what it holds in state `d`. -/
structure Device.IsWordFile (word : δ → Word → Word) : Prop where
  read (d : δ) (addr : Word) : IsMmioWord addr → (dev.read d addr).1 = word d addr ∧
    ∀ other, IsMmioWord other → word (dev.read d addr).2.1 other = word d other
  write (d : δ) (addr value other : Word) : IsMmioWord addr → IsMmioWord other →
    word (dev.write d addr value).1 other = if other = addr then value else word d other

def wordAddress (addr : Word) : Word := addr &&& ~~~0x3#32

/-- Where in its word an access begins. -/
def lane (addr : Word) : ℕ := (addr &&& 0x3#32).toNat

def signedLoad : Store → Load
  | .sb => .lb
  | .sh => .lh
  | .sw => .lw

/-- A store and the loads of its width after it, and the bytes of the word beside it. -/
structure LaneFaithful (word : δ → Word → Word) (op : Store) (addr value : Word) (b : Bus δ) :
    Prop where
  unsigned : (loadData dev (unsignedLoad op) addr (storeData dev op addr value b)).1.toNat =
    value.toNat % 2 ^ (8 * op.width)
  signed : (loadData dev (signedLoad op) addr (storeData dev op addr value b)).1 =
    (value.setWidth (8 * op.width)).signExtend 32
  rest : ∀ k < 4, ¬ (lane addr ≤ k ∧ k < lane addr + op.width) →
    byteOf (word (storeData dev op addr value b).device (wordAddress addr)) k =
      byteOf (word b.device (wordAddress addr)) k

/-! ## Lanes -/

/-- The word that a sub-word store writes back. -/
def mergeLane (old value : Word) (shift width : ℕ) : Word :=
  old &&& ~~~((BitVec.allOnes width).setWidth 32 <<< shift) |||
    (value.setWidth width).setWidth 32 <<< shift

theorem getLsbD_mergeLane (old value : Word) {shift width i : ℕ} (hi : i < 32) :
    (mergeLane old value shift width).getLsbD i =
      if shift ≤ i ∧ i < shift + width then value.getLsbD (i - shift) else old.getLsbD i := by
  unfold mergeLane
  rw [BitVec.getLsbD_or, BitVec.getLsbD_and, BitVec.getLsbD_not, BitVec.getLsbD_shiftLeft,
    BitVec.getLsbD_shiftLeft, BitVec.getLsbD_setWidth, BitVec.getLsbD_setWidth,
    BitVec.getLsbD_setWidth, BitVec.getLsbD_allOnes]
  have hsub : i - shift < 32 := by omega
  by_cases hlow : i < shift
  · rw [if_neg fun h => absurd h.1 (not_le.2 hlow)]
    simp [hi, hlow]
  · by_cases hhigh : i - shift < width
    · rw [if_pos ⟨not_lt.1 hlow, by omega⟩]
      simp [hi, hlow, hhigh, hsub]
    · rw [if_neg fun h => hhigh (by omega)]
      simp [hi, hlow, hhigh]

/-- Above the lane the load sees what the word holds there. -/
theorem mergeLane_down_iff (old value : Word) {shift width : ℕ} (h : shift + width ≤ 32) :
    mergeLane old value shift width >>> shift = (value.setWidth width).setWidth 32 ↔
      old >>> (shift + width) = 0#32 := by
  have hbit : ∀ i, shift + i < 32 → (mergeLane old value shift width >>> shift).getLsbD i =
      if i < width then value.getLsbD i else old.getLsbD (shift + i) := by
    intro i hi
    rw [BitVec.getLsbD_ushiftRight, getLsbD_mergeLane _ _ hi]
    simp only [Nat.le_add_right, true_and, Nat.add_lt_add_iff_left, Nat.add_sub_cancel_left]
  constructor
  · intro heq
    apply BitVec.eq_of_getLsbD_eq
    intro i hi
    rw [BitVec.getLsbD_ushiftRight, BitVec.getLsbD_zero]
    rcases Nat.lt_or_ge (shift + width + i) 32 with hlt | hge
    · have hi' := hbit (width + i) (by omega)
      rw [heq, if_neg (by omega), ← Nat.add_assoc] at hi'
      rw [← hi', BitVec.getLsbD_setWidth, BitVec.getLsbD_setWidth]
      simp
    · exact BitVec.getLsbD_of_ge _ _ hge
  · intro hzero
    apply BitVec.eq_of_getLsbD_eq
    intro i hi
    rw [BitVec.getLsbD_setWidth, BitVec.getLsbD_setWidth]
    rcases Nat.lt_or_ge (shift + i) 32 with hlt | hge
    · rw [hbit i hlt]
      split_ifs with hwidth
      · simp [hi, hwidth]
      · have hbit' : old.getLsbD (shift + width + (i - width)) = false := by
          rw [← BitVec.getLsbD_ushiftRight, hzero, BitVec.getLsbD_zero]
        have hindex : shift + width + (i - width) = shift + i := by omega
        rw [← hindex, hbit']
        simp [hwidth]
    · have hwidth : ¬ i < width := by omega
      rw [BitVec.getLsbD_ushiftRight, BitVec.getLsbD_of_ge _ _ hge]
      simp [hwidth]

theorem setWidth_mergeLane_down (old value : Word) {shift width : ℕ} (h : shift + width ≤ 32) :
    (mergeLane old value shift width >>> shift).setWidth width = value.setWidth width := by
  apply BitVec.eq_of_getLsbD_eq
  intro i hi
  rw [BitVec.getLsbD_setWidth, BitVec.getLsbD_setWidth, BitVec.getLsbD_ushiftRight,
    getLsbD_mergeLane _ _ (by omega), if_pos ⟨Nat.le_add_right _ _, by omega⟩,
    Nat.add_sub_cancel_left]

theorem byteOf_mergeLane (old value : Word) {l w k : ℕ} (hk : k < 4)
    (houtside : ¬ (l ≤ k ∧ k < l + w)) :
    byteOf (mergeLane old value (8 * l) (8 * w)) k = byteOf old k := by
  apply BitVec.eq_of_getLsbD_eq
  intro i hi
  rw [getLsbD_byteOf, getLsbD_byteOf, getLsbD_mergeLane _ _ (by omega), if_neg (by omega)]

/-! ## Addresses -/

theorem lane_eq (addr : Word) : lane addr = addr.toNat % 4 :=
  Nat.and_two_pow_sub_one_eq_mod addr.toNat 2

theorem wordAddress_toNat (addr : Word) : (wordAddress addr).toNat = addr.toNat / 4 * 4 := by
  have hshift : wordAddress addr = addr >>> 2 <<< 2 := by
    apply BitVec.eq_of_getLsbD_eq
    intro i hi
    rw [wordAddress, BitVec.getLsbD_and, BitVec.getLsbD_shiftLeft, BitVec.getLsbD_ushiftRight]
    interval_cases i <;> simp
  have hlt := addr.isLt
  rw [hshift, BitVec.toNat_shiftLeft, BitVec.toNat_ushiftRight, Nat.shiftRight_eq_div_pow,
    Nat.shiftLeft_eq]
  omega

theorem isMmioWord_wordAddress {addr : Word} (h : isMmioAddress addr = true) :
    IsMmioWord (wordAddress addr) := by
  have hword := wordAddress_toNat addr
  rw [isMmioAddress_iff] at h
  refine ⟨?_, ?_⟩
  · rw [isMmioAddress_iff]
    omega
  · apply BitVec.eq_of_toNat_eq
    show lane (wordAddress addr) = 0
    rw [lane_eq, hword]
    omega

theorem byteShift_toNat (addr : Word) : ((addr &&& 0x3#32) * 8).toNat = 8 * lane addr := by
  have hlane := lane_eq addr
  rw [BitVec.toNat_mul]
  show lane addr * 8 % 2 ^ 32 = _
  omega

/-- The source masks with 2 here; an even address has nothing else in its low two bits. -/
theorem halfShift_toNat {addr : Word} (heven : 2 ∣ addr.toNat) :
    ((addr &&& 0x2#32) * 8).toNat = 8 * lane addr := by
  have hbit : addr[0] = false := by
    rw [← BitVec.getLsbD_eq_getElem, BitVec.getLsbD, Nat.testBit_zero, decide_eq_false_iff_not]
    omega
  have hmask : addr &&& 0x2#32 = addr &&& 0x3#32 := by
    apply BitVec.eq_of_getLsbD_eq
    intro i hi
    rw [BitVec.getLsbD_and, BitVec.getLsbD_and]
    interval_cases i <;> simp [hbit]
  rw [hmask, byteShift_toNat]

/-! ## The accesses -/

section
variable {op : Store} {addr : Word}

theorem storeData_mmio (hmmio : isMmioAddress addr = true) (hop : op ≠ .sw)
    (halign : op.width ∣ addr.toNat) (value : Word) (b : Bus δ) :
    storeData dev op addr value b =
      (b.dpiMmioRead dev (wordAddress addr)).2.dpiMmioWrite dev (wordAddress addr)
        (mergeLane (b.dpiMmioRead dev (wordAddress addr)).1 value (8 * lane addr)
          (8 * op.width)) := by
  cases op with
  | sb =>
    rw [storeData, Bus.writeU8, if_pos hmmio, mergeLane, ← byteShift_toNat addr]
    rfl
  | sh =>
    rw [storeData, Bus.writeU16, if_pos hmmio, mergeLane, ← halfShift_toNat halign]
    rfl
  | sw => exact absurd rfl hop

theorem loadData_mmio (hmmio : isMmioAddress addr = true) (hop : op ≠ .sw)
    (halign : op.width ∣ addr.toNat) (b : Bus δ) :
    (loadData dev (unsignedLoad op) addr b).1 =
        (b.dpiMmioRead dev (wordAddress addr)).1 >>> (8 * lane addr) ∧
      (loadData dev (signedLoad op) addr b).1 =
        signExtend ((b.dpiMmioRead dev (wordAddress addr)).1 >>> (8 * lane addr))
          (8 * op.width) := by
  have hhtif : ¬ isHtifAddress addr = true := by
    rw [isHtifAddress_of_mmio hmmio]
    exact Bool.false_ne_true
  cases op with
  | sb =>
    have hread : (b.readU8 dev addr).1 =
        (b.dpiMmioRead dev (wordAddress addr)).1 >>> (8 * lane addr) := by
      rw [Bus.readU8, if_neg hhtif, if_pos hmmio, ← byteShift_toNat addr]
      rfl
    exact ⟨hread, congrArg (signExtend · 8) hread⟩
  | sh =>
    have hread : (b.readU16 dev addr).1 =
        (b.dpiMmioRead dev (wordAddress addr)).1 >>> (8 * lane addr) := by
      rw [Bus.readU16, if_neg hhtif, if_pos hmmio, ← halfShift_toNat halign]
      rfl
    exact ⟨hread, congrArg (signExtend · 16) hread⟩
  | sw => exact absurd rfl hop

/-- On a file of words the store changes its lane and the loads return it, exactly when nothing
stands above the lane in the word. -/
theorem laneFaithful_iff {word : δ → Word → Word} (hdev : dev.IsWordFile word)
    (hmmio : isMmioAddress addr = true) (hop : op ≠ .sw) (halign : op.width ∣ addr.toNat)
    (value : Word) (b : Bus δ) :
    LaneFaithful dev word op addr value b ↔
      word b.device (wordAddress addr) >>> (8 * (lane addr + op.width)) = 0#32 := by
  have hword := isMmioWord_wordAddress hmmio
  obtain ⟨hold, hkept⟩ := hdev.read b.device (wordAddress addr) hword
  have hstored : word (storeData dev op addr value b).device (wordAddress addr) =
      mergeLane (word b.device (wordAddress addr)) value (8 * lane addr) (8 * op.width) := by
    rw [storeData_mmio dev hmmio hop halign, ← hold]
    exact (hdev.write _ _ _ _ hword hword).trans (if_pos rfl)
  have hfits : 8 * lane addr + 8 * op.width ≤ 32 := by
    have hlane := lane_eq addr
    cases op with
    | sb => dsimp only [Store.width]; omega
    | sh => dsimp only [Store.width] at halign ⊢; omega
    | sw => exact absurd rfl hop
  obtain ⟨hunsigned, hsigned⟩ :=
    loadData_mmio dev hmmio hop halign (storeData dev op addr value b)
  have hread : ((storeData dev op addr value b).dpiMmioRead dev (wordAddress addr)).1 =
      mergeLane (word b.device (wordAddress addr)) value (8 * lane addr) (8 * op.width) :=
    ((hdev.read _ _ hword).1).trans hstored
  rw [hread] at hunsigned hsigned
  have hvalue : ((value.setWidth (8 * op.width)).setWidth 32).toNat =
      value.toNat % 2 ^ (8 * op.width) := by
    rw [BitVec.toNat_setWidth, BitVec.toNat_setWidth]
    exact Nat.mod_eq_of_lt ((Nat.mod_le _ _).trans_lt value.isLt)
  have hiff := mergeLane_down_iff (word b.device (wordAddress addr)) value hfits
  rw [← Nat.mul_add] at hiff
  rw [← hiff, ← hunsigned]
  constructor
  · intro h
    exact BitVec.eq_of_toNat_eq (h.unsigned.trans hvalue.symm)
  · intro h
    refine ⟨by rw [h, hvalue], ?_, fun k hk houtside => ?_⟩
    · rw [hsigned, signExtend_eq (by omega) (setWidth_mergeLane_down _ value hfits)]
    · rw [hstored]
      exact byteOf_mergeLane _ value hk houtside

end

/-! ## A device -/

def wordDevice : Device (Word → Word) where
  read d addr := (d addr, d, none)
  write d addr value := (Function.update d addr value, none)

theorem wordDevice_isWordFile : wordDevice.IsWordFile id where
  read _ _ _ := ⟨rfl, fun _ _ => rfl⟩
  write d addr value other _ _ := Function.update_apply d addr value other

theorem laneFaithful_top : LaneFaithful wordDevice id .sb 0x10000003 0x80
    (State.start fun _ => 0x11223344).toBus :=
  (laneFaithful_iff wordDevice wordDevice_isWordFile (by decide) (by decide) (by decide) 0x80
    _).2 (by decide)

/-- The bottom byte: LBU loads the three above it too. -/
theorem not_laneFaithful_bottom : wordDevice.IsWordFile id ∧ isMmioAddress 0x10000000 = true ∧
    ¬ LaneFaithful wordDevice id .sb 0x10000000 0x80
      (State.start fun _ => 0x11223344).toBus := by
  refine ⟨wordDevice_isWordFile, by decide, fun h => ?_⟩
  exact absurd h.unsigned (by decide)

end Herve
