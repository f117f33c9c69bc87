import Herve.Iss.Step

/-! Relations between buses that the guest cannot see through. A relation the primitive
accesses respect is respected by every load, store and fetch, so by every arm. -/

namespace Herve
open RiscV

variable {δ : Type} {dev : Device δ}

/-- `R` relates buses with the same RAM, `fromhost` and halted flag, and every primitive
access keeps it. -/
structure Bus.Congruence (dev : Device δ) (R : Bus δ → Bus δ → Prop) : Prop where
  memory {b b' : Bus δ} : R b b' → b'.memory = b.memory
  memorySize {b b' : Bus δ} : R b b' → b'.memorySize = b.memorySize
  memoryBase {b b' : Bus δ} : R b b' → b'.memoryBase = b.memoryBase
  htifFromhostLo {b b' : Bus δ} : R b b' → b'.htifFromhostLo = b.htifFromhostLo
  htifFromhostHi {b b' : Bus δ} : R b b' → b'.htifFromhostHi = b.htifFromhostHi
  htifHalted {b b' : Bus δ} : R b b' → b'.htifHalted = b.htifHalted
  log {b b' : Bus δ} (e : Event) : R b b' → R (b.log e) (b'.log e)
  memcpyTo {b b' : Bus δ} (i : Word) (n : ℕ) (v : Word) : R b b' →
    R (b.memcpyTo i n v) (b'.memcpyTo i n v)
  dpiMmioRead {b b' : Bus δ} (addr : Word) : R b b' →
    (b'.dpiMmioRead dev addr).1 = (b.dpiMmioRead dev addr).1 ∧
      R (b.dpiMmioRead dev addr).2 (b'.dpiMmioRead dev addr).2
  dpiMmioWrite {b b' : Bus δ} (addr value : Word) : R b b' →
    R (b.dpiMmioWrite dev addr value) (b'.dpiMmioWrite dev addr value)
  setTohostLo {b b' : Bus δ} (v : Word) : R b b' →
    R { b with htifTohostLo := v } { b' with htifTohostLo := v }
  setTohostHi {b b' : Bus δ} (v : Word) : R b b' →
    R { b with htifTohostHi := v } { b' with htifTohostHi := v }
  setFromhostLo {b b' : Bus δ} (v : Word) : R b b' →
    R { b with htifFromhostLo := v } { b' with htifFromhostLo := v }
  setFromhostHi {b b' : Bus δ} (v : Word) : R b b' →
    R { b with htifFromhostHi := v } { b' with htifFromhostHi := v }
  exit {b b' : Bus δ} (code : Word) : R b b' →
    R { b with htifExitCode := code, htifExit := true, htifHalted := true }
      { b' with htifExitCode := code, htifExit := true, htifHalted := true }

namespace Bus.Congruence
variable {R : Bus δ → Bus δ → Prop} {b b' : Bus δ}

/-- Related buses are equal outside what the relation may hide. -/
theorem frame (hR : Congruence dev R) (h : R b b') :
    ∃ irqMask tohostLo tohostHi exit exitCode device trace, b' = { b with
      irqMask := irqMask, htifTohostLo := tohostLo, htifTohostHi := tohostHi, htifExit := exit
      htifExitCode := exitCode, device := device, trace := trace } := by
  refine ⟨b'.irqMask, b'.htifTohostLo, b'.htifTohostHi, b'.htifExit, b'.htifExitCode, b'.device,
    b'.trace, ?_⟩
  rw [← hR.memory h, ← hR.memorySize h, ← hR.memoryBase h, ← hR.htifFromhostLo h,
    ← hR.htifFromhostHi h, ← hR.htifHalted h]

theorem validMemoryAccess (hR : Congruence dev R) (h : R b b') (addr width : Word) :
    b'.validMemoryAccess addr width = b.validMemoryAccess addr width := by
  rw [Bus.validMemoryAccess, Bus.validMemoryAccess, hR.memoryBase h, hR.memorySize h]

theorem memcpyFrom (hR : Congruence dev R) (h : R b b') (guarded : Bool) (i : Word) (n : ℕ) :
    (b'.memcpyFrom guarded i n).1 = (b.memcpyFrom guarded i n).1 ∧
      R (b.memcpyFrom guarded i n).2 (b'.memcpyFrom guarded i n).2 := by
  refine ⟨?_, hR.log _ h⟩
  rw [Bus.memcpyFrom, Bus.memcpyFrom, hR.memory h]

/-- The request is read from RAM through a `tohost` both buses have just been given. -/
theorem htifProcessRequest (hR : Congruence dev R) (h : R b b')
    (hlo : b'.htifTohostLo = b.htifTohostLo) :
    R b.htifProcessRequest b'.htifProcessRequest := by
  have hdescriptor : ∀ i j k l : Word, R
      ((((b.memcpyFrom false i 4).2.memcpyFrom false j 4).2.memcpyFrom false k 4).2.memcpyFrom
        false l 4).2
      ((((b'.memcpyFrom false i 4).2.memcpyFrom false j 4).2.memcpyFrom false k 4).2.memcpyFrom
        false l 4).2 :=
    fun _ _ _ _ => hR.log _ (hR.log _ (hR.log _ (hR.log _ h)))
  have hack : ∀ c c' : Bus δ, R c c' →
      R { c with htifFromhostLo := 1, htifFromhostHi := 0 }
        { c' with htifFromhostLo := 1, htifFromhostHi := 0 } :=
    fun _ _ hc => hR.setFromhostHi 0 (hR.setFromhostLo 1 hc)
  obtain ⟨irqMask, tohostLo, tohostHi, exit, exitCode, device, trace, rfl⟩ := hR.frame h
  dsimp only at hlo
  subst hlo
  unfold Bus.htifProcessRequest
  dsimp only [Bus.memcpyFrom, Bus.log] at hdescriptor ⊢
  split_ifs
  · exact hR.exit _ h
  · exact h
  · exact hdescriptor _ _ _ _
  · exact hack _ _ (hR.log _ (hR.log _ (hdescriptor _ _ _ _)))
  · exact hack _ _ (hdescriptor _ _ _ _)
  · exact h

theorem readU32 (hR : Congruence dev R) (h : R b b') (addr : Word) :
    (b'.readU32 dev addr).1 = (b.readU32 dev addr).1 ∧
      R (b.readU32 dev addr).2 (b'.readU32 dev addr).2 := by
  unfold Bus.readU32
  rw [hR.validMemoryAccess h, hR.memoryBase h, hR.htifFromhostLo h, hR.htifFromhostHi h]
  split_ifs
  · exact ⟨rfl, h⟩
  · exact ⟨rfl, h⟩
  · exact ⟨rfl, h⟩
  · exact hR.dpiMmioRead addr h
  · exact ⟨rfl, h⟩
  · exact hR.memcpyFrom h _ _ _

theorem readU16 (hR : Congruence dev R) (h : R b b') (addr : Word) :
    (b'.readU16 dev addr).1 = (b.readU16 dev addr).1 ∧
      R (b.readU16 dev addr).2 (b'.readU16 dev addr).2 := by
  unfold Bus.readU16
  rw [hR.validMemoryAccess h, hR.memoryBase h]
  split_ifs
  · exact hR.readU32 h addr
  · exact (hR.dpiMmioRead (addr &&& ~~~0x3#32) h).imp_left (congrArg (· >>> _))
  · exact ⟨rfl, h⟩
  · exact hR.memcpyFrom h _ _ _

theorem readU8 (hR : Congruence dev R) (h : R b b') (addr : Word) :
    (b'.readU8 dev addr).1 = (b.readU8 dev addr).1 ∧
      R (b.readU8 dev addr).2 (b'.readU8 dev addr).2 := by
  unfold Bus.readU8
  rw [hR.validMemoryAccess h, hR.memoryBase h]
  split_ifs
  · exact hR.readU32 h addr
  · exact (hR.dpiMmioRead (addr &&& ~~~0x3#32) h).imp_left (congrArg (· >>> _))
  · exact ⟨rfl, h⟩
  · exact hR.memcpyFrom h _ _ _

theorem writeU32 (hR : Congruence dev R) (h : R b b') (addr value : Word) :
    R (b.writeU32 dev addr value) (b'.writeU32 dev addr value) := by
  have hvalid := hR.validMemoryAccess h addr 4
  unfold Bus.writeU32
  rw [hvalid]
  split_ifs
  · exact hR.htifProcessRequest (hR.setTohostLo value h) rfl
  · exact hR.setTohostLo value h
  · exact hR.setTohostHi value h
  · exact hR.setFromhostLo value h
  · exact hR.setFromhostHi value h
  · exact h
  · exact hR.dpiMmioWrite addr value h
  · exact h
  · rw [hR.memoryBase h]
    exact hR.memcpyTo _ _ _ h

theorem mmioMerge (hR : Congruence dev R) (h : R b b') (addr lane ones value : Word) :
    R (b.mmioMerge dev addr lane ones value) (b'.mmioMerge dev addr lane ones value) := by
  obtain ⟨hold, hc⟩ := hR.dpiMmioRead (addr &&& ~~~0x3#32) h
  dsimp only [Bus.mmioMerge]
  rw [hold]
  exact hR.dpiMmioWrite _ _ hc

theorem writeU16 (hR : Congruence dev R) (h : R b b') (addr : Word) (value : BitVec 16) :
    R (b.writeU16 dev addr value) (b'.writeU16 dev addr value) := by
  unfold Bus.writeU16
  rw [hR.validMemoryAccess h, hR.memoryBase h]
  split_ifs
  · exact hR.mmioMerge h _ _ _ _
  · exact h
  · exact hR.memcpyTo _ _ _ h

theorem writeU8 (hR : Congruence dev R) (h : R b b') (addr : Word) (value : Byte) :
    R (b.writeU8 dev addr value) (b'.writeU8 dev addr value) := by
  unfold Bus.writeU8
  rw [hR.validMemoryAccess h, hR.memoryBase h]
  split_ifs
  · exact hR.mmioMerge h _ _ _ _
  · exact h
  · exact hR.memcpyTo _ _ _ h

theorem loadData (hR : Congruence dev R) (h : R b b') (op : Load) (addr : Word) :
    (loadData dev op addr b').1 = (loadData dev op addr b).1 ∧
      R (loadData dev op addr b).2 (loadData dev op addr b').2 := by
  obtain ⟨hbyte, hb⟩ := hR.readU8 h addr
  obtain ⟨hhalf, hh⟩ := hR.readU16 h addr
  unfold Herve.loadData
  cases op with
  | lb =>
    dsimp only
    rw [hbyte]
    exact ⟨rfl, hb⟩
  | lh =>
    dsimp only
    rw [hhalf]
    exact ⟨rfl, hh⟩
  | lw => exact hR.readU32 h addr
  | lbu => exact ⟨hbyte, hb⟩
  | lhu => exact ⟨hhalf, hh⟩

theorem storeData (hR : Congruence dev R) (h : R b b') (op : Store) (addr value : Word) :
    R (storeData dev op addr value b) (storeData dev op addr value b') := by
  cases op with
  | sb => exact hR.writeU8 h addr _
  | sh => exact hR.writeU16 h addr _
  | sw => exact hR.writeU32 h addr value

theorem run (hR : Congruence dev R) {c : Core δ} (h : R c.toBus b) (a : Arm) (nextPc : Word) :
    (a.run dev nextPc { c with toBus := b }).1 = (a.run dev nextPc c).1 ∧
      ∃ b', R (a.run dev nextPc c).2.toBus b' ∧
        (a.run dev nextPc { c with toBus := b }).2 =
          { (a.run dev nextPc c).2 with toBus := b' } := by
  cases a with
  | load op r addr =>
    obtain ⟨hdata, hb⟩ := hR.loadData h op addr
    dsimp only [Arm.run]
    rw [hdata]
    exact ⟨rfl, _, hb, rfl⟩
  | store op r addr => exact ⟨rfl, _, hR.storeData h op addr _, rfl⟩
  | _ => exact ⟨rfl, _, h, rfl⟩

end Bus.Congruence
end Herve
