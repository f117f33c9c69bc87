import Herve.Iss.Init
import Herve.Run.Iteration

/-! Replacing the device. The emulator knows its device by the values it reads and the interrupt
masks it is passed; a device that answers as another one does may stand in its place in every
run, with nothing but the device itself to tell the states apart. -/

namespace Herve
open RiscV

variable {δ δ' : Type}

/-- From related states `dev'` answers every access as `dev` does, and the states stay related. -/
structure Device.Simulation (dev : Device δ) (dev' : Device δ') (D : δ → δ' → Prop) : Prop where
  read {d : δ} {d' : δ'} (addr : Word) : D d d' →
    (dev'.read d' addr).1 = (dev.read d addr).1 ∧
      (dev'.read d' addr).2.2 = (dev.read d addr).2.2 ∧
      D (dev.read d addr).2.1 (dev'.read d' addr).2.1
  write {d : δ} {d' : δ'} (addr value : Word) : D d d' →
    (dev'.write d' addr value).2 = (dev.write d addr value).2 ∧
      D (dev.write d addr value).1 (dev'.write d' addr value).1

/-- The same bus in front of a related device. -/
inductive Bus.InFront (D : δ → δ' → Prop) (b : Bus δ) : Bus δ' → Prop
  | mk {d' : δ'} : D b.device d' → InFront D b { b with device := d' }

inductive Core.InFront (D : δ → δ' → Prop) (c : Core δ) : Core δ' → Prop
  | mk {b' : Bus δ'} : c.toBus.InFront D b' →
      InFront D c { toBus := b', regs := c.regs, pc := c.pc }

inductive State.InFront (D : δ → δ' → Prop) (s : State δ) : State δ' → Prop
  | mk {c' : Core δ'} : s.toCore.InFront D c' → InFront D s { s with toCore := c' }

variable {D : δ → δ' → Prop} {dev : Device δ} {dev' : Device δ'}

/-! ## Accesses -/

namespace Bus.InFront
variable {b : Bus δ} {b' : Bus δ'}

theorem log (h : b.InFront D b') (e : Event) : (b.log e).InFront D (b'.log e) := by
  obtain ⟨hd⟩ := h
  exact .mk hd

theorem memoryBase (h : b.InFront D b') : b'.memoryBase = b.memoryBase := by
  cases h
  rfl

theorem htifHalted (h : b.InFront D b') : b'.htifHalted = b.htifHalted := by
  cases h
  rfl

theorem validMemoryAccess (h : b.InFront D b') (addr width : Word) :
    b'.validMemoryAccess addr width = b.validMemoryAccess addr width := by
  cases h
  rfl

theorem memcpyFrom (h : b.InFront D b') (guarded : Bool) (i : Word) (n : ℕ) :
    (b'.memcpyFrom guarded i n).1 = (b.memcpyFrom guarded i n).1 ∧
      (b.memcpyFrom guarded i n).2.InFront D (b'.memcpyFrom guarded i n).2 := by
  obtain ⟨hd⟩ := h
  exact ⟨rfl, .mk hd⟩

theorem memcpyTo (h : b.InFront D b') (i : Word) (n : ℕ) (v : Word) :
    (b.memcpyTo i n v).InFront D (b'.memcpyTo i n v) := by
  obtain ⟨hd⟩ := h
  exact .mk hd

theorem dpiMmioRead (hsim : dev.Simulation dev' D) (h : b.InFront D b') (addr : Word) :
    (b'.dpiMmioRead dev' addr).1 = (b.dpiMmioRead dev addr).1 ∧
      (b.dpiMmioRead dev addr).2.InFront D (b'.dpiMmioRead dev' addr).2 := by
  obtain @⟨d', hd⟩ := h
  obtain ⟨hvalue, hirq, hdevice⟩ := hsim.read addr hd
  unfold Bus.dpiMmioRead
  dsimp only
  rw [hvalue, hirq]
  exact ⟨rfl, .mk hdevice⟩

theorem dpiMmioWrite (hsim : dev.Simulation dev' D) (h : b.InFront D b') (addr value : Word) :
    (b.dpiMmioWrite dev addr value).InFront D (b'.dpiMmioWrite dev' addr value) := by
  obtain @⟨d', hd⟩ := h
  obtain ⟨hirq, hdevice⟩ := hsim.write addr value hd
  unfold Bus.dpiMmioWrite
  dsimp only
  rw [hirq]
  exact .mk hdevice

theorem htifProcessRequest (h : b.InFront D b') :
    b.htifProcessRequest.InFront D b'.htifProcessRequest := by
  obtain ⟨hd⟩ := h
  unfold Bus.htifProcessRequest
  dsimp only [Bus.memcpyFrom, Bus.log]
  split_ifs <;> exact .mk hd

theorem readU32 (hsim : dev.Simulation dev' D) (h : b.InFront D b') (addr : Word) :
    (b'.readU32 dev' addr).1 = (b.readU32 dev addr).1 ∧
      (b.readU32 dev addr).2.InFront D (b'.readU32 dev' addr).2 := by
  have hfromhost : b'.htifFromhostLo = b.htifFromhostLo ∧ b'.htifFromhostHi = b.htifFromhostHi := by
    cases h
    exact ⟨rfl, rfl⟩
  unfold Bus.readU32
  rw [h.validMemoryAccess, h.memoryBase, hfromhost.1, hfromhost.2]
  split_ifs
  · exact ⟨rfl, h⟩
  · exact ⟨rfl, h⟩
  · exact ⟨rfl, h⟩
  · exact h.dpiMmioRead hsim addr
  · exact ⟨rfl, h⟩
  · exact h.memcpyFrom _ _ _

theorem readU16 (hsim : dev.Simulation dev' D) (h : b.InFront D b') (addr : Word) :
    (b'.readU16 dev' addr).1 = (b.readU16 dev addr).1 ∧
      (b.readU16 dev addr).2.InFront D (b'.readU16 dev' addr).2 := by
  unfold Bus.readU16
  rw [h.validMemoryAccess, h.memoryBase]
  split_ifs
  · exact h.readU32 hsim addr
  · exact (h.dpiMmioRead hsim (addr &&& ~~~0x3#32)).imp_left (congrArg (· >>> _))
  · exact ⟨rfl, h⟩
  · exact h.memcpyFrom _ _ _

theorem readU8 (hsim : dev.Simulation dev' D) (h : b.InFront D b') (addr : Word) :
    (b'.readU8 dev' addr).1 = (b.readU8 dev addr).1 ∧
      (b.readU8 dev addr).2.InFront D (b'.readU8 dev' addr).2 := by
  unfold Bus.readU8
  rw [h.validMemoryAccess, h.memoryBase]
  split_ifs
  · exact h.readU32 hsim addr
  · exact (h.dpiMmioRead hsim (addr &&& ~~~0x3#32)).imp_left (congrArg (· >>> _))
  · exact ⟨rfl, h⟩
  · exact h.memcpyFrom _ _ _

theorem writeU32 (hsim : dev.Simulation dev' D) (h : b.InFront D b') (addr value : Word) :
    (b.writeU32 dev addr value).InFront D (b'.writeU32 dev' addr value) := by
  have hmmio := h.dpiMmioWrite hsim addr value
  have hmemory := h.memcpyTo (addr - b.memoryBase) 4 value
  have hvalid := h.validMemoryAccess addr 4
  obtain @⟨d', hd⟩ := h
  unfold Bus.writeU32
  rw [hvalid]
  split_ifs
  · exact htifProcessRequest (b := { b with htifTohostLo := value }) (.mk hd)
  · exact .mk hd
  · exact .mk hd
  · exact .mk hd
  · exact .mk hd
  · exact .mk hd
  · exact hmmio
  · exact .mk hd
  · exact hmemory

theorem mmioMerge (hsim : dev.Simulation dev' D) (h : b.InFront D b')
    (addr lane ones value : Word) :
    (b.mmioMerge dev addr lane ones value).InFront D (b'.mmioMerge dev' addr lane ones value) := by
  obtain ⟨hold, hread⟩ := h.dpiMmioRead hsim (addr &&& ~~~0x3#32)
  dsimp only [Bus.mmioMerge]
  rw [hold]
  exact hread.dpiMmioWrite hsim _ _

theorem writeU16 (hsim : dev.Simulation dev' D) (h : b.InFront D b') (addr : Word)
    (value : BitVec 16) :
    (b.writeU16 dev addr value).InFront D (b'.writeU16 dev' addr value) := by
  unfold Bus.writeU16
  rw [h.validMemoryAccess, h.memoryBase]
  split_ifs
  · exact h.mmioMerge hsim _ _ _ _
  · exact h
  · exact h.memcpyTo _ _ _

theorem writeU8 (hsim : dev.Simulation dev' D) (h : b.InFront D b') (addr : Word) (value : Byte) :
    (b.writeU8 dev addr value).InFront D (b'.writeU8 dev' addr value) := by
  unfold Bus.writeU8
  rw [h.validMemoryAccess, h.memoryBase]
  split_ifs
  · exact h.mmioMerge hsim _ _ _ _
  · exact h
  · exact h.memcpyTo _ _ _

theorem loadData (hsim : dev.Simulation dev' D) (h : b.InFront D b') (op : Load) (addr : Word) :
    (loadData dev' op addr b').1 = (loadData dev op addr b).1 ∧
      (loadData dev op addr b).2.InFront D (loadData dev' op addr b').2 := by
  obtain ⟨hbyte, hb⟩ := h.readU8 hsim addr
  obtain ⟨hhalf, hh⟩ := h.readU16 hsim addr
  unfold Herve.loadData
  cases op with
  | lb =>
    dsimp only
    rw [hbyte]
    exact ⟨rfl, hb⟩
  | lh =>
    dsimp only
    rw [hhalf]
    exact ⟨rfl, hh⟩
  | lw => exact h.readU32 hsim addr
  | lbu => exact ⟨hbyte, hb⟩
  | lhu => exact ⟨hhalf, hh⟩

theorem storeData (hsim : dev.Simulation dev' D) (h : b.InFront D b') (op : Store)
    (addr value : Word) :
    (storeData dev op addr value b).InFront D (storeData dev' op addr value b') := by
  cases op with
  | sb => exact h.writeU8 hsim addr _
  | sh => exact h.writeU16 hsim addr _
  | sw => exact h.writeU32 hsim addr value

end Bus.InFront

theorem Core.InFront.run (hsim : dev.Simulation dev' D) {c : Core δ} {c' : Core δ'}
    (h : c.InFront D c') (a : Arm) (nextPc : Word) :
    (a.run dev' nextPc c').1 = (a.run dev nextPc c).1 ∧
      (a.run dev nextPc c).2.InFront D (a.run dev' nextPc c').2 := by
  obtain ⟨hb⟩ := h
  cases a with
  | load op r addr =>
    obtain ⟨hdata, hload⟩ := hb.loadData hsim op addr
    dsimp only [Arm.run]
    rw [hdata]
    exact ⟨rfl, .mk hload⟩
  | store op r addr => exact ⟨rfl, .mk (hb.storeData hsim op addr _)⟩
  | _ => exact ⟨rfl, .mk hb⟩

theorem Core.InFront.stepPast {c : Core δ} {c' : Core δ'} (h : c.InFront D c') (pc : Word) :
    (stepPast pc c).InFront D (stepPast pc c') := by
  obtain ⟨hb⟩ := h
  unfold Herve.stepPast
  dsimp only
  split_ifs <;> exact .mk hb

/-! ## Instructions -/

namespace State.InFront
variable {s : State δ} {s' : State δ'}

theorem device (h : s.InFront D s') : D s.device s'.device := by
  obtain ⟨⟨⟨hd⟩⟩⟩ := h
  exact hd

theorem setDevice {D' : δ → δ' → Prop} (h : s.InFront D s') {d : δ} {d' : δ'} (hd : D' d d') :
    { s with device := d }.InFront D' { s' with device := d' } := by
  obtain ⟨⟨⟨-⟩⟩⟩ := h
  exact .mk (.mk (.mk hd))

theorem recordInsn (h : s.InFront D s') (type : InsnType) (pc insn : Word) :
    (s.recordInsn type pc insn).InFront D (s'.recordInsn type pc insn) := by
  obtain ⟨hc⟩ := h
  unfold State.recordInsn
  dsimp only
  split_ifs <;> exact .mk hc

theorem retire (h : s.InFront D s') (type : InsnType) (nextPc insn : Word) :
    (s'.retire type nextPc insn).1 = (s.retire type nextPc insn).1 ∧
      (s.retire type nextPc insn).2.InFront D (s'.retire type nextPc insn).2 := by
  obtain ⟨⟨hb⟩⟩ := h
  exact ⟨rfl, (InFront.mk (s := { s with pc := nextPc }) (.mk hb)).recordInsn type s.pc insn⟩

theorem count (h : s.InFront D s') (insn : Word) : (s.count insn).InFront D (s'.count insn) := by
  obtain ⟨⟨hb⟩⟩ := h
  exact .mk (.mk (hb.log _))

theorem executeCsr (h : s.InFront D s') (insn : Word) :
    (executeCsr insn s).InFront D (executeCsr insn s') := by
  obtain ⟨⟨⟨hd⟩⟩⟩ := h
  unfold Herve.executeCsr State.csrRead
  dsimp only
  generalize csrNewValue _ _ _ = v
  unfold State.csrWrite
  split <;> exact .mk (.mk (.mk hd))

theorem executeSystem (h : s.InFront D s') (insn : Word) :
    (executeSystem insn s').1 = (executeSystem insn s).1 ∧
      (executeSystem insn s).2.InFront D (executeSystem insn s').2 := by
  have hcsr := (h.executeCsr insn).retire .csr (s.pc + 4) insn
  have hretire := h.retire .sys (s.pc + 4) insn
  obtain ⟨⟨⟨hd⟩⟩⟩ := h
  unfold Herve.executeSystem
  dsimp only at hretire hcsr ⊢
  split_ifs
  · exact ⟨rfl, .mk (.mk (.mk hd))⟩
  · exact ⟨rfl, .mk (.mk (.mk hd))⟩
  · exact hretire
  · exact ⟨rfl, .mk (.mk (.mk hd))⟩
  · exact hcsr

theorem executeCore (hsim : dev.Simulation dev' D) (h : s.InFront D s') (insn : Word) :
    (executeCore dev' insn s').1 = (executeCore dev insn s).1 ∧
      (executeCore dev insn s).2.InFront D (executeCore dev' insn s').2 := by
  obtain ⟨⟨hb⟩⟩ := h
  obtain ⟨hok, hc⟩ := (Core.InFront.mk (c := s.toCore) hb).run hsim
    (decodeInstruction insn s.regs s.pc).2 (s.pc + 4)
  exact ⟨hok, (InFront.mk (s := { s with toCore := _ }) hc).recordInsn _ _ _⟩

theorem executeInstruction (hsim : dev.Simulation dev' D) (h : s.InFront D s') (insn : Word) :
    (executeInstruction dev' insn s').1 = (executeInstruction dev insn s).1 ∧
      (executeInstruction dev insn s).2.InFront D (executeInstruction dev' insn s').2 := by
  unfold Herve.executeInstruction
  split_ifs
  · exact h.executeSystem insn
  · exact h.executeCore hsim insn

/-! ## Calls -/

theorem stepBase (hsim : dev.Simulation dev' D) (h : s.InFront D s') (insn : Word) :
    (stepBase dev' insn s').1 = (stepBase dev insn s).1 ∧
      (stepBase dev insn s).2.InFront D (stepBase dev' insn s').2 := by
  obtain ⟨hok, hs⟩ := h.executeInstruction hsim insn
  unfold Herve.stepBase
  simp only [hok]
  split_ifs
  · exact ⟨rfl, hs.count insn⟩
  · exact ⟨rfl, hs⟩

theorem stepCompressed (hsim : dev.Simulation dev' D) (h : s.InFront D s') (profiled : Bool)
    (cInsn : BitVec 16) :
    (stepCompressed dev' profiled cInsn s').1 = (stepCompressed dev profiled cInsn s).1 ∧
      (stepCompressed dev profiled cInsn s).2.InFront D
        (stepCompressed dev' profiled cInsn s').2 := by
  obtain ⟨⟨hb⟩⟩ := h
  obtain ⟨hok, hc⟩ := (Core.InFront.mk (c := s.toCore) hb).run hsim
    (decodeCompressed cInsn s.regs s.pc) s.pc
  unfold Herve.stepCompressed executeCompressed
  simp only [hok]
  split_ifs
  · exact ⟨rfl, (InFront.mk (s := { s with toCore := _, profiler := _ })
      (hc.stepPast s.pc)).count _⟩
  · exact ⟨rfl, (InFront.mk (s := { s with toCore := _ }) (hc.stepPast s.pc)).count _⟩
  · exact ⟨rfl, .mk hc⟩

theorem iteration (hsim : dev.Simulation dev' D) (h : s.InFront D s') (profiled : Bool) :
    (iteration dev' profiled s').1 = (iteration dev profiled s).1 ∧
      (iteration dev profiled s).2.InFront D (iteration dev' profiled s').2 := by
  obtain ⟨⟨hb⟩⟩ := h
  obtain ⟨hinsn, hb'⟩ := hb.readU32 hsim s.pc
  have hs : (s.fetched dev).InFront D _ := .mk (.mk hb')
  have hhalted : _ = s.htifHalted := hb.htifHalted
  unfold Herve.iteration
  simp only [hhalted, hb.validMemoryAccess, hinsn]
  split_ifs
  · exact ⟨rfl, .mk (.mk hb)⟩
  · exact ⟨rfl, .mk (.mk hb)⟩
  · exact hs.stepCompressed hsim profiled _
  · exact hs.stepBase hsim _

theorem interrupted_iff (h : s.InFront D s') : s'.Interrupted ↔ s.Interrupted := by
  obtain ⟨⟨⟨hd⟩⟩⟩ := h
  rfl

theorem dispatches_iff (h : s.InFront D s') (n : ℤ) : s'.Dispatches n ↔ s.Dispatches n := by
  obtain ⟨⟨⟨hd⟩⟩⟩ := h
  rfl

theorem runs_iff (h : s.InFront D s') (n : ℤ) : s'.Runs n ↔ s.Runs n := by
  obtain ⟨⟨⟨hd⟩⟩⟩ := h
  rfl

theorem start {d : δ} {d' : δ'} (hd : D d d') : (State.start d).InFront D (State.start d') :=
  .mk (.mk (.mk hd))

theorem rvInit (h : s.InFront D s') (firmware : Option (List Byte)) (ramSize : ℕ)
    (block : Option (ℕ → Byte)) :
    (rvInit firmware ramSize block s).InFront D (rvInit firmware ramSize block s') := by
  obtain ⟨⟨⟨hd⟩⟩⟩ := h
  cases block with
  | none => exact .mk (.mk (.mk hd))
  | some block => cases firmware <;> exact .mk (.mk (.mk hd))

theorem rvReset (h : s.InFront D s') (startPc : Word) :
    (rvReset startPc s).InFront D (rvReset startPc s') := by
  obtain ⟨⟨⟨hd⟩⟩⟩ := h
  unfold Herve.rvReset
  dsimp only
  split_ifs <;> exact .mk (.mk (.mk hd))

theorem rvSetIrq (h : s.InFront D s') (mask : Word) :
    (rvSetIrq mask s).InFront D (rvSetIrq mask s') := by
  obtain ⟨⟨⟨hd⟩⟩⟩ := h
  exact .mk (.mk (.mk hd))

theorem rvStep (hsim : dev.Simulation dev' D) (h : s.InFront D s') (n : ℤ) :
    (rvStep dev' n s').1 = (rvStep dev n s).1 ∧
      (rvStep dev n s).2.InFront D (rvStep dev' n s').2 := by
  by_cases hd : s.Dispatches n
  · rw [rvStep_dispatch dev hd, rvStep_dispatch dev' ((h.dispatches_iff n).2 hd)]
    obtain ⟨⟨⟨hd⟩⟩⟩ := h
    exact ⟨rfl, .mk (.mk (.mk hd))⟩
  by_cases hr : s.Runs n
  · have hprofiled : s'.profiler = s.profiler := by
      cases h
      rfl
    rw [rvStep_run dev hr, rvStep_run dev' ((h.runs_iff n).2 hr), hprofiled]
    exact BreakLoop.loop_simulation (C := fun _ => True)
      (fun u v _ huv => huv.iteration hsim _) (fun _ _ => trivial) h
  · rw [rvStep_idle dev hd hr,
      rvStep_idle dev' (mt (h.dispatches_iff n).1 hd) (mt (h.runs_iff n).1 hr)]
    exact ⟨rfl, h⟩

end State.InFront
end Herve
