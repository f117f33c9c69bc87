import Herve.Iss.Init
import Herve.Run.Iteration

/-! Short programs in fresh RAM, run one instruction at a time. -/

namespace Herve
open RiscV

variable {δ : Type} (dev : Device δ)

/-- RAM is sixty-four bytes from address zero and starts with the program. -/
structure State.Holds (u : State δ) (insns : List Word) : Prop where
  halted : u.htifHalted = false
  memoryBase : u.memoryBase = 0
  memorySize : u.memorySize = 64
  memory : ∀ i < 64, u.memory i = (programBytes insns).getD i 0

namespace State.Holds
variable {u : State δ} {insns : List Word} {i : ℕ}

theorem fetch (h : u.Holds insns)
    (hi : i < insns.length) (h16 : i < 16) (hpc : u.pc = BitVec.ofNat 32 (4 * i)) :
    u.CanFetch ∧ u.fetchedInsn dev = insns[i] ∧ u.fetched dev = u.log (.host true (4 * i) 4) := by
  have haddr : (BitVec.ofNat 32 (4 * i)).toNat = 4 * i := by
    rw [BitVec.toNat_ofNat, Nat.mod_eq_of_lt (by omega)]
  have hvalid : u.validMemoryAccess u.pc 4 = true := by
    rw [Bus.validMemoryAccess_eq_true, h.memoryBase, h.memorySize, hpc]
    constructor <;> bv_omega
  have hhtif : isHtifAddress u.pc = false := by
    rw [← Bool.not_eq_true, isHtifAddress_iff, hpc]
    omega
  have hmmio : isMmioAddress u.pc = false := by
    rw [← Bool.not_eq_true, isMmioAddress_iff, hpc]
    omega
  have hread : u.readU32 dev u.pc = u.memcpyFrom true u.pc 4 := by
    rw [Bus.readU32, hhtif, hmmio, hvalid, h.memoryBase]
    exact congrArg (u.memcpyFrom true · 4) (BitVec.sub_zero u.pc)
  have hword : fromBytes 4 (fun k => u.memory (u.pc.toNat + k)) = insns[i] := by
    rw [← fromBytes_byteOf insns[i]]
    refine fromBytes_congr fun k hk => ?_
    rw [hpc, haddr, h.memory _ (by omega), programBytes_getD hi hk]
  refine ⟨⟨h.halted, hvalid⟩, ?_, ?_⟩
  · rw [State.fetchedInsn, hread]
    exact hword
  · have hlog : (u.memcpyFrom true u.pc 4).2 = u.toBus.log (.host true (4 * i) 4) := by
      rw [Bus.memcpyFrom, hpc, haddr]
    rw [State.fetched, hread, hlog]
    rfl

theorem step (h : u.Holds insns) (hi : i < insns.length) (h16 : i < 16)
    (hpc : u.pc = BitVec.ofNat 32 (4 * i)) (hc : ¬ IsCompressed insns[i]) (profiled : Bool) :
    iteration dev profiled u = stepBase dev insns[i] (u.log (.host true (4 * i) 4)) := by
  obtain ⟨hf, hinsn, hfetched⟩ := h.fetch dev hi h16 hpc
  rw [iteration_base dev profiled hf (by rw [hinsn]; exact hc), hinsn, hfetched]

theorem step_arm (h : u.Holds insns) (hi : i < insns.length) (h16 : i < 16)
    (hpc : u.pc = BitVec.ofNat 32 (4 * i)) (hc : ¬ IsCompressed insns[i])
    (hsys : opcode insns[i] ≠ 0x73#32) {a : Arm}
    (harm : (decodeInstruction insns[i] u.regs u.pc).2 = a) (ha : a ≠ .fail) (profiled : Bool) :
    ∃ p, iteration dev profiled u = (true, { u with
      toCore := (a.run dev (u.pc + 4) (u.log (.host true (4 * i) 4)).toCore).2
      profiler := p }.count insns[i]) := by
  obtain ⟨p, hexec⟩ := executeCore_arm dev insns[i] (u.log (.host true (4 * i) 4))
  have hdecode : (decodeInstruction insns[i] (u.log (.host true (4 * i) 4)).regs
      (u.log (.host true (4 * i) 4)).pc).2 = a := harm
  have hok : (a.run dev (u.pc + 4) (u.log (.host true (4 * i) 4)).toCore).1 = true := by
    cases a <;> first | exact absurd rfl ha | rfl
  refine ⟨p, ?_⟩
  rw [h.step dev hi h16 hpc hc profiled, stepBase, executeInstruction, if_neg hsys, hexec,
    hdecode]
  exact if_pos hok

end State.Holds
end Herve
