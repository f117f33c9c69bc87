import Herve.Iss.Init
import Herve.Run.Trace

/-! One HTIF request: what a store to `tohost` reads from RAM and prints. The source tests only the
start of the request, so that one at the very end of RAM is read past it. -/

namespace Herve
open RiscV

variable {δ : Type} (dev : Device δ)

/-- Every byte that the entry uses of the host array is RAM. -/
def Event.Inside (size : ℕ) : Event → Prop
  | .host _ index width => index + width ≤ size
  | _ => True

/-- Where the four words lie that are copied out of a request. -/
def requestFields : List Word := [0, 8, 16, 24]

namespace Bus

/-- The source's test of a pointer, with a sum of 32 bits. -/
def InRange (b : Bus δ) (ptr : Word) : Prop :=
  b.memoryBase ≤ ptr ∧ ptr < b.memoryBase + b.memorySize
  deriving Decidable

/-- `tohost` is taken as the pointer of a request. -/
def Requests (b : Bus δ) (value : Word) : Prop :=
  value &&& 1 = 0 ∧ value ≠ 0 ∧ b.InRange value
  deriving Decidable

def requestWord (b : Bus δ) (ptr field : Word) : Word :=
  fromBytes 4 fun k => b.memory ((ptr - b.memoryBase + field).toNat + k)

def Acknowledges (b : Bus δ) (value : Word) : Prop :=
  b.Requests value ∧ b.requestWord value 0 = 64
  deriving Decidable

def fromhost (b : Bus δ) : BitVec 64 := b.htifFromhostHi ++ b.htifFromhostLo

def requestChar (b : Bus δ) (ptr : Word) : ℕ := (b.requestWord ptr 16 - b.memoryBase).toNat

/-- The four words of the request, if there is one, lie in RAM. -/
def RequestFits (b : Bus δ) (value : Word) : Prop :=
  b.Requests value →
    ∀ o ∈ requestFields, (value - b.memoryBase + o).toNat + 4 ≤ b.memorySize.toNat

/-! ## What a request does -/

def fieldEvents (b : Bus δ) (ptr : Word) : List Event :=
  requestFields.map fun o => .host false (ptr - b.memoryBase + o).toNat 4

def consoleEvents (b : Bus δ) (ptr : Word) : List Event :=
  if b.requestWord ptr 8 = 1 ∧ b.InRange (b.requestWord ptr 16) then
    [.host false (b.requestChar ptr) 1, .putchar (b.memory (b.requestChar ptr))]
  else []

def requestEvents (b : Bus δ) (value : Word) : List Event :=
  if b.Requests value then
    b.fieldEvents value ++ if b.requestWord value 0 = 64 then b.consoleEvents value else []
  else []

def logAll (b : Bus δ) (es : List Event) : Bus δ := { b with trace := b.trace ++ es }

theorem log_eq_logAll (b : Bus δ) (e : Event) : b.log e = b.logAll [e] := rfl

theorem logAll_logAll (b : Bus δ) (es fs : List Event) :
    (b.logAll es).logAll fs = b.logAll (es ++ fs) := by
  rw [logAll, logAll, logAll, List.append_assoc]

theorem logAll_nil (b : Bus δ) : b.logAll [] = b := by
  rw [logAll, List.append_nil]

theorem requestWord_zero (b : Bus δ) (ptr : Word) :
    b.requestWord ptr 0 = fromBytes 4 fun k => b.memory ((ptr - b.memoryBase).toNat + k) := by
  rw [requestWord, add_zero]

theorem memcpyFrom_start (b : Bus δ) (ptr : Word) :
    b.memcpyFrom false (ptr - b.memoryBase) 4 =
      (b.requestWord ptr 0, b.logAll [.host false (ptr - b.memoryBase + 0).toNat 4]) := by
  rw [requestWord_zero, add_zero]
  rfl

theorem memcpyFrom_field (b : Bus δ) (es : List Event) (ptr o : Word) :
    (b.logAll es).memcpyFrom false (ptr - (b.logAll es).memoryBase + o) 4 =
      (b.requestWord ptr o, b.logAll (es ++ [.host false (ptr - b.memoryBase + o).toNat 4])) := by
  rw [← logAll_logAll]
  rfl

theorem copyChar (b : Bus δ) (argPtr : Word) :
    (b.memcpyFrom false (argPtr - b.memoryBase) 1).2.log
        (.putchar ((b.memcpyFrom false (argPtr - b.memoryBase) 1).1.setWidth 8)) =
      b.logAll [.host false (argPtr - b.memoryBase).toNat 1,
        .putchar (b.memory (argPtr - b.memoryBase).toNat)] := by
  have hchar : (b.memcpyFrom false (argPtr - b.memoryBase) 1).1.setWidth 8 =
      b.memory (argPtr - b.memoryBase).toNat := setWidth_fromBytes_one _
  rw [hchar, memcpyFrom, log_eq_logAll, log_eq_logAll, logAll_logAll]
  rfl

theorem consoleEvents_eq (b : Bus δ) (es : List Event) (ptr : Word) :
    (if b.requestWord ptr 8 = 1 ∧ (b.logAll es).memoryBase ≤ b.requestWord ptr 16 ∧
        b.requestWord ptr 16 < (b.logAll es).memoryBase + (b.logAll es).memorySize then
      ((b.logAll es).memcpyFrom false (b.requestWord ptr 16 - (b.logAll es).memoryBase) 1).2.log
        (.putchar (((b.logAll es).memcpyFrom false
          (b.requestWord ptr 16 - (b.logAll es).memoryBase) 1).1.setWidth 8))
    else b.logAll es) = (b.logAll es).logAll (b.consoleEvents ptr) := by
  by_cases hprint : b.requestWord ptr 8 = 1 ∧ b.InRange (b.requestWord ptr 16)
  · rw [consoleEvents, if_pos hprint]
    exact (if_pos hprint).trans (copyChar (b.logAll es) _)
  · rw [consoleEvents, if_neg hprint]
    exact (if_neg hprint).trans (logAll_nil _).symm

/-- Past the test of its start, a request is read, and acknowledged if it is a system call. -/
theorem htifProcessRequest_request (b : Bus δ) (h : b.Requests b.htifTohostLo) :
    b.htifProcessRequest =
      if b.requestWord b.htifTohostLo 0 = 64 then
        { (b.logAll (b.fieldEvents b.htifTohostLo)).logAll (b.consoleEvents b.htifTohostLo) with
          htifFromhostLo := 1, htifFromhostHi := 0 }
      else b.logAll (b.fieldEvents b.htifTohostLo) := by
  have hrange : b.memoryBase ≤ b.htifTohostLo ∧ b.htifTohostLo < b.memoryBase + b.memorySize :=
    h.2.2
  unfold htifProcessRequest
  rw [if_neg (not_not_intro h.1), if_neg h.2.1, if_pos hrange]
  dsimp only
  rw [memcpyFrom_start]
  dsimp only
  rw [memcpyFrom_field]
  dsimp only
  rw [memcpyFrom_field]
  dsimp only
  rw [memcpyFrom_field]
  dsimp only
  -- both branches of the console end in the acknowledgement
  rw [ite_not, consoleEvents_eq]
  rfl

/-- Anything else is an exit or is dropped. -/
theorem htifProcessRequest_other (b : Bus δ) (h : ¬ b.Requests b.htifTohostLo) :
    b.htifProcessRequest.trace = b.trace ∧ b.htifProcessRequest.fromhost = b.fromhost := by
  unfold htifProcessRequest
  by_cases hexit : b.htifTohostLo &&& 1 ≠ 0
  · rw [if_pos hexit]
    exact ⟨rfl, rfl⟩
  by_cases hnull : b.htifTohostLo = 0
  · rw [if_neg hexit, if_pos hnull]
    exact ⟨rfl, rfl⟩
  · have hrange : ¬ (b.memoryBase ≤ b.htifTohostLo ∧
        b.htifTohostLo < b.memoryBase + b.memorySize) :=
      fun hrange => h ⟨not_not.1 hexit, hnull, hrange⟩
    rw [if_neg hexit, if_neg hnull, if_neg hrange]
    exact ⟨rfl, rfl⟩

theorem htifProcessRequest_trace (b : Bus δ) :
    b.htifProcessRequest.trace = b.trace ++ b.requestEvents b.htifTohostLo := by
  by_cases h : b.Requests b.htifTohostLo
  · rw [htifProcessRequest_request b h, requestEvents, if_pos h]
    split_ifs
    · exact List.append_assoc _ _ _
    · rw [List.append_nil, logAll]
  · rw [(htifProcessRequest_other b h).1, requestEvents, if_neg h, List.append_nil]

theorem htifProcessRequest_fromhost (b : Bus δ) :
    b.htifProcessRequest.fromhost =
      if b.Acknowledges b.htifTohostLo then 1 else b.fromhost := by
  by_cases h : b.Requests b.htifTohostLo
  · rw [htifProcessRequest_request b h]
    by_cases hmagic : b.requestWord b.htifTohostLo 0 = 64
    · have hone : (0#32 ++ 1#32 : BitVec 64) = 1 := by decide
      rw [if_pos hmagic, if_pos ⟨h, hmagic⟩]
      exact hone
    · rw [if_neg hmagic, if_neg fun hack => hmagic hack.2]
      rfl
  · rw [(htifProcessRequest_other b h).2, if_neg fun hack => h hack.1]

/-! ## A store to `tohost` -/

theorem writeU32_tohost (b : Bus δ) (value : Word) :
    b.writeU32 dev 0x80001000 value =
      if value ≠ 0 then { b with htifTohostLo := value }.htifProcessRequest
      else { b with htifTohostLo := value } := rfl

theorem writeU32_tohost_trace (b : Bus δ) (value : Word) :
    (b.writeU32 dev 0x80001000 value).trace = b.trace ++ b.requestEvents value := by
  rw [writeU32_tohost]
  by_cases hvalue : value = 0
  · rw [if_neg (not_not_intro hvalue), requestEvents, if_neg fun h => h.2.1 hvalue,
      List.append_nil]
  · rw [if_pos hvalue]
    exact htifProcessRequest_trace _

theorem writeU32_tohost_fromhost (b : Bus δ) (value : Word) :
    (b.writeU32 dev 0x80001000 value).fromhost =
      if b.Acknowledges value then 1 else b.fromhost := by
  rw [writeU32_tohost]
  by_cases hvalue : value = 0
  · rw [if_neg (not_not_intro hvalue), if_neg fun h => h.1.2.1 hvalue]
    rfl
  · rw [if_pos hvalue]
    exact htifProcessRequest_fromhost _

/-! ## The bytes it reads -/

theorem InRange.lt {b : Bus δ} {ptr : Word} (h : b.InRange ptr) :
    (ptr - b.memoryBase).toNat < b.memorySize.toNat := by
  obtain ⟨hbase, hend⟩ := h
  bv_omega

theorem consoleEvents_inside (b : Bus δ) (ptr : Word) :
    ∀ e ∈ b.consoleEvents ptr, e.Inside b.memorySize.toNat := by
  intro e he
  unfold consoleEvents at he
  split_ifs at he with hprint
  · rcases List.mem_pair.1 he with rfl | rfl
    · exact hprint.2.lt
    · trivial
  · exact absurd he List.not_mem_nil

theorem fieldEvents_inside_iff (b : Bus δ) (ptr : Word) :
    (∀ e ∈ b.fieldEvents ptr, e.Inside b.memorySize.toNat) ↔
      ∀ o ∈ requestFields, (ptr - b.memoryBase + o).toNat + 4 ≤ b.memorySize.toNat :=
  List.forall_mem_map

theorem requestFields_le : ∀ o ∈ requestFields, o.toNat ≤ 24 := by
  simp [requestFields]

/-- In all but the largest RAM a request needs 28 bytes from its start on. -/
theorem requestFits_iff_of_le {b : Bus δ} (hsize : b.memorySize.toNat ≤ 2 ^ 32 - 24)
    (value : Word) :
    b.RequestFits value ↔
      (b.Requests value → (value - b.memoryBase).toNat + 28 ≤ b.memorySize.toNat) := by
  refine forall_congr' fun h => ?_
  have hlt := h.2.2.lt
  have hindex : ∀ o : Word, o.toNat ≤ 24 →
      (value - b.memoryBase + o).toNat = (value - b.memoryBase).toNat + o.toNat := by
    intro o ho
    rw [BitVec.toNat_add, Nat.mod_eq_of_lt (by omega)]
  constructor
  · intro hfits
    have hlast := hfits 24 (by decide)
    rwa [hindex 24 (by decide)] at hlast
  · intro hend o ho
    have hle : o.toNat ≤ 24 := requestFields_le o ho
    rw [hindex o hle]
    omega

/-- What `htif_process_request` reads for a value stored to `tohost` is RAM exactly where the four
words of the request are. -/
theorem request_inside_iff (b : Bus δ) (value : Word) :
    (∀ e ∈ newEvents b (b.writeU32 dev 0x80001000 value), e.Inside b.memorySize.toNat) ↔
      b.RequestFits value := by
  rw [newEvents_of_append (writeU32_tohost_trace dev b value), requestEvents]
  by_cases h : b.Requests value
  · have hconsole : ∀ e ∈ if b.requestWord value 0 = 64 then b.consoleEvents value else [],
        e.Inside b.memorySize.toNat := by
      split_ifs
      · exact consoleEvents_inside b value
      · exact List.forall_mem_nil _
    -- the character is tested by itself, only the fields can lie outside
    rw [if_pos h, List.forall_mem_append, fieldEvents_inside_iff]
    exact ⟨fun hread _ => hread.1, fun hfits => ⟨hfits h, hconsole⟩⟩
  · rw [if_neg h]
    exact iff_of_true (List.forall_mem_nil _) fun hreq => absurd hreq h

/-- A request in the last word of RAM: the other three words are read from behind it. -/
theorem request_not_inside :
    let b := (State.booted []).toBus
    ¬ ∀ e ∈ newEvents b (b.writeU32 herveStubs 0x80001000 60), e.Inside b.memorySize.toNat := by
  intro b hread
  have hsyscall : .host false 68 4 ∈ newEvents b (b.writeU32 herveStubs 0x80001000 60) := by
    decide
  exact absurd (hread _ hsyscall) (by decide : ¬ 68 + 4 ≤ 64)

end Bus
end Herve
