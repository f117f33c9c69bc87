import Herve.Bus.Registers

/-! How many transfers the slave sees. `HTRANS` is cleared only in `BFM_IDLE`, so that besides
the edge that completes a request every other edge with `HREADY` high repeats its transfer. -/

namespace Herve
open RiscV (Word)

/-- What the BFM samples at an edge: the lines of the slave and of the requester. -/
structure AhbEdge where
  hready : Bool
  hrdata : Word
  req : AhbRequest

def AhbLiteBfm.edge (e : AhbEdge) (b : AhbLiteBfm) : AhbLiteBfm :=
  b.posedge true e.hready e.hrdata e.req

/-- After reset: the BFM before edge `n`, behind any slave. -/
def bfmRun (i : ℕ → AhbEdge) : ℕ → AhbLiteBfm := Clocked.run AhbLiteBfm.edge .reset i

/-- The requester keeps its lines until it sees `ahb_req_ready`. -/
def Handshaken (i : ℕ → AhbEdge) : Prop :=
  ∀ n, (i n).req.valid = true → (bfmRun i (n + 1)).reqReady = false → (i (n + 1)).req = (i n).req

/-- `HTRANS` is NONSEQ or SEQ. -/
def AhbMaster.Transfers (m : AhbMaster) : Prop := m.htrans = 0b10#2 ∨ m.htrans = 0b11#2
  deriving Decidable

/-- The slave accepts a transfer at the edge. -/
def AhbEdge.Accepted (e : AhbEdge) (b : AhbLiteBfm) : Prop :=
  e.hready = true ∧ b.toAhbMaster.Transfers
  deriving Decidable

/-- The edge completes a request: `ahb_req_ready` goes up. -/
def AhbEdge.Completed (e : AhbEdge) (b : AhbLiteBfm) : Prop :=
  e.hready = true ∧ b.state = .data
  deriving Decidable

/-- `HREADY` is high while the BFM drives a transfer outside its data phase. -/
def AhbEdge.Repeats (e : AhbEdge) (b : AhbLiteBfm) : Prop :=
  e.hready = true ∧ b.toAhbMaster.Transfers ∧ b.state ≠ .data
  deriving Decidable

def acceptedTransfers (i : ℕ → AhbEdge) : ℕ → ℕ :=
  Clocked.count AhbLiteBfm.edge AhbEdge.Accepted .reset i

def completedRequests (i : ℕ → AhbEdge) : ℕ → ℕ :=
  Clocked.count AhbLiteBfm.edge AhbEdge.Completed .reset i

/-- A request under way is on the bus. -/
def AhbLiteBfm.Driving (b : AhbLiteBfm) : Prop := b.state ≠ .idle → b.toAhbMaster.Transfers

theorem driving_edge (e : AhbEdge) (b : AhbLiteBfm) (h : b.Driving) : (b.edge e).Driving := by
  by_cases hidle : b.state = .idle
  · cases hv : e.req.valid with
    | true => exact fun _ => .inl (AhbLiteBfm.posedge_takes e.hready e.hrdata hidle hv).1.htrans
    | false =>
      rw [AhbLiteBfm.edge, AhbLiteBfm.posedge_idle _ _ hidle hv]
      exact fun hne => absurd hidle hne
  · intro _
    rw [AhbLiteBfm.edge, AhbLiteBfm.posedge_busy _ _ hidle]
    exact h hidle

theorem driving_run (i : ℕ → AhbEdge) (n : ℕ) : (bfmRun i n).Driving :=
  Clocked.run_invariant (fun h => absurd rfl h) driving_edge n

theorem accepted_iff (e : AhbEdge) {b : AhbLiteBfm} (h : b.Driving) :
    e.Accepted b ↔ e.Completed b ∨ e.Repeats b := by
  constructor
  · rintro ⟨hready, htrans⟩
    by_cases hdata : b.state = .data
    · exact .inl ⟨hready, hdata⟩
    · exact .inr ⟨hready, htrans, hdata⟩
  · rintro (⟨hready, hdata⟩ | ⟨hready, htrans, _⟩)
    · exact ⟨hready, h (by rw [hdata]; decide)⟩
    · exact ⟨hready, htrans⟩

theorem acceptedTransfers_eq (i : ℕ → AhbEdge) (n : ℕ) :
    acceptedTransfers i n = completedRequests i n +
      Clocked.count AhbLiteBfm.edge AhbEdge.Repeats .reset i n :=
  Clocked.count_eq_add (fun k => accepted_iff (i k) (driving_run i k))
    (fun _ hc hr => hr.2.2 hc.2) n

/-- One transfer per request, in every state of a run, exactly where no edge repeats one. -/
theorem acceptedTransfers_eq_completedRequests_iff (i : ℕ → AhbEdge) (n : ℕ) :
    acceptedTransfers i n = completedRequests i n ↔ ∀ k < n, ¬ (i k).Repeats (bfmRun i k) := by
  rw [acceptedTransfers_eq, Nat.add_eq_left]
  exact Clocked.count_eq_zero_iff

/-- One write to `GPIO_OUT`, and a slave that never waits. -/
def oneWrite (n : ℕ) : AhbEdge := ⟨true, 0, ⟨n < 3, gpioOutAddr, true, 1⟩⟩

theorem oneWrite_repeats :
    Handshaken oneWrite ∧ acceptedTransfers oneWrite 6 = 4 ∧ completedRequests oneWrite 6 = 1 := by
  refine ⟨fun n hvalid hready => ?_, by decide, by decide⟩
  have hn : n < 3 := of_decide_eq_true hvalid
  interval_cases n
  · rfl
  · rfl
  · exact absurd hready (by decide)

end Herve
