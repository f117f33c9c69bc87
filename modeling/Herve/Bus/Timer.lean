import Herve.Lib.Clocked
import Herve.RiscV.Bytes

/-! `rv_timer.sv`: the counter, the compare register that is written in halves, and the
interrupt line. -/

namespace Herve
open RiscV (Word)

/-- The register port: `reg_addr`, `reg_re`, `reg_we` and `reg_wdata`. -/
structure RegPort where
  regAddr : BitVec 2
  regRe : Bool
  regWe : Bool
  regWdata : Word

structure RvTimer where
  mtime : BitVec 64
  mtimecmp : BitVec 64
  timerIrq : Bool

namespace RvTimer

def reset : RvTimer := ⟨0#64, BitVec.allOnes 64, false⟩

def mtimeGeMtimecmp (t : RvTimer) : Bool := t.mtimecmp ≤ t.mtime

def mtimecmpNext (p : RegPort) (t : RvTimer) : BitVec 64 :=
  if p.regWe then
    if p.regAddr = 0b10#2 then t.mtimecmp.extractLsb' 32 32 ++ p.regWdata
    else if p.regAddr = 0b11#2 then p.regWdata ++ t.mtimecmp.extractLsb' 0 32
    else t.mtimecmp
  else t.mtimecmp

/-- `rv_timer` at a rising edge of `clk`. -/
def posedge (rstn : Bool) (p : RegPort) (t : RvTimer) : RvTimer :=
  if !rstn then .reset
  else
    { mtime := t.mtime + 1#64
      mtimecmp := t.mtimecmpNext p
      timerIrq := t.mtimeGeMtimecmp }

def regRdata (p : RegPort) (t : RvTimer) : Word :=
  if p.regRe then
    if p.regAddr = 0b00#2 then t.mtime.extractLsb' 0 32
    else if p.regAddr = 0b01#2 then t.mtime.extractLsb' 32 32
    else if p.regAddr = 0b10#2 then t.mtimecmp.extractLsb' 0 32
    else t.mtimecmp.extractLsb' 32 32
  else 0

end RvTimer

/-- After reset: the state before edge `n`. -/
def timerRun (port : ℕ → RegPort) : ℕ → RvTimer := Clocked.run (RvTimer.posedge true) .reset port

/-- The port writes the register at `a`. -/
def RegPort.writes (a : BitVec 2) (p : RegPort) : Option Word :=
  if p.regWe = true ∧ p.regAddr = a then some p.regWdata else none

/-- The values written to the register at `a` before edge `n`, in order. -/
def timerWrites (port : ℕ → RegPort) (a : BitVec 2) : ℕ → List Word :=
  Clocked.log (RvTimer.posedge true) (fun p _ => p.writes a) .reset port

/-! ## The compare register by halves -/

def hi (w : BitVec 64) : Word := w.extractLsb' 32 32
def lo (w : BitVec 64) : Word := w.extractLsb' 0 32

@[simp] theorem hi_append_lo (w : BitVec 64) : hi w ++ lo w = w :=
  BitVec.extractLsb'_append_extractLsb'

@[simp] theorem hi_append (h l : Word) : hi (h ++ l) = h := by
  rw [hi, BitVec.extractLsb'_append_eq_of_le (le_refl 32)]
  exact BitVec.extractLsb'_eq_self

@[simp] theorem lo_append (h l : Word) : lo (h ++ l) = l := by
  rw [lo, BitVec.extractLsb'_append_eq_of_add_le (le_refl 32)]
  exact BitVec.extractLsb'_eq_self

/-- A value is at most the greatest one with its upper half. -/
theorem le_hi_append (w : BitVec 64) : w ≤ hi w ++ BitVec.allOnes 32 := by
  have hlo := (lo w).isLt
  rw [← hi_append_lo w, hi_append, BitVec.le_def, BitVec.toNat_append, BitVec.toNat_append,
    ← Nat.shiftLeft_add_eq_or_of_lt hlo, ← Nat.shiftLeft_add_eq_or_of_lt (BitVec.isLt _),
    BitVec.toNat_allOnes]
  omega

/-- Each half takes what the port writes to it, and else stays. -/
theorem RvTimer.mtimecmpNext_eq (p : RegPort) (t : RvTimer) :
    t.mtimecmpNext p =
      (p.writes 0b11#2).getD (hi t.mtimecmp) ++ (p.writes 0b10#2).getD (lo t.mtimecmp) := by
  unfold mtimecmpNext RegPort.writes
  cases hwe : p.regWe with
  | false => simp
  | true =>
    by_cases hlo : p.regAddr = 0b10#2
    · simp [hlo, hi]
    · by_cases hhi : p.regAddr = 0b11#2
      · simp [hhi, lo]
      · simp [hlo, hhi]

section
variable {port : ℕ → RegPort}

theorem timerRun_succ (n : ℕ) :
    timerRun port (n + 1) = (timerRun port n).posedge true (port n) := rfl

theorem timerRun_mtime (n : ℕ) : (timerRun port n).mtime = BitVec.ofNat 64 n := by
  induction n with
  | zero => rfl
  | succ n ih =>
    calc (timerRun port (n + 1)).mtime = (timerRun port n).mtime + 1#64 := rfl
      _ = BitVec.ofNat 64 (n + 1) := by rw [ih, BitVec.ofNat_add]

theorem timerRun_timerIrq (n : ℕ) :
    (timerRun port (n + 1)).timerIrq = true ↔
      (timerRun port n).mtimecmp ≤ (timerRun port n).mtime := by
  rw [timerRun_succ]
  exact decide_eq_true_iff

theorem timerRun_mtimecmp_succ (n : ℕ) :
    (timerRun port (n + 1)).mtimecmp =
      ((port n).writes 0b11#2).getD (hi (timerRun port n).mtimecmp) ++
        ((port n).writes 0b10#2).getD (lo (timerRun port n).mtimecmp) :=
  RvTimer.mtimecmpNext_eq _ _

theorem timerWrites_last (a : BitVec 2) (n : ℕ) (d : Word) :
    (timerWrites port a (n + 1)).getLast?.getD d =
      ((port n).writes a).getD ((timerWrites port a n).getLast?.getD d) := by
  rw [timerWrites]
  cases h : (port n).writes a with
  | none => rw [Clocked.log_succ_none h]; rfl
  | some w => rw [Clocked.log_succ_some h, List.getLast?_concat]; rfl

/-- The compare register holds the last value written to each half. -/
theorem timerRun_mtimecmp (n : ℕ) :
    (timerRun port n).mtimecmp =
      (timerWrites port 0b11#2 n).getLast?.getD (BitVec.allOnes 32) ++
        (timerWrites port 0b10#2 n).getLast?.getD (BitVec.allOnes 32) := by
  induction n with
  | zero => exact (by decide : BitVec.allOnes 64 = BitVec.allOnes 32 ++ BitVec.allOnes 32)
  | succ n ih =>
    rw [timerRun_mtimecmp_succ, ih, hi_append, lo_append, timerWrites_last, timerWrites_last]

/-! ## Reprogramming in three writes -/

def RegPort.SparesCompare (p : RegPort) : Prop := p.writes 0b10#2 = none ∧ p.writes 0b11#2 = none

/-- The three writes that set the compare register to `new`, at the edges `t₁`, `t₂` and `t₃`, and
no other write to it from the first of them until edge `n`. -/
structure Reprograms (port : ℕ → RegPort) (new : BitVec 64) (t₁ t₂ t₃ n : ℕ) : Prop where
  lt₁₂ : t₁ < t₂
  lt₂₃ : t₂ < t₃
  le : t₃ ≤ n
  first : (port t₁).writes 0b10#2 = some 0xFFFFFFFF#32
  second : (port t₂).writes 0b11#2 = some (hi new)
  third : (port t₃).writes 0b10#2 = some (lo new)
  spares : ∀ k, t₁ < k → k < n → k ≠ t₂ → k ≠ t₃ → (port k).SparesCompare

theorem RegPort.writes_eq_none_of_ne {p : RegPort} {a b : BitVec 2} {w : Word}
    (h : p.writes a = some w) (hab : a ≠ b) : p.writes b = none := by
  unfold writes at h ⊢
  split_ifs at h with ha
  exact if_neg fun hb => hab (ha.2.symm.trans hb.2)

theorem timerRun_mtimecmp_kept {m n : ℕ} (hmn : m ≤ n)
    (h : ∀ k, m ≤ k → k < n → (port k).SparesCompare) :
    (timerRun port n).mtimecmp = (timerRun port m).mtimecmp := by
  induction n, hmn using Nat.le_induction with
  | base => rfl
  | succ n hmn ih =>
    obtain ⟨hlo, hhi⟩ := h n hmn n.lt_succ_self
    rw [timerRun_mtimecmp_succ, hlo, hhi, Option.getD_none, Option.getD_none, hi_append_lo]
    exact ih fun k hk hkn => h k hk (hkn.trans n.lt_succ_self)

namespace Reprograms
variable {new : BitVec 64} {t₁ t₂ t₃ n : ℕ}

/-- What the register holds after the first, the second and the third of the writes. -/
theorem mtimecmp_first (h : Reprograms port new t₁ t₂ t₃ n) {k : ℕ} (h₁ : t₁ < k) (h₂ : k ≤ t₂) :
    (timerRun port k).mtimecmp = hi (timerRun port t₁).mtimecmp ++ BitVec.allOnes 32 := by
  have hn := h.lt₂₃.trans_le h.le
  rw [timerRun_mtimecmp_kept h₁ fun j hj hjk =>
      h.spares j hj ((hjk.trans_le h₂).trans hn) (hjk.trans_le h₂).ne
        ((hjk.trans_le h₂).trans h.lt₂₃).ne,
    timerRun_mtimecmp_succ, h.first, RegPort.writes_eq_none_of_ne h.first (by decide)]
  rfl

theorem mtimecmp_second (h : Reprograms port new t₁ t₂ t₃ n) {k : ℕ} (h₂ : t₂ < k)
    (h₃ : k ≤ t₃) : (timerRun port k).mtimecmp = hi new ++ BitVec.allOnes 32 := by
  rw [timerRun_mtimecmp_kept h₂ fun j hj hjk =>
      h.spares j (h.lt₁₂.trans hj) ((hjk.trans_le h₃).trans_le h.le) (Nat.ne_of_gt hj)
        (hjk.trans_le h₃).ne,
    timerRun_mtimecmp_succ, h.second, RegPort.writes_eq_none_of_ne h.second (by decide),
    h.mtimecmp_first h.lt₁₂ le_rfl, Option.getD_some, Option.getD_none, lo_append]

theorem mtimecmp_third (h : Reprograms port new t₁ t₂ t₃ n) {k : ℕ} (h₃ : t₃ < k) (hn : k ≤ n) :
    (timerRun port k).mtimecmp = new := by
  rw [timerRun_mtimecmp_kept h₃ fun j hj hjk =>
      h.spares j (h.lt₁₂.trans (h.lt₂₃.trans hj)) (hjk.trans_le hn)
        (Nat.ne_of_gt (h.lt₂₃.trans hj)) (Nat.ne_of_gt hj),
    timerRun_mtimecmp_succ, h.third, RegPort.writes_eq_none_of_ne h.third (by decide),
    h.mtimecmp_second h.lt₂₃ le_rfl, Option.getD_some, Option.getD_none, hi_append, hi_append_lo]

/-- Whatever is half written, the register is never below both its old and its new value. -/
theorem le_mtimecmp (h : Reprograms port new t₁ t₂ t₃ n) {k : ℕ} (h₁ : t₁ ≤ k) (hn : k ≤ n) :
    (timerRun port t₁).mtimecmp ≤ (timerRun port k).mtimecmp ∨
      new ≤ (timerRun port k).mtimecmp := by
  rcases h₁.eq_or_lt with rfl | h₁
  · exact .inl (BitVec.le_refl _)
  rcases le_or_gt k t₂ with h₂ | h₂
  · rw [h.mtimecmp_first h₁ h₂]
    exact .inl (le_hi_append _)
  rcases le_or_gt k t₃ with h₃ | h₃
  · rw [h.mtimecmp_second h₂ h₃]
    exact .inr (le_hi_append _)
  · rw [h.mtimecmp_third h₃ hn]
    exact .inr (BitVec.le_refl _)

theorem timerIrq (h : Reprograms port new t₁ t₂ t₃ n)
    (hlt : ∀ k, t₁ ≤ k → k ≤ n → (timerRun port k).mtime < (timerRun port t₁).mtimecmp ∧
      (timerRun port k).mtime < new) {k : ℕ} (h₁ : t₁ ≤ k) (hn : k ≤ n) :
    (timerRun port (k + 1)).timerIrq = false := by
  obtain ⟨hold, hnew⟩ := hlt k h₁ hn
  apply Bool.eq_false_iff.2
  rw [Ne, timerRun_timerIrq, BitVec.not_le]
  rcases h.le_mtimecmp h₁ hn with hle | hle
  · exact Nat.lt_of_lt_of_le hold hle
  · exact Nat.lt_of_lt_of_le hnew hle

end Reprograms

/-! ## The timer -/

theorem rv_timer_spec (port : ℕ → RegPort) :
    (∀ n, (timerRun port (n + 1)).timerIrq = true ↔
      (timerRun port n).mtimecmp ≤ (timerRun port n).mtime) ∧
    (∀ n, (timerRun port n).mtime.toNat = n % 2 ^ 64) ∧
    (∀ n, (timerRun port n).mtimecmp =
      (timerWrites port 0b11#2 n).getLast?.getD (BitVec.allOnes 32) ++
        (timerWrites port 0b10#2 n).getLast?.getD (BitVec.allOnes 32)) ∧
    ∀ new t₁ t₂ t₃ n, Reprograms port new t₁ t₂ t₃ n →
      (∀ k, t₁ ≤ k → k ≤ n → (timerRun port k).mtime < (timerRun port t₁).mtimecmp ∧
        (timerRun port k).mtime < new) →
      ∀ k, t₁ ≤ k → k ≤ n → (timerRun port (k + 1)).timerIrq = false := by
  refine ⟨timerRun_timerIrq, ?_, timerRun_mtimecmp, ?_⟩
  · intro n
    rw [timerRun_mtime, BitVec.toNat_ofNat]
  · intro new t₁ t₂ t₃ n h hlt k h₁ hn
    exact h.timerIrq hlt h₁ hn

end

/-- From all ones to 100, at the edges 1, 3 and 4. -/
def reprogramPort : ℕ → RegPort
  | 1 => ⟨0b10#2, false, true, 0xFFFFFFFF#32⟩
  | 3 => ⟨0b11#2, false, true, 0⟩
  | 4 => ⟨0b10#2, false, true, 100⟩
  | _ => ⟨0, false, false, 0⟩

theorem rv_timer_spec_reprogram :
    ∀ k, 1 ≤ k → k ≤ 6 → (timerRun reprogramPort (k + 1)).timerIrq = false := by
  have h : Reprograms reprogramPort 100#64 1 3 4 6 :=
    { lt₁₂ := by decide, lt₂₃ := by decide, le := by decide
      first := by decide, second := by decide, third := by decide
      spares := by
        intro k h₁ hn h₂ h₃
        have : k = 2 ∨ k = 5 := by omega
        rcases this with rfl | rfl <;> exact ⟨by decide, by decide⟩ }
  refine (rv_timer_spec reprogramPort).2.2.2 100#64 1 3 4 6 h ?_
  intro k h₁ hn
  interval_cases k <;> decide

end Herve
