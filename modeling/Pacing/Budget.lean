import Mathlib.Order.MinMax
import Mathlib.Tactic.Ring
import Mathlib.Tactic.Linarith

/-
The interval budget of `paced_sender.cc`.

An `IntervalBudget` is a token bucket in bytes.  `IncreaseBudget` refills it for
an interval but never lets unused bytes carry over, and `UseBudget` debits it
down to a floor of 100 ms of the rate.  All arithmetic is C `int` arithmetic, so
`/` truncates toward zero (`Int.tdiv`).  The lemmas here are the only facts about
the budget the rest of the development uses: what a refill and a debit do to
`bytes_remaining`, stated with `min`, `max` and the refill `credit` so that
`omega` finishes the arithmetic.
-/

namespace Pacing

/-- `paced_sender::IntervalBudget`. -/
structure IntervalBudget where
  targetRateKbps : Int
  bytesRemaining : Int
  deriving DecidableEq, Repr

namespace IntervalBudget

def new (initialTargetRateKbps : Int) : IntervalBudget := ⟨initialTargetRateKbps, 0⟩

def setTargetRateKbps (b : IntervalBudget) (targetRateKbps : Int) : IntervalBudget :=
  { b with targetRateKbps := targetRateKbps }

/-- The bytes one interval of `deltaTimeMs` adds at `targetRateKbps`: `rate * delta / 8`. -/
def credit (targetRateKbps deltaTimeMs : Int) : Int := (targetRateKbps * deltaTimeMs).tdiv 8

/-- `IncreaseBudget`: a debt is paid down; otherwise the budget is reset to one interval. -/
def increaseBudget (b : IntervalBudget) (deltaTimeMs : Int) : IntervalBudget :=
  let bytes := credit b.targetRateKbps deltaTimeMs
  if b.bytesRemaining < 0 then { b with bytesRemaining := b.bytesRemaining + bytes }
  else { b with bytesRemaining := bytes }

/-- The floor `UseBudget` clamps to, `-100 * target_rate_kbps_ / 8`. -/
def debtFloor (targetRateKbps : Int) : Int := (-100 * targetRateKbps).tdiv 8

def useBudget (b : IntervalBudget) (bytes : Int) : IntervalBudget :=
  { b with bytesRemaining := max (b.bytesRemaining - bytes) (debtFloor b.targetRateKbps) }

@[simp] theorem new_targetRateKbps (r : Int) : (new r).targetRateKbps = r := rfl
@[simp] theorem new_bytesRemaining (r : Int) : (new r).bytesRemaining = 0 := rfl

@[simp] theorem setTargetRateKbps_targetRateKbps (b : IntervalBudget) (r : Int) :
    (b.setTargetRateKbps r).targetRateKbps = r := rfl
@[simp] theorem setTargetRateKbps_bytesRemaining (b : IntervalBudget) (r : Int) :
    (b.setTargetRateKbps r).bytesRemaining = b.bytesRemaining := rfl

@[simp] theorem increaseBudget_targetRateKbps (b : IntervalBudget) (d : Int) :
    (b.increaseBudget d).targetRateKbps = b.targetRateKbps := by
  unfold increaseBudget; split <;> rfl

@[simp] theorem increaseBudget_bytesRemaining (b : IntervalBudget) (d : Int) :
    (b.increaseBudget d).bytesRemaining = min b.bytesRemaining 0 + credit b.targetRateKbps d := by
  unfold increaseBudget; split <;> simp <;> omega

@[simp] theorem useBudget_targetRateKbps (b : IntervalBudget) (n : Int) :
    (b.useBudget n).targetRateKbps = b.targetRateKbps := rfl

@[simp] theorem useBudget_bytesRemaining (b : IntervalBudget) (n : Int) :
    (b.useBudget n).bytesRemaining = max (b.bytesRemaining - n) (debtFloor b.targetRateKbps) :=
  rfl

/-! ### C division on non-negative operands -/

theorem credit_eq {r d : Int} (hr : 0 ≤ r) (hd : 0 ≤ d) : credit r d = r * d / 8 :=
  Int.tdiv_eq_ediv (Int.mul_nonneg hr hd) (by decide)

theorem credit_nonneg {r d : Int} (hr : 0 ≤ r) (hd : 0 ≤ d) : 0 ≤ credit r d := by
  rw [credit_eq hr hd]; exact Int.ediv_nonneg (Int.mul_nonneg hr hd) (by decide)

/-- A rate that is not positive buys nothing. -/
theorem credit_nonpos {r d : Int} (hr : r ≤ 0) (hd : 0 ≤ d) : credit r d ≤ 0 := by
  have h : 0 ≤ (-(r * d)).tdiv 8 := Int.tdiv_nonneg (by nlinarith) (by decide)
  rw [Int.neg_tdiv] at h
  unfold credit; omega

/-- A refill is worth at most `rate * delta / 8` bytes, counted in eighths. -/
theorem eight_mul_credit_le {r d : Int} (hr : 0 ≤ r) (hd : 0 ≤ d) : 8 * credit r d ≤ r * d := by
  rw [credit_eq hr hd]; omega

theorem credit_mono {r r' d d' : Int} (hr : 0 ≤ r) (hrr : r ≤ r') (hd : 0 ≤ d) (hdd : d ≤ d') :
    credit r d ≤ credit r' d' := by
  rw [credit_eq hr hd, credit_eq (hr.trans hrr) (hd.trans hdd)]
  exact Int.ediv_le_ediv (by decide) (Int.mul_le_mul hrr hdd hd (hr.trans hrr))

theorem debtFloor_eq {r : Int} (hr : 0 ≤ r) : debtFloor r = -(100 * r / 8) := by
  rw [debtFloor, show -100 * r = -(100 * r) by ring, Int.neg_tdiv,
    Int.tdiv_eq_ediv (by omega) (by decide)]

theorem debtFloor_antitone {r r' : Int} (hr : 0 ≤ r) (hrr : r ≤ r') : debtFloor r' ≤ debtFloor r := by
  rw [debtFloor_eq hr, debtFloor_eq (hr.trans hrr)]; omega

theorem debtFloor_nonpos {r : Int} (hr : 0 ≤ r) : debtFloor r ≤ 0 := by
  rw [debtFloor_eq hr]; omega

/-! ### What a refill and a debit do -/

/-- A debit never leaves the budget below the floor of its current rate. -/
theorem debtFloor_le_useBudget (b : IntervalBudget) (n : Int) :
    debtFloor b.targetRateKbps ≤ (b.useBudget n).bytesRemaining := by
  simp

/-- A debit that stays above the floor is exact. -/
theorem useBudget_of_floor_le {b : IntervalBudget} {n : Int}
    (h : debtFloor b.targetRateKbps ≤ b.bytesRemaining - n) :
    (b.useBudget n).bytesRemaining = b.bytesRemaining - n := by
  simp [h]

/-- A debit of a non-negative size never raises a budget above `max remaining 0`. -/
theorem useBudget_le {b : IntervalBudget} {n : Int} (hr : 0 ≤ b.targetRateKbps) (hn : 0 ≤ n) :
    (b.useBudget n).bytesRemaining ≤ max b.bytesRemaining 0 := by
  have := debtFloor_nonpos hr
  simp only [useBudget_bytesRemaining]; omega

/-- A debit of a non-negative size keeps a budget that is not positive from becoming positive. -/
theorem useBudget_nonpos {b : IntervalBudget} {n : Int} (hr : 0 ≤ b.targetRateKbps) (hn : 0 ≤ n)
    (hb : b.bytesRemaining ≤ 0) : (b.useBudget n).bytesRemaining ≤ 0 := by
  have := b.useBudget_le hr hn; omega

/-- A debit of at most the debt floor from a positive budget is exact. -/
theorem useBudget_of_pos {b : IntervalBudget} {n : Int} (hr : 0 ≤ b.targetRateKbps)
    (hb : 0 < b.bytesRemaining) (hn : n ≤ 100 * b.targetRateKbps / 8) :
    (b.useBudget n).bytesRemaining = b.bytesRemaining - n :=
  useBudget_of_floor_le (by rw [debtFloor_eq hr]; omega)

/-- At a non-negative rate the floor never shows above zero: what a debit leaves there is what
the plain difference leaves. -/
theorem max_useBudget_zero {b : IntervalBudget} (hr : 0 ≤ b.targetRateKbps) (n : Int) :
    max (b.useBudget n).bytesRemaining 0 = max (b.bytesRemaining - n) 0 := by
  have := debtFloor_nonpos hr
  simp only [useBudget_bytesRemaining]; omega

@[simp] theorem credit_zero (d : Int) : credit 0 d = 0 := by simp [credit]

end IntervalBudget

end Pacing
