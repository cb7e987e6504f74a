import BarkToken.Foundation.CheckedWord
import BarkToken.State.Extension
import Mathlib.Tactic.Linarith

/-!
# Transfer fee arithmetic (extension/transfer_fee/mod.rs:31-150)

The 128-bit intermediate values are natural numbers with the checks that the
code makes on them.
-/

namespace BarkToken
open CheckedWord

/-- `MAX_FEE_BASIS_POINTS`, one hundred percent. -/
def maxFeeBasisPoints : ℕ := 10000

namespace TransferFee

/-- `ceil_div` (`transfer_fee/mod.rs:51-56`), in `u128`. -/
def ceilDiv (numerator denominator : ℕ) : Option ℕ := do
  let sum ← fits 128 (numerator + denominator)
  if sum = 0 ∨ denominator = 0 then none else some ((sum - 1) / denominator)

/-- `calculate_fee` (`transfer_fee/mod.rs:59-71`). -/
def calculateFee (p : TransferFee) (preFeeAmount : UInt64) : Option UInt64 :=
  let transferFeeBasisPoints := p.transferFeeBasisPoints.toNat
  if transferFeeBasisPoints = 0 ∨ preFeeAmount = 0 then some 0
  else do
    let numerator ← fits 128 (preFeeAmount.toNat * transferFeeBasisPoints)
    let rawFee ← ceilDiv numerator maxFeeBasisPoints
    let rawFee ← ofNat? rawFee
    return if rawFee ≤ p.maximumFee then rawFee else p.maximumFee

/-- `calculate_post_fee_amount` (`transfer_fee/mod.rs:73-76`). -/
def calculatePostFeeAmount (p : TransferFee) (preFeeAmount : UInt64) : Option UInt64 := do
  let fee ← p.calculateFee preFeeAmount
  checkedSub preFeeAmount fee

/-- `calculate_pre_fee_amount` (`transfer_fee/mod.rs:90-109`). -/
def calculatePreFeeAmount (p : TransferFee) (postFeeAmount : UInt64) : Option UInt64 :=
  let maximumFee := p.maximumFee
  let transferFeeBasisPoints := p.transferFeeBasisPoints.toNat
  if transferFeeBasisPoints = 0 then some postFeeAmount
  else if transferFeeBasisPoints = maxFeeBasisPoints ∨ postFeeAmount = 0 then some 0
  else do
    let numerator ← fits 128 (postFeeAmount.toNat * maxFeeBasisPoints)
    let denominator ← checkedSubNat maxFeeBasisPoints transferFeeBasisPoints
    let rawPreFeeAmount ← ceilDiv numerator denominator
    let excess ← checkedSubNat rawPreFeeAmount postFeeAmount.toNat
    if maximumFee.toNat ≤ excess then checkedAdd postFeeAmount maximumFee
    -- `None` if `pre_fee_amount` overflows
    else ofNat? rawPreFeeAmount

/-- `calculate_inverse_fee` (`transfer_fee/mod.rs:112-115`). -/
def calculateInverseFee (p : TransferFee) (postFeeAmount : UInt64) : Option UInt64 := do
  let preFeeAmount ← p.calculatePreFeeAmount postFeeAmount
  p.calculateFee preFeeAmount

/-- The rate is at most one hundred percent. -/
def RateBounded (p : TransferFee) : Prop := p.transferFeeBasisPoints.toNat ≤ maxFeeBasisPoints

instance (p : TransferFee) : Decidable p.RateBounded := inferInstanceAs (Decidable (_ ≤ _))

theorem RateBounded.of_lt {p : TransferFee}
    (h : p.transferFeeBasisPoints.toNat < maxFeeBasisPoints) : p.RateBounded := h.le

end TransferFee

namespace TransferFeeConfig

/-- `get_epoch_fee` (`transfer_fee/mod.rs:138-144`). -/
def getEpochFee (c : TransferFeeConfig) (epoch : UInt64) : TransferFee :=
  if c.newerTransferFee.epoch ≤ epoch then c.newerTransferFee else c.olderTransferFee

/-- `calculate_epoch_fee` (`transfer_fee/mod.rs:146-148`). -/
def calculateEpochFee (c : TransferFeeConfig) (epoch preFeeAmount : UInt64) : Option UInt64 :=
  (c.getEpochFee epoch).calculateFee preFeeAmount

/-- Both rates are at most one hundred percent. -/
structure RatesBounded (c : TransferFeeConfig) : Prop where
  older : c.olderTransferFee.RateBounded
  newer : c.newerTransferFee.RateBounded

theorem RatesBounded.getEpochFee {c : TransferFeeConfig} (h : c.RatesBounded) (epoch : UInt64) :
    (c.getEpochFee epoch).RateBounded := by
  unfold TransferFeeConfig.getEpochFee
  split
  · exact h.newer
  · exact h.older

end TransferFeeConfig

/-! ### The fee, as a natural number -/

namespace TransferFee

theorem ceilDiv_eq_some {n d : ℕ} (hd : 0 < d) (h : n + d < 2 ^ 128) :
    ceilDiv n d = some ((n + d - 1) / d) := by
  simp only [ceilDiv, fits, if_pos h, Option.bind_eq_bind, Option.bind_some]
  rw [if_neg (by omega)]

/-- `ceil(amount * rate / 10000)`. -/
def dueFee (rate amount : ℕ) : ℕ := (amount * rate + (maxFeeBasisPoints - 1)) / maxFeeBasisPoints

theorem dueFee_le {rate amount : ℕ} (h : rate ≤ maxFeeBasisPoints) : dueFee rate amount ≤ amount := by
  have hmul := Nat.mul_le_mul_left amount h
  unfold dueFee maxFeeBasisPoints at *
  omega

/-- With a rate of at most one hundred percent the fee is always defined, and is
the rounded-up share of the amount, capped. -/
theorem calculateFee_eq_some {p : TransferFee} (hp : p.RateBounded) (amount : UInt64) :
    ∃ fee, p.calculateFee amount = some fee ∧
      fee.toNat = min (dueFee p.transferFeeBasisPoints.toNat amount.toNat) p.maximumFee.toNat := by
  have ha := amount.toNat_lt
  unfold calculateFee
  by_cases h0 : p.transferFeeBasisPoints.toNat = 0 ∨ amount = 0
  · refine ⟨0, if_pos h0, ?_⟩
    rcases h0 with h | h
    · simp [dueFee, maxFeeBasisPoints, h]
    · simp [dueFee, maxFeeBasisPoints, h]
  · have hle : dueFee p.transferFeeBasisPoints.toNat amount.toNat ≤ amount.toNat := dueFee_le hp
    have hmul := Nat.mul_le_mul_left amount.toNat hp
    have hnum : amount.toNat * p.transferFeeBasisPoints.toNat < 2 ^ 128 := by
      unfold maxFeeBasisPoints at hmul
      omega
    have hsum : amount.toNat * p.transferFeeBasisPoints.toNat + maxFeeBasisPoints < 2 ^ 128 := by
      unfold maxFeeBasisPoints at *
      omega
    have hraw : ceilDiv (amount.toNat * p.transferFeeBasisPoints.toNat) maxFeeBasisPoints =
        some (dueFee p.transferFeeBasisPoints.toNat amount.toNat) := by
      rw [ceilDiv_eq_some (by decide) hsum]
      rfl
    obtain ⟨raw, hof⟩ : ∃ raw, ofNat? (dueFee p.transferFeeBasisPoints.toNat amount.toNat) =
        some raw := ⟨_, if_pos (by omega)⟩
    have hrawNat := ofNat?_eq_some.mp hof
    refine ⟨if raw ≤ p.maximumFee then raw else p.maximumFee, ?_, ?_⟩
    · simp only [if_neg h0, fits, if_pos hnum, Option.bind_eq_bind, Option.bind_some, hraw, hof]
      rfl
    · rw [← hrawNat]
      split
      case isTrue h => exact (min_eq_left (UInt64.le_iff_toNat_le.mp h)).symm
      case isFalse h =>
        have := UInt64.le_iff_toNat_le.not.mp h
        omega

/-- Whatever the rate, moving nothing costs nothing. -/
theorem calculateFee_zero (p : TransferFee) : p.calculateFee 0 = some 0 := by
  simp [calculateFee]

end TransferFee

end BarkToken
