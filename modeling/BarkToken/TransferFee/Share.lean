import BarkToken.Foundation.CeilingShare
import BarkToken.TransferFee.Fee

/-!
# The fee as a capped share (extension/transfer_fee/mod.rs:51-115)

Where the rate is at most one hundred percent, the fee functions compute the share
that is taken, what is left of an amount, and the least amount that leaves a rest.
-/

namespace BarkToken
open CheckedWord CeilingShare

theorem maxFeeBasisPoints_pos : 0 < maxFeeBasisPoints := by decide

namespace TransferFee

/-- The rate, in basis points. -/
def rate (p : TransferFee) (hp : p.RateBounded) : Rate :=
  ⟨p.transferFeeBasisPoints.toNat, maxFeeBasisPoints, maxFeeBasisPoints_pos, hp⟩

theorem rate_proper {p : TransferFee} (hp : p.transferFeeBasisPoints.toNat < maxFeeBasisPoints) :
    (p.rate (.of_lt hp)).Proper := hp

section Bounded

variable {p : TransferFee} (hp : p.RateBounded) (amount : UInt64)

/-- The fee on an amount, as a natural number. -/
def feeOf : ℕ := taken (p.rate hp) p.maximumFee.toNat amount.toNat

theorem feeOf_le : feeOf hp amount ≤ amount.toNat := taken_le amount.toNat

theorem dueFee_eq_share :
    dueFee p.transferFeeBasisPoints.toNat amount.toNat = CeilingShare.share (p.rate hp) amount.toNat := by
  rw [CeilingShare.share, Nat.ceilDiv_eq_add_pred_div, dueFee]
  exact congrArg (· / maxFeeBasisPoints) (Nat.add_sub_assoc (by decide) _).symm

theorem calculateFee_eq : p.calculateFee amount = some (.ofNat (feeOf hp amount)) := by
  obtain ⟨fee, hfee, hval⟩ := calculateFee_eq_some hp amount
  rw [dueFee_eq_share hp] at hval
  rw [hfee, feeOf, taken, ← hval, UInt64.ofNat_toNat]

theorem toNat_feeOf : (UInt64.ofNat (feeOf hp amount)).toNat = feeOf hp amount :=
  UInt64.toNat_ofNat_of_lt' ((feeOf_le hp amount).trans_lt amount.toNat_lt)

theorem calculateFee_eq_some_iff {fee : UInt64} :
    p.calculateFee amount = some fee ↔ fee.toNat = feeOf hp amount := by
  rw [calculateFee_eq hp, Option.some.injEq, ← UInt64.toNat_inj, toNat_feeOf]
  exact eq_comm

theorem calculatePostFeeAmount_eq_some_iff {net : UInt64} :
    p.calculatePostFeeAmount amount = some net ↔
      rest (p.rate hp) p.maximumFee.toNat amount.toNat = net.toNat := by
  have hsum := rest_add_taken (q := p.rate hp) (m := p.maximumFee.toNat) amount.toNat
  simp only [calculatePostFeeAmount, calculateFee_eq hp, Option.bind_eq_bind, Option.bind_some,
    checkedSub_eq_some, toNat_feeOf]
  unfold feeOf
  omega

include hp in
theorem exists_calculatePostFeeAmount : ∃ net, p.calculatePostFeeAmount amount = some net := by
  have hle : rest (p.rate hp) p.maximumFee.toNat amount.toNat ≤ amount.toNat := Nat.sub_le _ _
  refine ⟨.ofNat (rest (p.rate hp) p.maximumFee.toNat amount.toNat), ?_⟩
  rw [calculatePostFeeAmount_eq_some_iff hp,
    UInt64.toNat_ofNat_of_lt' (hle.trans_lt amount.toNat_lt)]

end Bounded

section Proper

variable {p : TransferFee} (hp : p.transferFeeBasisPoints.toNat < maxFeeBasisPoints) (post : UInt64)

/-- Every step of `calculate_pre_fee_amount` in `u128` has a result, and the division
a divisor. -/
structure PreFeeStepsFit (p : TransferFee) (post : UInt64) : Prop where
  numerator : fits 128 (post.toNat * maxFeeBasisPoints) = some (post.toNat * maxFeeBasisPoints)
  denominator : ∃ denominator,
    checkedSubNat maxFeeBasisPoints p.transferFeeBasisPoints.toNat = some denominator ∧
      denominator ≠ 0 ∧
      (fits 128 (post.toNat * maxFeeBasisPoints + denominator)).isSome ∧
      ∃ raw excess, ceilDiv (post.toNat * maxFeeBasisPoints) denominator = some raw ∧
        checkedSubNat raw post.toNat = some excess

/-- The amount before the division's result is narrowed. -/
theorem ceilDiv_eq_uncapped : ceilDiv (post.toNat * maxFeeBasisPoints)
    (maxFeeBasisPoints - p.transferFeeBasisPoints.toNat) =
      some (uncapped (p.rate (.of_lt hp)) post.toNat) := by
  have hpost := post.toNat_lt
  have hpos : 0 < maxFeeBasisPoints - p.transferFeeBasisPoints.toNat := Nat.sub_pos_of_lt hp
  have hsum : post.toNat * maxFeeBasisPoints +
      (maxFeeBasisPoints - p.transferFeeBasisPoints.toNat) < 2 ^ 128 := by
    unfold maxFeeBasisPoints
    omega
  rw [ceilDiv_eq_some hpos hsum]
  rfl

theorem fits_numerator :
    fits 128 (post.toNat * maxFeeBasisPoints) = some (post.toNat * maxFeeBasisPoints) := by
  have hpost := post.toNat_lt
  refine fits_eq_some.mpr ⟨?_, rfl⟩
  unfold maxFeeBasisPoints
  omega

include hp in
theorem preFeeStepsFit : p.PreFeeStepsFit post where
  numerator := fits_numerator post
  denominator := by
    have hpost := post.toNat_lt
    have hle : post.toNat ≤ uncapped (p.rate (.of_lt hp)) post.toNat := le_uncapped (rate_proper hp) post.toNat
    refine ⟨_, if_pos hp.le, Nat.sub_ne_zero_of_lt hp, ?_, _, _, ceilDiv_eq_uncapped hp post,
      if_pos hle⟩
    have hsum : post.toNat * maxFeeBasisPoints +
        (maxFeeBasisPoints - p.transferFeeBasisPoints.toNat) < 2 ^ 128 := by
      unfold maxFeeBasisPoints
      omega
    rw [fits, if_pos hsum]
    rfl

theorem gross_zero : gross (p.rate (.of_lt hp)) p.maximumFee.toNat 0 = 0 := by
  have h : uncapped (p.rate (.of_lt hp)) 0 ≤ 0 := (uncapped_le_iff (rate_proper hp)).mpr (by simp)
  unfold gross
  omega

theorem gross_of_free (h : p.transferFeeBasisPoints.toNat = 0) (n : ℕ) :
    gross (p.rate (.of_lt hp)) p.maximumFee.toNat n = n := by
  have hle : uncapped (p.rate (.of_lt hp)) n ≤ n := by
    rw [uncapped_le_iff (rate_proper hp)]
    simp only [rate, h, Nat.sub_zero, Nat.mul_comm, le_refl]
  have hge := le_uncapped (rate_proper hp) n
  unfold gross
  omega

theorem calculatePreFeeAmount_eq : p.calculatePreFeeAmount post =
    ofNat? (gross (p.rate (.of_lt hp)) p.maximumFee.toNat post.toNat) := by
  have hpost := post.toNat_lt
  unfold calculatePreFeeAmount
  by_cases hfree : p.transferFeeBasisPoints.toNat = 0
  · rw [if_pos hfree, gross_of_free hp hfree, ofNat?_of_lt hpost, UInt64.ofNat_toNat]
  by_cases hzero : p.transferFeeBasisPoints.toNat = maxFeeBasisPoints ∨ post = 0
  · obtain rfl : post = 0 := hzero.resolve_left hp.ne
    rw [if_neg hfree, if_pos hzero, UInt64.toNat_zero, gross_zero hp]
    rfl
  have hle : post.toNat ≤ uncapped (p.rate (.of_lt hp)) post.toNat := le_uncapped (rate_proper hp) post.toNat
  simp only [if_neg hfree, if_neg hzero, fits_numerator post, checkedSubNat, if_pos hp.le,
    ceilDiv_eq_uncapped hp post, if_pos hle, Option.bind_eq_bind, Option.bind_some]
  split
  case isTrue hcap =>
    rw [checkedAdd_eq_ofNat?, gross, min_eq_right (by omega)]
  case isFalse hcap => rw [gross, min_eq_left (by omega)]

end Proper

end TransferFee

end BarkToken
