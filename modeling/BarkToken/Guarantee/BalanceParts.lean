import BarkToken.Confidential.AccountInfo

/-!
# Amounts in two parts (extension/confidential_transfer/processor.rs:323-332,
extension/confidential_transfer/account_info.rs:370-374)

A deposit is split into its low 16 bits and the rest. `combine_balances` puts the
parts together again; its `checked_shl` checks the distance of the shift, not the
bits that the shift drops.
-/

namespace BarkToken
open Fallible CheckedWord

variable {amount lo hi v : UInt64}

/-! ### Splitting -/

/-- An amount below `2^48` splits into parts that combine to it, any other is refused. -/
structure SplitsExactly (amount : UInt64) : Prop where
  accepted : (∃ lo hi, verifyAndSplitDepositAmount amount = .ok (lo, hi)) ↔ amount.toNat < 2 ^ 48
  parts : ∀ lo hi, verifyAndSplitDepositAmount amount = .ok (lo, hi) →
    lo.toNat < 2 ^ 16 ∧ hi.toNat < 2 ^ 32 ∧
      ApplyPendingBalanceAccountInfo.combineBalances lo hi = some amount

/-- Two parts combine to their integer value, if a word holds it. -/
structure CombinesExactly (lo hi : UInt64) : Prop where
  some_iff : ∀ v, ApplyPendingBalanceAccountInfo.combineBalances lo hi = some v ↔
    v.toNat = lo.toNat + 65536 * hi.toNat
  none_iff : ApplyPendingBalanceAccountInfo.combineBalances lo hi = none ↔
    2 ^ 64 ≤ lo.toNat + 65536 * hi.toNat

theorem toNat_and_low (amount : UInt64) : (amount &&& 65535).toNat = amount.toNat % 2 ^ 16 := by
  rw [UInt64.toNat_and]
  exact Nat.and_two_pow_sub_one_eq_mod _ 16

theorem toNat_shiftRight_low (amount : UInt64) : (amount >>> 16).toNat = amount.toNat / 2 ^ 16 := by
  rw [UInt64.toNat_shiftRight, Nat.shiftRight_eq_div_pow]
  rfl

/-- A shift to the left keeps the low 48 bits. -/
theorem toNat_shiftLeft_low (hi : UInt64) :
    (hi <<< 16).toNat = 65536 * (hi.toNat % 2 ^ 48) := by
  rw [UInt64.toNat_shiftLeft, Nat.shiftLeft_eq]
  change hi.toNat * 2 ^ 16 % 2 ^ 64 = _
  omega

theorem combineBalances_eq_some :
    ApplyPendingBalanceAccountInfo.combineBalances lo hi = some v ↔
      v.toNat = lo.toNat + 65536 * (hi.toNat % 2 ^ 48) := by
  rw [ApplyPendingBalanceAccountInfo.combineBalances, checkedAdd_eq_some, toNat_shiftLeft_low,
    Nat.add_comm]

theorem combineBalances_eq_none :
    ApplyPendingBalanceAccountInfo.combineBalances lo hi = none ↔
      2 ^ 64 ≤ lo.toNat + 65536 * (hi.toNat % 2 ^ 48) := by
  rw [ApplyPendingBalanceAccountInfo.combineBalances, checkedAdd_eq_none, toNat_shiftLeft_low,
    Nat.add_comm]

theorem splitsExactly (amount : UInt64) : SplitsExactly amount := by
  have hok : ∀ p, verifyAndSplitDepositAmount amount = .ok p ↔
      amount ≤ 281474976710655 ∧ (amount &&& 65535, amount >>> 16) = p := by
    intro p
    rw [verifyAndSplitDepositAmount, ensure_bind_eq_ok, pure_eq_ok]
  have hle : amount ≤ 281474976710655 ↔ amount.toNat < 2 ^ 48 := by
    rw [UInt64.le_iff_toNat_le]
    change amount.toNat ≤ 281474976710655 ↔ _
    omega
  refine ⟨⟨?_, fun hlt => ⟨_, _, (hok _).mpr ⟨hle.mpr hlt, rfl⟩⟩⟩, fun lo hi h => ?_⟩
  · rintro ⟨lo, hi, h⟩
    exact hle.mp ((hok _).mp h).1
  · obtain ⟨hamount, hparts⟩ := (hok _).mp h
    obtain ⟨rfl, rfl⟩ := Prod.mk.inj hparts
    have hlt := hle.mp hamount
    rw [combineBalances_eq_some, toNat_and_low, toNat_shiftRight_low]
    omega

/-! ### Combining -/

/-- The parts are combined without loss while the high part has 48 bits, and refused
where what is left of it and the low part exceed a word. -/
theorem combinesExactly_iff (lo hi : UInt64) : CombinesExactly lo hi ↔
    hi.toNat < 2 ^ 48 ∨ 2 ^ 64 ≤ lo.toNat + 65536 * (hi.toNat % 2 ^ 48) := by
  constructor
  · intro h
    by_contra hno
    -- A high part beyond 48 bits has a value beyond a word, which has to be refused.
    have hnone := h.none_iff.mpr (by omega)
    exact hno (Or.inr (combineBalances_eq_none.mp hnone))
  · intro h
    refine ⟨fun v => ?_, ?_⟩
    · have hlt := v.toNat_lt
      rw [combineBalances_eq_some]
      omega
    · rw [combineBalances_eq_none]
      omega

/-- Splitting is exact for every amount; combining is exact unless bits are dropped and
what is left fits. -/
theorem splitAmount_exact_iff (amount lo hi : UInt64) :
    SplitsExactly amount ∧ (CombinesExactly lo hi ↔
      hi.toNat < 2 ^ 48 ∨ 2 ^ 64 ≤ lo.toNat + 65536 * (hi.toNat % 2 ^ 48)) :=
  ⟨splitsExactly amount, combinesExactly_iff lo hi⟩

/-- The value of the high part is lost as a whole. -/
theorem splitAmount_exact_fails :
    ApplyPendingBalanceAccountInfo.combineBalances 0 281474976710656 = some 0 ∧
      ¬ CombinesExactly 0 281474976710656 := by
  have hzero : ApplyPendingBalanceAccountInfo.combineBalances 0 281474976710656 = some 0 := by decide
  refine ⟨hzero, fun h => ?_⟩
  exact absurd ((h.some_iff 0).mp hzero) (by decide)

end BarkToken
