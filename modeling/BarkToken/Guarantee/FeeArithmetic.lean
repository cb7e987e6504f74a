import BarkToken.Invariant.Mints
import BarkToken.Processor.Transfer
import BarkToken.TransferFee.Share
import Mathlib.GroupTheory.GroupAction.Ring

/-!
# Fees and their inverse (extension/transfer_fee/mod.rs:51-115)

The fee is the rounded-up share of an amount, with a cap. Below one hundred percent
its inverse finds the least amount that leaves a given rest; at one hundred percent it
always answers zero, which is right without a cap only.
-/

namespace BarkToken
open Fallible CheckedWord CeilingShare

namespace TransferFee

/-! ### The fee -/

/-- The fee as a function of the amount. -/
structure FeeSpecified (p : TransferFee) : Prop where
  value : ∀ amount, p.calculateFee amount = some (.ofNat
    (min (amount.toNat * p.transferFeeBasisPoints.toNat ⌈/⌉ 10000) p.maximumFee.toNat))
  le : ∀ amount fee, p.calculateFee amount = some fee → fee ≤ amount
  /-- A larger amount costs as much or more, and leaves as much or more. -/
  mono : ∀ amount larger fee fee', amount ≤ larger → p.calculateFee amount = some fee →
    p.calculateFee larger = some fee' →
      fee ≤ fee' ∧ fee'.toNat - fee.toNat ≤ larger.toNat - amount.toNat
  post : ∀ amount, ∃ net, p.calculatePostFeeAmount amount = some net
  postMono : ∀ amount larger net net', amount ≤ larger → p.calculatePostFeeAmount amount = some net →
    p.calculatePostFeeAmount larger = some net' → net ≤ net'

theorem RateBounded.feeSpecified {p : TransferFee} (hp : p.RateBounded) : p.FeeSpecified where
  value := calculateFee_eq hp
  le amount fee h := by
    rw [UInt64.le_iff_toNat_le, (calculateFee_eq_some_iff hp amount).mp h]
    exact feeOf_le hp amount
  mono amount larger fee fee' hle h h' := by
    have hfee := (calculateFee_eq_some_iff hp amount).mp h
    have hfee' := (calculateFee_eq_some_iff hp larger).mp h'
    obtain ⟨k, hk⟩ := Nat.exists_eq_add_of_le (UInt64.le_iff_toNat_le.mp hle)
    have hmono : feeOf hp amount ≤ feeOf hp larger := taken_mono (UInt64.le_iff_toNat_le.mp hle)
    have hstep : feeOf hp larger ≤ feeOf hp amount + k := by
      rw [feeOf, hk]
      exact taken_add_le amount.toNat k
    rw [UInt64.le_iff_toNat_le]
    omega
  post := exists_calculatePostFeeAmount hp
  postMono amount larger net net' hle h h' := by
    rw [UInt64.le_iff_toNat_le, ← (calculatePostFeeAmount_eq_some_iff hp amount).mp h,
      ← (calculatePostFeeAmount_eq_some_iff hp larger).mp h']
    exact rest_mono (UInt64.le_iff_toNat_le.mp hle)

/-- A higher rate and a higher cap cost as much or more. -/
theorem calculateFee_mono_terms {p q : TransferFee} (hp : p.RateBounded) (hq : q.RateBounded)
    (hrate : p.transferFeeBasisPoints ≤ q.transferFeeBasisPoints) (hcap : p.maximumFee ≤ q.maximumFee)
    {amount fee fee' : UInt64} (h : p.calculateFee amount = some fee)
    (h' : q.calculateFee amount = some fee') : fee ≤ fee' := by
  rw [UInt64.le_iff_toNat_le, (calculateFee_eq_some_iff hp amount).mp h,
    (calculateFee_eq_some_iff hq amount).mp h']
  have hshare : CeilingShare.share (p.rate hp) amount.toNat ≤ CeilingShare.share (q.rate hq) amount.toNat := by
    refine CeilingShare.share_rate_mono (UInt16.le_iff_toNat_le.mp hrate) ?_ amount.toNat
    rfl
  exact min_le_min hshare (UInt64.le_iff_toNat_le.mp hcap)

end TransferFee

/-- What a mint charges is never more than the amount. -/
theorem mintFee_le {m : PodStateWithExtensions PodMint} {k : Pubkey} (hm : WellFormedMint k m)
    (env : Env) (amount : UInt64) : ∃ fee, mintFee env m amount = .ok fee ∧ fee ≤ amount := by
  unfold mintFee
  split
  case h_1 config hconfig =>
    have hspec := ((hm.valid.rates config hconfig).getEpochFee env.epoch).feeSpecified
    exact ⟨_, okOr_eq_ok.mpr (hspec.value amount), hspec.le amount _ (hspec.value amount)⟩
  case h_2 => exact ⟨0, rfl, UInt64.zero_le⟩

/-- The fee is the rounded-up share with a cap; it grows with the amount, no faster
than it, with the rate and with the cap. So the mint of a transfer, in any reachable
state, charges a fee that can be taken from the amount. -/
theorem calculateFee_specified :
    (∀ p : TransferFee, p.RateBounded → p.FeeSpecified) ∧
    (∀ p q : TransferFee, p.RateBounded → q.RateBounded →
      p.transferFeeBasisPoints ≤ q.transferFeeBasisPoints → p.maximumFee ≤ q.maximumFee →
      ∀ amount fee fee', p.calculateFee amount = some fee → q.calculateFee amount = some fee' →
        fee ≤ fee') ∧
    ∀ x l, Reachable x l → ∀ k m, MintAt l k m → ∀ env amount,
      ∃ fee credited, mintFee env m amount = .ok fee ∧ checkedSub amount fee = some credited := by
  refine ⟨fun p hp => hp.feeSpecified, fun p q hp hq hrate hcap amount fee fee' h h' =>
    TransferFee.calculateFee_mono_terms hp hq hrate hcap h h', fun x l hreach k m hm env amount => ?_⟩
  have hwell := (hreach.wellFormed k).of_mint hm.owner hm.data
  obtain ⟨fee, hfee, hle⟩ := mintFee_le hwell env amount
  obtain ⟨credited, hcredited⟩ := checkedSub_of_le hle
  exact ⟨fee, credited, hfee, hcredited⟩

/-- One and a half percent, and at most five. -/
theorem calculateFee_specified_example : (⟨0, 5, 150⟩ : TransferFee).FeeSpecified :=
  calculateFee_specified.1 ⟨0, 5, 150⟩ (by decide)

example : (⟨0, 5, 150⟩ : TransferFee).calculateFee 201 = some 4 := by decide

namespace TransferFee

/-! ### The least amount -/

section Proper

variable {p : TransferFee} (hp : p.transferFeeBasisPoints.toNat < maxFeeBasisPoints)

theorem calculatePreFeeAmount_eq_some_iff {post amount : UInt64} :
    p.calculatePreFeeAmount post = some amount ↔
      amount.toNat = gross (p.rate (.of_lt hp)) p.maximumFee.toNat post.toNat := by
  rw [calculatePreFeeAmount_eq hp, ofNat?_eq_some]

include hp in
/-- Below one hundred percent the inverse is the least amount that leaves `post`. -/
theorem isLeast_preFeeAmount {post amount : UInt64}
    (h : p.calculatePreFeeAmount post = some amount) :
    IsLeast {a | p.calculatePostFeeAmount a = some post} amount := by
  have hgross := (calculatePreFeeAmount_eq_some_iff hp).mp h
  obtain ⟨hmem, hlower⟩ := isLeast_gross (m := p.maximumFee.toNat) (rate_proper hp) post.toNat
  refine ⟨?_, fun a ha => ?_⟩
  · rw [Set.mem_ofPred_eq, calculatePostFeeAmount_eq_some_iff hp.le, hgross]
    exact hmem
  · rw [UInt64.le_iff_toNat_le, hgross]
    exact hlower ((calculatePostFeeAmount_eq_some_iff (.of_lt hp) a).mp ha)

include hp in
/-- An amount that leaves `post` is an upper bound. -/
theorem exists_calculatePreFeeAmount {post amount : UInt64}
    (h : p.calculatePostFeeAmount amount = some post) :
    ∃ least, p.calculatePreFeeAmount post = some least := by
  have hle := (isLeast_gross (m := p.maximumFee.toNat) (rate_proper hp) post.toNat).2
    ((calculatePostFeeAmount_eq_some_iff (.of_lt hp) amount).mp h)
  rw [calculatePreFeeAmount_eq hp]
  exact ⟨_, ofNat?_of_lt (hle.trans_lt amount.toNat_lt)⟩

end Proper

theorem calculatePreFeeAmount_isLeast {p : TransferFee}
    (hp : p.transferFeeBasisPoints.toNat < maxFeeBasisPoints) (post : UInt64) :
    p.PreFeeStepsFit post ∧
    (∀ amount, p.calculatePreFeeAmount post = some amount ↔
      IsLeast {a | p.calculatePostFeeAmount a = some post} amount) ∧
    (p.calculatePreFeeAmount post = none ↔ ∀ amount, p.calculatePostFeeAmount amount ≠ some post) := by
  refine ⟨preFeeStepsFit hp post, fun amount => ⟨isLeast_preFeeAmount hp, fun h => ?_⟩,
    fun hnone amount h => ?_, fun hnot => ?_⟩
  · obtain ⟨least, hleast⟩ := exists_calculatePreFeeAmount hp h.1
    have hsame := (isLeast_preFeeAmount hp hleast)
    have hle : least.toNat = amount.toNat := le_antisymm
      (UInt64.le_iff_toNat_le.mp (hsame.2 h.1)) (UInt64.le_iff_toNat_le.mp (h.2 hsame.1))
    rw [hleast, UInt64.toNat_inj.mp hle]
  · obtain ⟨least, hleast⟩ := exists_calculatePreFeeAmount hp h
    cases hnone.symm.trans hleast
  · cases hpre : p.calculatePreFeeAmount post with
    | none => rfl
    | some amount => exact absurd (isLeast_preFeeAmount hp hpre).1 (hnot amount)

/-- At ten percent, both 10 and 11 leave 9. -/
theorem calculatePreFeeAmount_isLeast_ten :
    IsLeast {a | (⟨0, 100, 1000⟩ : TransferFee).calculatePostFeeAmount a = some 9} 10 :=
  ((calculatePreFeeAmount_isLeast (p := ⟨0, 100, 1000⟩) (by decide) 9).2.1 10).mp (by decide)

/-! ### Sending with the inverse fee -/

/-- `calculate_inverse_fee` answers, and the amount with that fee added pays that fee. -/
def Delivers (p : TransferFee) (post : UInt64) : Prop :=
  ∃ fee, p.calculateInverseFee post = some fee ∧
    ∃ amount, checkedAdd post fee = some amount ∧ p.calculateFee amount = some fee

theorem delivers_of_proper {p : TransferFee}
    (hp : p.transferFeeBasisPoints.toNat < maxFeeBasisPoints) {post amount : UInt64}
    (h : p.calculatePostFeeAmount amount = some post) : p.Delivers post := by
  obtain ⟨least, hleast⟩ := exists_calculatePreFeeAmount hp h
  have hpost := (calculatePostFeeAmount_eq_some_iff (.of_lt hp) least).mp (isLeast_preFeeAmount hp hleast).1
  have hfee := calculateFee_eq (.of_lt hp) least
  have hsum := rest_add_taken (q := p.rate (.of_lt hp)) (m := p.maximumFee.toNat) least.toNat
  refine ⟨_, by simp only [calculateInverseFee, hleast, Option.bind_eq_bind, Option.bind_some, hfee],
    least, checkedAdd_eq_some.mpr ?_, hfee⟩
  rw [toNat_feeOf, ← hpost, feeOf]
  exact hsum.symm

/-- At one hundred percent the inverse fee is zero. -/
theorem calculateInverseFee_full {p : TransferFee}
    (hp : p.transferFeeBasisPoints.toNat = maxFeeBasisPoints) (post : UInt64) :
    p.calculateInverseFee post = some 0 := by
  have hpre : p.calculatePreFeeAmount post = some 0 := by
    rw [calculatePreFeeAmount, if_neg (by rw [hp]; decide), if_pos (Or.inl hp)]
  simp only [calculateInverseFee, hpre, Option.bind_eq_bind, Option.bind_some, calculateFee_zero]

/-- At one hundred percent, an amount costs nothing exactly where the cap is zero. -/
theorem calculateFee_full {p : TransferFee} (hp : p.RateBounded)
    (hfull : p.transferFeeBasisPoints.toNat = maxFeeBasisPoints) (amount : UInt64) :
    p.calculateFee amount = some 0 ↔ p.maximumFee = 0 ∨ amount = 0 := by
  have hshare : amount.toNat ≤ CeilingShare.share (p.rate hp) amount.toNat := by
    have h : amount.toNat * p.transferFeeBasisPoints.toNat ≤
        maxFeeBasisPoints * CeilingShare.share (p.rate hp) amount.toNat :=
      (CeilingShare.share_le_iff (q := p.rate hp)).mp le_rfl
    rw [hfull, Nat.mul_comm] at h
    exact Nat.le_of_mul_le_mul_left h maxFeeBasisPoints_pos
  have hle := CeilingShare.share_le (q := p.rate hp) amount.toNat
  rw [calculateFee_eq_some_iff hp, feeOf, taken, ← UInt64.toNat_inj, ← UInt64.toNat_inj,
    UInt64.toNat_zero]
  omega

/-- The inverse fee delivers what it promises, but for a rate of one hundred percent
with a cap: it then leaves out the cap. -/
theorem calculateInverseFee_delivers_iff {p : TransferFee} (hp : p.RateBounded) (post : UInt64)
    (hpost : ∃ amount, p.calculatePostFeeAmount amount = some post) :
    p.Delivers post ↔
      (p.transferFeeBasisPoints.toNat = maxFeeBasisPoints → p.maximumFee = 0 ∨ post = 0) := by
  obtain ⟨amount, hamount⟩ := hpost
  by_cases hfull : p.transferFeeBasisPoints.toNat = maxFeeBasisPoints
  · have hsame : ∀ a, checkedAdd post 0 = some a ↔ a = post := fun a => by
      rw [checkedAdd_eq_some, UInt64.toNat_zero, Nat.add_zero, UInt64.toNat_inj]
    simp only [Delivers, calculateInverseFee_full hfull, Option.some.injEq, exists_eq_left', hsame,
      exists_eq_left, calculateFee_full hp hfull, hfull, forall_const]
  · have hproper : p.transferFeeBasisPoints.toNat < maxFeeBasisPoints := lt_of_le_of_ne hp hfull
    exact ⟨fun _ h => absurd h hfull, fun _ => delivers_of_proper hproper hamount⟩

/-- All of the amount is charged, up to five: 15 leaves 10, but 10 and an inverse fee of
zero does not. -/
theorem calculateInverseFee_delivers_fails :
    (⟨0, 5, 10000⟩ : TransferFee).calculatePostFeeAmount 15 = some 10 ∧
      ¬ (⟨0, 5, 10000⟩ : TransferFee).Delivers 10 := by
  refine ⟨by decide, ?_⟩
  rintro ⟨fee, hinverse, amount, hsum, hfee⟩
  obtain rfl : (0 : UInt64) = fee := Option.some.inj (by rw [← hinverse]; decide)
  obtain rfl : (10 : UInt64) = amount := Option.some.inj (by rw [← hsum]; decide)
  exact absurd hfee (by decide)

theorem calculateInverseFee_delivers_ten : (⟨0, 100, 1000⟩ : TransferFee).Delivers 9 :=
  (calculateInverseFee_delivers_iff (p := ⟨0, 100, 1000⟩) (by decide) 9 ⟨11, by decide⟩).mpr
    fun h => absurd h (by decide)

/-! ### There and back -/

/-- Quoting the fee from what an amount leaves never overcharges, and undershoots by
at most what one rounding step of the rate covers. -/
theorem calculateInverseFee_round_trip {p : TransferFee}
    (hp : p.transferFeeBasisPoints.toNat < maxFeeBasisPoints) (amount : UInt64) :
    ∃ fee fee', p.calculateFee amount = some fee ∧
      (p.calculatePostFeeAmount amount).bind p.calculateInverseFee = some fee' ∧
      fee' ≤ fee ∧
      fee.toNat ≤ fee'.toNat + 10000 ⌈/⌉ (10000 - p.transferFeeBasisPoints.toNat) - 1 := by
  obtain ⟨post, hpost⟩ := exists_calculatePostFeeAmount (.of_lt hp) amount
  obtain ⟨least, hleast⟩ := exists_calculatePreFeeAmount hp hpost
  have hmin := isLeast_preFeeAmount hp hleast
  have hfee := calculateFee_eq (.of_lt hp) amount
  have hfee' := calculateFee_eq (.of_lt hp) least
  refine ⟨_, .ofNat (feeOf (.of_lt hp) least), hfee, ?_, ?_, ?_⟩
  · simp only [hpost, Option.bind_some, calculateInverseFee, hleast, Option.bind_eq_bind, hfee']
  · have hle := hmin.2 hpost
    have hmono := (RateBounded.feeSpecified (.of_lt hp)).mono least amount _ _ hle hfee' hfee
    exact hmono.1
  · -- Both leave `post`, so that their fees differ as the amounts do
    have hrest := (calculatePostFeeAmount_eq_some_iff (.of_lt hp) amount).mp hpost
    have hrest' := (calculatePostFeeAmount_eq_some_iff (.of_lt hp) least).mp hmin.1
    have hsum := rest_add_taken (q := p.rate (.of_lt hp)) (m := p.maximumFee.toNat) amount.toNat
    have hsum' := rest_add_taken (q := p.rate (.of_lt hp)) (m := p.maximumFee.toNat) least.toNat
    have hlt := lt_gross_add (m := p.maximumFee.toNat) (rate_proper hp) amount.toNat
    rw [hrest, ← (calculatePreFeeAmount_eq_some_iff hp).mp hleast] at hlt
    have hone : uncapped (p.rate (.of_lt hp)) 1 = 10000 ⌈/⌉ (10000 - p.transferFeeBasisPoints.toNat) := by
      rw [uncapped, Nat.one_mul]
      rfl
    rw [toNat_feeOf, toNat_feeOf, ← hone]
    unfold feeOf
    omega

/-- At one third of the whole, 5 and 6 leave 3. -/
theorem calculateInverseFee_round_trip_third :
    ∃ fee fee', (⟨0, 100, 3334⟩ : TransferFee).calculateFee 5 = some fee ∧
      ((⟨0, 100, 3334⟩ : TransferFee).calculatePostFeeAmount 5).bind
        (⟨0, 100, 3334⟩ : TransferFee).calculateInverseFee = some fee' ∧
      fee' ≤ fee ∧ fee.toNat ≤ fee'.toNat + 1 := by
  obtain ⟨fee, fee', hfee, hfee', hle, hgap⟩ :=
    calculateInverseFee_round_trip (p := ⟨0, 100, 3334⟩) (by decide) 5
  exact ⟨fee, fee', hfee, hfee', hle, hgap⟩

end TransferFee

end BarkToken
