import BarkToken.Conservation.Exponent
import BarkToken.Guarantee.BalanceParts
import BarkToken.Invariant.Markers

/-!
# Pending balances stay small (extension/confidential_transfer/processor.rs:304-339, 897-955)

Every credit adds at most 16 bits to the low pending balance and at most 32 bits to
the high one. A fee is taken out of the two parts separately, whether or not it is
smaller than the amount in both.
-/

namespace BarkToken
open Fallible CheckedWord AccountData

/-! ### The two pending balances -/

/-- Both parts are integers, and no larger than the credits that are counted. -/
structure PendingWithin (D : Decryption Scalar) (e : ConfidentialTransferAccount) : Prop where
  lo : Encrypts (D.decrypt e.elgamalPubkey e.pendingBalanceLo)
    (e.pendingBalanceCreditCounter.toNat * (2 ^ 16 - 1))
  hi : Encrypts (D.decrypt e.elgamalPubkey e.pendingBalanceHi)
    (e.pendingBalanceCreditCounter.toNat * (2 ^ 32 - 1))

/-- Two ciphertexts for `p` encrypt the low 16 bits of an amount and the rest of it. -/
structure SplitAmount (D : Decryption Scalar) (p : ElGamalPubkey) (lo hi : ElGamalCiphertext)
    (amount : ℕ) : Prop where
  lo : D.decrypt p lo = (amount % 2 ^ 16 : ℕ)
  hi : D.decrypt p hi = (amount / 2 ^ 16 : ℕ)

namespace Call

/-- The fee of the mint in second place, in this epoch. -/
def ChargesFee (c : Call) (t : TransferFee) : Prop :=
  ∃ mintKey m config, c.key 1 = some mintKey ∧ (c.ledger mintKey).data.unpackMint = .ok m ∧
    m.tlv.get .transferFeeConfig = some config ∧ t = config.getEpochFee c.env.epoch

/-- The proofs of a confidential transfer are honest: its ciphertexts encrypt an
amount of at most 48 bits and the fee on it, each in two parts. -/
def HonestTransfer (c : Call) (D : Decryption Scalar) : Prop :=
  ∀ p fee, c.Executes p fee → ∃ amount : UInt64, amount.toNat < 2 ^ 48 ∧
    SplitAmount D p.destination (transferAmountDestinationCiphertext p.ciphertextLo)
      (transferAmountDestinationCiphertext p.ciphertextHi) amount.toNat ∧
    ∀ q ∈ fee, ∃ t feeAmount, c.ChargesFee t ∧ t.calculateFee amount = some feeAmount ∧
      SplitAmount D p.destination (feeAmountDestinationCiphertext q.lo)
        (feeAmountDestinationCiphertext q.hi) feeAmount.toNat

/-- Both parts of the fee are covered by what the destination then has pending. -/
def CoversFee (c : Call) (D : Decryption Scalar) : Prop :=
  ∀ p q e, c.Executes p (some q) → c.key 0 ≠ c.key 2 → c.Credits e →
    (D.decrypt p.destination (feeAmountDestinationCiphertext q.lo)).val ≤
        (D.decrypt p.destination e.pendingBalanceLo).val +
          (D.decrypt p.destination (transferAmountDestinationCiphertext p.ciphertextLo)).val ∧
      (D.decrypt p.destination (feeAmountDestinationCiphertext q.hi)).val ≤
        (D.decrypt p.destination e.pendingBalanceHi).val +
          (D.decrypt p.destination (transferAmountDestinationCiphertext p.ciphertextHi)).val

end Call

variable {D : Decryption Scalar} {zk : ZkOps} {e e' : ConfidentialTransferAccount}

theorem PendingWithin.of_zeroed (hlo : e.pendingBalanceLo = .zeroed)
    (hhi : e.pendingBalanceHi = .zeroed) : PendingWithin D e := by
  refine ⟨?_, ?_⟩
  · rw [hlo, D.zeroed]
    exact encrypts_zero
  · rw [hhi, D.zeroed]
    exact encrypts_zero

/-- Changes to other fields. -/
theorem PendingWithin.congr (h : PendingWithin D e) (hkey : e'.elgamalPubkey = e.elgamalPubkey)
    (hlo : e'.pendingBalanceLo = e.pendingBalanceLo) (hhi : e'.pendingBalanceHi = e.pendingBalanceHi)
    (hcounter : e'.pendingBalanceCreditCounter = e.pendingBalanceCreditCounter) :
    PendingWithin D e' := by
  refine ⟨?_, ?_⟩
  · rw [hkey, hlo, hcounter]
    exact h.lo
  · rw [hkey, hhi, hcounter]
    exact h.hi

/-! ### Credits -/

/-- One more credit, of a low and a high part. -/
structure CreditedBy (D : Decryption Scalar) (e e' : ConfidentialTransferAccount) (lo hi : Scalar) :
    Prop where
  key : e'.elgamalPubkey = e.elgamalPubkey
  counter : e'.pendingBalanceCreditCounter.toNat = e.pendingBalanceCreditCounter.toNat + 1
  lo : D.decrypt e.elgamalPubkey e'.pendingBalanceLo = D.decrypt e.elgamalPubkey e.pendingBalanceLo + lo
  hi : D.decrypt e.elgamalPubkey e'.pendingBalanceHi = D.decrypt e.elgamalPubkey e.pendingBalanceHi + hi

theorem CreditedBy.pendingWithin {lo hi : Scalar} (h : CreditedBy D e e' lo hi)
    (he : PendingWithin D e) (hlo : Encrypts lo (2 ^ 16 - 1)) (hhi : Encrypts hi (2 ^ 32 - 1)) :
    PendingWithin D e' := by
  refine ⟨?_, ?_⟩
  · rw [h.key, h.lo, h.counter, Nat.succ_mul]
    exact he.lo.add hlo
  · rw [h.key, h.hi, h.counter, Nat.succ_mul]
    exact he.hi.add hhi

/-- A shift by zero leaves the ciphertext alone, which is what it encrypts as well. -/
theorem shiftCiphertext_addTo (hD : D.Homomorphic zk) {p : ElGamalPubkey} {a b : ElGamalCiphertext}
    {n : UInt64} (h : shiftCiphertext zk.addTo a n = .ok b) :
    D.decrypt p b = D.decrypt p a + value Scalar n := by
  unfold shiftCiphertext at h
  split at h
  case isTrue => exact hD.addTo (okOr_eq_ok.mp h)
  case isFalse hzero =>
    obtain rfl := Except.ok.inj h
    have hn : n = 0 := UInt64.le_antisymm (UInt64.not_lt.mp hzero) UInt64.zero_le
    rw [hn, value_zero, add_zero]

theorem verifyAndSplitDepositAmount_eq_ok {amount lo hi : UInt64}
    (h : verifyAndSplitDepositAmount amount = .ok (lo, hi)) :
    lo.toNat ≤ 2 ^ 16 - 1 ∧ hi.toNat ≤ 2 ^ 32 - 1 ∧ amount.toNat = lo.toNat + 2 ^ 16 * hi.toNat := by
  simp only [verifyAndSplitDepositAmount, ensure_bind_eq_ok, pure_eq_ok, Prod.mk.injEq] at h
  obtain ⟨hle, rfl, rfl⟩ := h
  have hbound : amount.toNat ≤ 281474976710655 := UInt64.le_iff_toNat_le.mp hle
  rw [toNat_and_low, toNat_shiftRight_low]
  omega

theorem ConfidentialTransferAccount.deposited_creditedBy (hD : D.Homomorphic zk) {amount : UInt64}
    (h : e.deposited zk amount = .ok e') : ∃ lo hi : UInt64,
      lo.toNat ≤ 2 ^ 16 - 1 ∧ hi.toNat ≤ 2 ^ 32 - 1 ∧ amount.toNat = lo.toNat + 2 ^ 16 * hi.toNat ∧
      CreditedBy D e e' (value Scalar lo) (value Scalar hi) := by
  simp only [deposited, incrementPendingBalanceCreditCounter, bind_eq_ok, exists_unit, Prod.exists,
    okOr_eq_ok, pure_eq_ok] at h
  obtain ⟨-, lo, hi, hsplit, a, ha, b, hb, counter, hcounter, rfl⟩ := h
  obtain ⟨hlo, hhi, hamount⟩ := verifyAndSplitDepositAmount_eq_ok hsplit
  refine ⟨lo, hi, hlo, hhi, hamount, rfl, ?_, shiftCiphertext_addTo hD ha, shiftCiphertext_addTo hD hb⟩
  exact checkedAdd_eq_some.mp hcounter

theorem ConfidentialTransferAccount.credited_creditedBy (hD : D.Homomorphic zk) {p : TransferParts}
    (h : e.credited zk p = .ok e') : p.destination = e.elgamalPubkey ∧ CreditedBy D e e'
      (D.decrypt p.destination (transferAmountDestinationCiphertext p.ciphertextLo))
      (D.decrypt p.destination (transferAmountDestinationCiphertext p.ciphertextHi)) := by
  simp only [credited, incrementPendingBalanceCreditCounter, bind_eq_ok, exists_unit, ensure_eq_ok,
    okOr_eq_ok, pure_eq_ok] at h
  obtain ⟨hkey, a, ha, b, hb, counter, hcounter, rfl⟩ := h
  rw [hkey]
  exact ⟨rfl, rfl, checkedAdd_eq_some.mp hcounter, hD.add ha, hD.add hb⟩

theorem SplitAmount.encrypts {p : ElGamalPubkey} {lo hi : ElGamalCiphertext} {amount : ℕ}
    (h : SplitAmount D p lo hi amount) (hamount : amount < 2 ^ 48) :
    Encrypts (D.decrypt p lo) (2 ^ 16 - 1) ∧ Encrypts (D.decrypt p hi) (2 ^ 32 - 1) :=
  ⟨⟨amount % 2 ^ 16, by omega, h.lo⟩, ⟨amount / 2 ^ 16, by omega, h.hi⟩⟩

/-- A bound on a pending balance is far below the order of the group. -/
theorem pendingBound_lt (n : UInt64) {b : ℕ} (hb : b ≤ 2 ^ 32 - 1) : n.toNat * b < groupOrder := by
  have hn : n.toNat < 2 ^ 64 := n.toNat_lt
  have hmul : n.toNat * b ≤ 2 ^ 64 * (2 ^ 32 - 1) := Nat.mul_le_mul hn.le hb
  unfold groupOrder
  omega

/-- A fee taken out of both parts of a credit. -/
theorem CreditedBy.charged_pendingWithin (hD : D.Homomorphic zk) {e₁ : ConfidentialTransferAccount}
    {lo hi : Scalar} {feeLo feeHi : FeeEncryption} {fee : ℕ} (h : CreditedBy D e e₁ lo hi)
    (he : PendingWithin D e) (hlo : Encrypts lo (2 ^ 16 - 1)) (hhi : Encrypts hi (2 ^ 32 - 1))
    (hcharged : e₁.charged zk feeLo feeHi = .ok e') (hfee : fee < 2 ^ 64)
    (hsplit : SplitAmount D e.elgamalPubkey (feeAmountDestinationCiphertext feeLo)
      (feeAmountDestinationCiphertext feeHi) fee)
    (hcoversLo : (D.decrypt e.elgamalPubkey (feeAmountDestinationCiphertext feeLo)).val ≤
      (D.decrypt e.elgamalPubkey e.pendingBalanceLo).val + lo.val)
    (hcoversHi : (D.decrypt e.elgamalPubkey (feeAmountDestinationCiphertext feeHi)).val ≤
      (D.decrypt e.elgamalPubkey e.pendingBalanceHi).val + hi.val) : PendingWithin D e' := by
  simp only [ConfidentialTransferAccount.charged, bind_eq_ok, okOr_eq_ok, pure_eq_ok] at hcharged
  obtain ⟨a, ha, b, hb, rfl⟩ := hcharged
  have hfeeLo : Encrypts (D.decrypt e.elgamalPubkey (feeAmountDestinationCiphertext feeLo))
      (2 ^ 16 - 1) := ⟨fee % 2 ^ 16, by omega, hsplit.lo⟩
  have hfeeHi : Encrypts (D.decrypt e.elgamalPubkey (feeAmountDestinationCiphertext feeHi))
      (2 ^ 48 - 1) := ⟨fee / 2 ^ 16, by omega, hsplit.hi⟩
  have hboundLo := pendingBound_lt e.pendingBalanceCreditCounter (b := 2 ^ 16 - 1) (by omega)
  have hboundHi := pendingBound_lt e.pendingBalanceCreditCounter (b := 2 ^ 32 - 1) (by omega)
  refine ⟨?_, ?_⟩
  · dsimp only
    rw [h.key, h.counter, Nat.succ_mul, hD.subtract ha, h.lo]
    exact he.lo.sub hlo hfeeLo hboundLo (by decide) (by decide) hcoversLo
  · dsimp only
    rw [h.key, h.counter, Nat.succ_mul, hD.subtract hb, h.hi]
    exact he.hi.sub hhi hfeeHi hboundHi (by decide) (by decide) hcoversHi

/-! ### One account in one instruction -/

section

variable {c : Call} {base : PodAccount}

theorem ConfidentialUpdate.pendingWithin {amount : UInt64} (hD : D.Homomorphic c.x.zk)
    (h : ConfidentialUpdate c base e e' amount) (he : PendingWithin D e) : PendingWithin D e' := by
  cases h with
  | approved => exact he.congr rfl rfl rfl rfl
  | allowConfidentialCredits => exact he.congr rfl rfl rfl rfl
  | allowNonConfidentialCredits => exact he.congr rfl rfl rfl rfl
  | emptied _ _ h =>
    simp only [ConfidentialTransferAccount.emptied, bind_eq_ok, exists_unit, pure_eq_ok] at h
    obtain ⟨-, -, -, rfl⟩ := h
    exact he.congr rfl rfl rfl rfl
  | applied _ _ h =>
    simp only [ConfidentialTransferAccount.applied, bind_eq_ok, pure_eq_ok] at h
    obtain ⟨a, -, rfl⟩ := h
    exact .of_zeroed rfl rfl
  | deposited _ _ _ _ _ _ h =>
    obtain ⟨lo, hi, hlo, hhi, -, hcredited⟩ := e.deposited_creditedBy hD h
    exact hcredited.pendingWithin he ⟨lo.toNat, hlo, rfl⟩ ⟨hi.toNat, hhi, rfl⟩
  | withdrawn _ _ _ _ _ _ h =>
    simp only [ConfidentialTransferAccount.withdrawn, bind_eq_ok, exists_unit, pure_eq_ok] at h
    obtain ⟨-, -, a, -, -, rfl⟩ := h
    exact he.congr rfl rfl rfl rfl

theorem ConfidentialTransferAccount.debited_pendingWithin {p : TransferParts}
    {balance : AeCiphertext} (h : e.debited zk p balance = .ok e') (he : PendingWithin D e) :
    PendingWithin D e' := by
  simp only [debited, bind_eq_ok, exists_unit, pure_eq_ok] at h
  obtain ⟨-, a, -, -, rfl⟩ := h
  exact he.congr rfl rfl rfl rfl

/-- A credit of a transfer with honest proofs. -/
theorem ConfidentialTransferAccount.credited_pendingWithin (hD : D.Homomorphic c.x.zk)
    {p : TransferParts} {fee : Option FeeParts} (hexecutes : c.Executes p fee)
    (hhonest : c.HonestTransfer D) (h : e.credited c.x.zk p = .ok e') (he : PendingWithin D e) :
    PendingWithin D e' := by
  obtain ⟨amount, hamount, hsplit, -⟩ := hhonest p fee hexecutes
  obtain ⟨hlo, hhi⟩ := hsplit.encrypts hamount
  exact (credited_creditedBy hD h).2.pendingWithin he hlo hhi

theorem ConfidentialMove.pendingWithin (hD : D.Homomorphic c.x.zk) (hhonest : c.HonestTransfer D)
    (hcovers : c.CoversFee D) (h : ConfidentialMove c base e e') (he : PendingWithin D e) :
    PendingWithin D e' := by
  cases h with
  | debited _ _ _ h => exact e.debited_pendingWithin h he
  | credited _ hexecutes _ h => exact e.credited_pendingWithin hD hexecutes hhonest h he
  | @charged p q e₁ _ _ hexecutes hcredits hdistinct h hcharged =>
    obtain ⟨amount, hamount, hsplit, hfee⟩ := hhonest p (some q) hexecutes
    obtain ⟨t, fee, -, -, hfee⟩ := hfee q rfl
    obtain ⟨hcoversLo, hcoversHi⟩ := hcovers p q e hexecutes hdistinct hcredits
    obtain ⟨hlo, hhi⟩ := hsplit.encrypts hamount
    obtain ⟨hkey, hcredited⟩ := e.credited_creditedBy hD h
    rw [hkey] at hlo hhi hfee hcoversLo hcoversHi hcredited
    exact hcredited.charged_pendingWithin hD he hlo hhi hcharged fee.toNat_lt hfee hcoversLo hcoversHi
  | selfTransferred _ hexecutes _ _ h hcredited =>
    exact ConfidentialTransferAccount.credited_pendingWithin hD hexecutes hhonest hcredited
      (e.debited_pendingWithin h he)
  | paidWithheld _ _ h =>
    simp only [ConfidentialTransferAccount.paidWithheld, bind_eq_ok, exists_unit, pure_eq_ok] at h
    obtain ⟨-, -, -, a, -, rfl⟩ := h
    exact he.congr rfl rfl rfl rfl

/-! ### Ciphertexts from the syscalls -/

/-- Both pending balances are zeroes or come from a syscall. -/
def PendingReturned (zk : ZkOps) (e : ConfidentialTransferAccount) : Prop :=
  zk.Returns e.pendingBalanceLo ∧ zk.Returns e.pendingBalanceHi

theorem shiftCiphertext_returns {a b : ElGamalCiphertext} {n : UInt64} (ha : zk.Returns a)
    (h : shiftCiphertext zk.addTo a n = .ok b) : zk.Returns b := by
  unfold shiftCiphertext at h
  split at h
  case isTrue => exact .addTo (okOr_eq_ok.mp h)
  case isFalse =>
    obtain rfl := Except.ok.inj h
    exact ha

theorem ConfidentialTransferAccount.credited_returned {p : TransferParts}
    (h : e.credited zk p = .ok e') : PendingReturned zk e' := by
  simp only [credited, incrementPendingBalanceCreditCounter, bind_eq_ok, exists_unit, okOr_eq_ok,
    pure_eq_ok] at h
  obtain ⟨-, a, ha, b, hb, counter, -, rfl⟩ := h
  exact ⟨.add ha, .add hb⟩

theorem ConfidentialUpdate.returned {amount : UInt64}
    (h : ConfidentialUpdate c base e e' amount) (he : PendingReturned c.x.zk e) :
    PendingReturned c.x.zk e' := by
  cases h with
  | approved | allowConfidentialCredits | allowNonConfidentialCredits => exact he
  | emptied _ _ h =>
    simp only [ConfidentialTransferAccount.emptied, bind_eq_ok, exists_unit, pure_eq_ok] at h
    obtain ⟨-, -, -, rfl⟩ := h
    exact he
  | applied _ _ h =>
    simp only [ConfidentialTransferAccount.applied, bind_eq_ok, pure_eq_ok] at h
    obtain ⟨a, -, rfl⟩ := h
    exact ⟨.zeroed, .zeroed⟩
  | deposited _ _ _ _ _ _ h =>
    simp only [ConfidentialTransferAccount.deposited,
      ConfidentialTransferAccount.incrementPendingBalanceCreditCounter, bind_eq_ok, exists_unit,
      Prod.exists, pure_eq_ok] at h
    obtain ⟨-, lo, hi, -, a, ha, b, hb, counter, -, rfl⟩ := h
    exact ⟨shiftCiphertext_returns he.1 ha, shiftCiphertext_returns he.2 hb⟩
  | withdrawn _ _ _ _ _ _ h =>
    simp only [ConfidentialTransferAccount.withdrawn, bind_eq_ok, exists_unit, pure_eq_ok] at h
    obtain ⟨-, -, a, -, -, rfl⟩ := h
    exact he

theorem ConfidentialMove.returned (h : ConfidentialMove c base e e')
    (he : PendingReturned c.x.zk e) : PendingReturned c.x.zk e' := by
  cases h with
  | debited _ _ _ h =>
    simp only [ConfidentialTransferAccount.debited, bind_eq_ok, exists_unit, pure_eq_ok] at h
    obtain ⟨-, a, -, -, rfl⟩ := h
    exact he
  | credited _ _ _ h => exact e.credited_returned h
  | charged _ _ _ _ _ hcharged =>
    simp only [ConfidentialTransferAccount.charged, bind_eq_ok, okOr_eq_ok, pure_eq_ok] at hcharged
    obtain ⟨a, ha, b, hb, rfl⟩ := hcharged
    exact ⟨.subtract ha, .subtract hb⟩
  | selfTransferred _ _ _ _ _ hcredited =>
    exact ConfidentialTransferAccount.credited_returned hcredited
  | paidWithheld _ _ h =>
    simp only [ConfidentialTransferAccount.paidWithheld, bind_eq_ok, exists_unit, pure_eq_ok] at h
    obtain ⟨-, -, -, a, -, rfl⟩ := h
    exact he

/-! ### The extension of an account -/

variable {k : Pubkey} {lamports lamports' : UInt64} {s s' : PodStateWithExtensions PodAccount}

/-- What a newly configured extension has, and what every update and every move of it
preserves, holds after every change of its account. -/
theorem AccountChange.confidential_invariant (Inv : ConfidentialTransferAccount → Prop)
    (hnew : ∀ e, e.pendingBalanceLo = .zeroed → e.pendingBalanceHi = .zeroed → Inv e)
    (hupdate : ∀ {base e e' amount}, ConfidentialUpdate c base e e' amount → Inv e → Inv e')
    (hmove : ∀ {base e e'}, ConfidentialMove c base e e' → Inv e → Inv e')
    (h : AccountChange c k lamports lamports' s s')
    (hs : ∀ e, s.tlv.get .confidentialTransferAccount = some e → Inv e) :
    ∀ e, s'.tlv.get .confidentialTransferAccount = some e → Inv e := by
  have hcongr {ts : List ExtensionType} (htlv : Tlv.ChangesOnly ts s.tlv s'.tlv)
      (hts : .confidentialTransferAccount ∉ ts) :
      ∀ e, s'.tlv.get .confidentialTransferAccount = some e → Inv e :=
    fun e he => hs e (by rwa [← htlv.get _ hts])
  cases h with
  | kept | withdrawExcess | sync => exact hs
  | update _ h => exact hcongr h.changesOnly (by simp)
  | confidential _ h =>
    intro e he
    cases h with
    | configure _ _ _ _ hget _ hpending =>
      obtain rfl := Option.some.inj (hget.symm.trans he)
      exact hnew _ hpending.1 hpending.2.1
    | update hget h hs' =>
      rw [hs', PodStateWithExtensions.setExtension_tlv, TypedStore.get_put_self] at he
      obtain rfl := Option.some.inj he
      exact hupdate h (hs _ hget)
  | moved h =>
    cases h with
    | debit _ _ _ _ _ _ _ htlv => exact hcongr htlv (by simp)
    | credit _ _ _ _ _ _ htlv => exact hcongr htlv (by simp)
    | move _ hget hget' h =>
      intro e he
      obtain rfl := Option.some.inj (hget'.symm.trans he)
      exact hmove h (hs _ hget)
    | harvested _ _ _ htlv => exact hcongr htlv (by simp)

/-- Whatever encrypted balances an account has are small. -/
def PendingSmall (D : Decryption Scalar) (s : PodStateWithExtensions PodAccount) : Prop :=
  ∀ e, s.tlv.get .confidentialTransferAccount = some e → PendingWithin D e

theorem AccountChange.pendingSmall (hD : D.Homomorphic c.x.zk) (hhonest : c.HonestTransfer D)
    (hcovers : c.CoversFee D) (h : AccountChange c k lamports lamports' s s')
    (hs : PendingSmall D s) : PendingSmall D s' :=
  h.confidential_invariant (PendingWithin D) (fun _ => .of_zeroed) (fun h => h.pendingWithin hD)
    (fun h => h.pendingWithin hD hhonest hcovers) hs

end

/-! ### Every account, along a run -/

/-- All pending balances in the ledger are small. -/
def PendingBalancesSmall (D : Decryption Scalar) (l : Ledger) : Prop :=
  ∀ k s, AccountAt l k s → PendingSmall D s

theorem Call.process_pendingBalancesSmall {c : Call} {l' : Ledger} (hD : D.Homomorphic c.x.zk)
    (hl : WellFormedLedger c.ledger) (hhonest : c.HonestTransfer D) (hcovers : c.CoversFee D)
    (h : c.process = .ok l') (hsmall : PendingBalancesSmall D c.ledger) :
    PendingBalancesSmall D l' := by
  intro k s' hs'
  rcases Call.process_account_origin hl h hs' with
    ⟨s, hs, -, hchange⟩ | ⟨len, tlv, mint, howner, hdata, hhead, hnew⟩
  · exact hchange.pendingSmall hD hhonest hcovers (hsmall k s hs)
  · intro e he
    rw [hnew.get_eq_none ((hl k).of_zeroed howner hdata).2 hhead (Or.inl rfl)] at he
    simp at he

theorem ForeignStep.pendingBalancesSmall {l l' : Ledger} (h : ForeignStep l l')
    (hsmall : PendingBalancesSmall D l) : PendingBalancesSmall D l' :=
  fun k _ hs => hsmall k _ (h.accountAt hs)

/-- No handler writes a pending balance that a syscall has not returned. -/
theorem Reachable.pendingReturned {x : Externals} {l : Ledger} (h : Reachable x l) {k : Pubkey}
    {s : PodStateWithExtensions PodAccount} (hs : AccountAt l k s) :
    ∀ e, s.tlv.get .confidentialTransferAccount = some e → PendingReturned x.zk e := by
  refine h.every_account (fun s => ∀ e, s.tlv.get .confidentialTransferAccount = some e →
    PendingReturned x.zk e) ?_ ?_ k s hs
  · intro c k lamports tlv s mint hfresh hhead hnew e he
    rw [hnew.get_eq_none hfresh hhead (Or.inl rfl)] at he
    simp at he
  · rintro c k lamports lamports' s s' rfl hchange hs
    refine hchange.confidential_invariant (PendingReturned c.x.zk) (fun e hlo hhi => ?_)
      (fun h => h.returned) (fun h => h.returned) hs
    rw [PendingReturned, hlo, hhi]
    exact ⟨.zeroed, .zeroed⟩

theorem PendingWithin.decryptedPendingBalanceLo {keys : OwnerKeys} (h : PendingWithin D e)
    (hreturned : PendingReturned zk e) (hkeys : keys.DecryptsFor zk D e.elgamalPubkey)
    (hcounter : e.pendingBalanceCreditCounter.toNat ≤ 65536) :
    ∃ n, (ApplyPendingBalanceAccountInfo.new e).decryptedPendingBalanceLo keys = .ok n := by
  obtain ⟨n, hn, hdecrypt⟩ := h.lo
  have hbound : n < 2 ^ 32 := by
    have hmul := Nat.mul_le_mul_right (2 ^ 16 - 1) hcounter
    omega
  have hword : (UInt64.ofNat n).toNat = n := UInt64.toNat_ofNat_of_lt (by
    have hsize : UInt64.size = 2 ^ 64 := rfl
    omega)
  refine ⟨UInt64.ofNat n, ?_⟩
  change ApplyPendingBalanceAccountInfo.decryptPending keys e.pendingBalanceLo = _
  rw [ApplyPendingBalanceAccountInfo.decryptPending, ensure_bind_eq_ok, okOr_eq_ok]
  have hwellFormed := hkeys.wellFormed hreturned.1
  exact ⟨hwellFormed, hkeys.decryptU32 hwellFormed (by rwa [hword]) (by rw [hword, hdecrypt])⟩

/-- With ideal encryption and honest proofs, pending balances stay small and their
owner can decrypt them, as long as every fee is covered in both of its parts. -/
theorem pendingBalances_decryptable {x : Externals} {l₀ l : Ledger} {events : List Event}
    (hD : D.Homomorphic x.zk) (hgen : Genesis l₀)
    (hrun : RunWhere x (fun c => c.Succeeds → c.HonestTransfer D ∧ c.CoversFee D) l₀ events l)
    {k : Pubkey} {s : PodStateWithExtensions PodAccount} {e : ConfidentialTransferAccount}
    (hs : AccountAt l k s) (he : s.tlv.get .confidentialTransferAccount = some e) :
    PendingWithin D e ∧ PendingReturned x.zk e ∧
      ∀ keys : OwnerKeys, keys.DecryptsFor x.zk D e.elgamalPubkey →
        e.pendingBalanceCreditCounter.toNat ≤ 65536 →
        ∃ n, (ApplyPendingBalanceAccountInfo.new e).decryptedPendingBalanceLo keys = .ok n := by
  have hsmall : WellFormedLedger l ∧ PendingBalancesSmall D l := by
    refine RunWhere.invariant (fun l => WellFormedLedger l ∧ PendingBalancesSmall D l)
      (fun c l' hx hP hinv hok => ?_) (fun l l' hinv hf => ?_) hrun ⟨hgen.wellFormed, ?_⟩
    · obtain ⟨hhonest, hcovers⟩ := hP ⟨l', hok⟩
      exact ⟨Call.process_wellFormed hinv.1 hok,
        Call.process_pendingBalancesSmall (hx ▸ hD) hinv.1 hhonest hcovers hok hinv.2⟩
    · exact ⟨hf.wellFormed hinv.1, hf.pendingBalancesSmall hinv.2⟩
    · intro k s hs
      obtain ⟨len, hzero⟩ := hgen.zeroed k hs.owner
      exact absurd (hzero.symm.trans hs.data) (by simp)
  have hwithin := hsmall.2 k s hs e he
  have hreturned := Reachable.pendingReturned ⟨l₀, events, hgen, hrun.ledgerRun⟩ hs e he
  exact ⟨hwithin, hreturned, fun keys hkeys hcounter =>
    hwithin.decryptedPendingBalanceLo hreturned hkeys hcounter⟩

/-! ### A fee with a larger low part -/

theorem Call.honestTransfer_of_ix {c : Call} (h : ∀ data, ¬ IsConfidentialTransfer c.ix data) :
    c.HonestTransfer D := by
  intro p fee hexecutes
  cases hexecutes with
  | transfer hix => exact absurd hix (h _)
  | transferWithFee hix => exact absurd hix (h _)

theorem Call.coversFee_of_ix {c : Call} (h : ∀ data, ¬ IsConfidentialTransfer c.ix data) :
    c.CoversFee D := by
  intro p q e hexecutes
  cases hexecutes with
  | transferWithFee hix => exact absurd hix (h _)

/-- An amount of at most 48 bits moves with honest proofs, at the mint's own fee. -/
theorem wholeTransferCall_honest {amount : UInt64} (hpos : amount ≠ 0)
    (hbound : amount.toNat < 2 ^ 48) (l : Ledger) :
    (Call.mk .logs (wholeTransferCall amount.toNat).1 (wholeTransferCall amount.toNat).2.1
      (wholeTransferCall amount.toNat).2.2 l).HonestTransfer logDecryption := by
  intro p fee hexecutes
  obtain ⟨rfl, rfl, m, config, hm, hconfig, hrate, hmax⟩ := wholeTransferCall_executes hexecutes
  refine ⟨amount, hbound, ⟨decrypt_logCiphertext _ _, decrypt_logCiphertext _ _⟩, fun q hq => ?_⟩
  obtain rfl := Option.some.inj hq
  have hbounded : (config.getEpochFee 0).RateBounded := by
    rw [TransferFee.RateBounded, hrate]
    decide
  obtain ⟨feeAmount, hfee, hval⟩ := TransferFee.calculateFee_eq_some hbounded amount
  have hone : feeAmount.toNat = 1 := by
    rw [hval, hrate, hmax, TransferFee.dueFee]
    have hamount : 0 < amount.toNat := Nat.pos_of_ne_zero fun h => hpos (UInt64.toNat_inj.mp h)
    have hmin : 1 ≤ (amount.toNat * (1 : UInt16).toNat + (maxFeeBasisPoints - 1)) / maxFeeBasisPoints := by
      have hword : (1 : UInt16).toNat = 1 := rfl
      rw [hword]
      unfold maxFeeBasisPoints
      omega
    exact min_eq_right hmin
  refine ⟨_, feeAmount, ⟨⟨1⟩, m, config, rfl, hm, hconfig, rfl⟩, hfee, ?_, ?_⟩
  · rw [hone]
    exact decrypt_logCiphertext _ _
  · rw [hone]
    exact decrypt_logCiphertext _ _

/-- Honest proofs alone keep every pending balance small. -/
def PendingBalancesDecryptable : Prop :=
  ∀ (D : Decryption Scalar) (x : Externals) (l₀ l : Ledger) (events : List Event),
    D.Homomorphic x.zk → Genesis l₀ →
    RunWhere x (fun c => c.Succeeds → c.HonestTransfer D) l₀ events l → PendingBalancesSmall D l

/-- All of 65536 tokens go to another account, and the fee of one token is taken
from a low part of zero. -/
theorem pendingBalances_decryptable_fails : ¬ PendingBalancesDecryptable := by
  intro hclaim
  have hrun : RunWhere .logs (fun c => c.Succeeds → c.HonestTransfer logDecryption)
      confidentialLedger ((confidentialCalls 65536 ++ [wholeTransferCall 65536]).map Event.ofCall)
      (replay .logs (confidentialCalls 65536 ++ [wholeTransferCall 65536]) confidentialLedger) := by
    refine runWhere_replay (fun c hc l _ => ?_) _
    rcases List.mem_append.mp hc with hc | hc
    · exact Call.honestTransfer_of_ix (confidentialCalls_ix 65536 c hc)
    · obtain rfl := List.mem_singleton.mp hc
      exact @wholeTransferCall_honest 65536 (by decide) (by decide) l
  have hsmall := hclaim _ _ _ _ _ logDecryption_homomorphic confidentialLedger_genesis hrun
  have howner : (replay .logs (confidentialCalls 65536 ++ [wholeTransferCall 65536])
      confidentialLedger ⟨3⟩).owner = programId := by decide +kernel
  have hlast : ((replay .logs (confidentialCalls 65536 ++ [wholeTransferCall 65536])
      confidentialLedger).confidentialAt ⟨3⟩).map (fun e => (e.pendingBalanceLo,
        e.pendingBalanceCreditCounter)) = some (logCiphertext (groupOrder - 1), 1) := by
    decide +kernel
  obtain ⟨e, he, hpair⟩ := Option.map_eq_some_iff.mp hlast
  obtain ⟨hlo, hcounter⟩ := Prod.mk.inj hpair
  obtain ⟨s, hdata, hget⟩ := Ledger.confidentialAt_eq_some he
  obtain ⟨n, hn, hdecrypt⟩ := (hsmall ⟨3⟩ s ⟨howner, hdata⟩ e hget).lo
  rw [hlo, decrypt_logCiphertext] at hdecrypt
  rw [hcounter] at hn
  have hval := congrArg ZMod.val hdecrypt
  have hbound : n < groupOrder := hn.trans_lt (by decide)
  rw [val_natCast (by decide), val_natCast hbound] at hval
  have hlarge : (1 : UInt64).toNat * (2 ^ 16 - 1) < groupOrder - 1 := by decide
  omega

/-- With one token more, the low part covers the fee, and its owner decrypts it. -/
theorem pendingBalances_decryptable_covered :
    ∃ e, (replay .logs (confidentialCalls 65537 ++ [wholeTransferCall 65537])
        confidentialLedger).confidentialAt ⟨3⟩ = some e ∧ e.pendingBalanceCreditCounter = 1 ∧
      PendingWithin logDecryption e ∧ PendingReturned logOps e ∧
      ∃ n, (ApplyPendingBalanceAccountInfo.new e).decryptedPendingBalanceLo
        (logKeys destinationKey) = .ok n := by
  have hrun : RunWhere .logs
      (fun c => c.Succeeds → c.HonestTransfer logDecryption ∧ c.CoversFee logDecryption)
      confidentialLedger ((confidentialCalls 65537 ++ [wholeTransferCall 65537]).map Event.ofCall)
      (replay .logs (confidentialCalls 65537 ++ [wholeTransferCall 65537]) confidentialLedger) := by
    refine runWhere_replay (fun c hc l _ => ?_) _
    rcases List.mem_append.mp hc with hc | hc
    · have hix := confidentialCalls_ix 65537 c hc
      exact ⟨Call.honestTransfer_of_ix hix, Call.coversFee_of_ix hix⟩
    · obtain rfl := List.mem_singleton.mp hc
      refine ⟨@wholeTransferCall_honest 65537 (by decide) (by decide) l,
        fun p q e hexecutes _ _ => ?_⟩
      obtain ⟨rfl, hq, -⟩ := wholeTransferCall_executes hexecutes
      obtain rfl := Option.some.inj hq
      refine ⟨?_, ?_⟩
      · change (logDecryption.decrypt _ (logCiphertext 1)).val ≤
          _ + (logDecryption.decrypt _ (logCiphertext 1)).val
        omega
      · change (logDecryption.decrypt _ (logCiphertext 0)).val ≤ _
        rw [decrypt_logCiphertext, Nat.cast_zero, ZMod.val_zero]
        exact Nat.zero_le _
  have howner : (replay .logs (confidentialCalls 65537 ++ [wholeTransferCall 65537])
      confidentialLedger ⟨3⟩).owner = programId := by decide +kernel
  have hlast : ((replay .logs (confidentialCalls 65537 ++ [wholeTransferCall 65537])
      confidentialLedger).confidentialAt ⟨3⟩).map (fun e => (e.elgamalPubkey,
        e.pendingBalanceCreditCounter)) = some (destinationKey, 1) := by decide +kernel
  obtain ⟨e, he, hpair⟩ := Option.map_eq_some_iff.mp hlast
  obtain ⟨hkey, hcounter⟩ := Prod.mk.inj hpair
  obtain ⟨s, hdata, hget⟩ := Ledger.confidentialAt_eq_some he
  obtain ⟨hwithin, hreturned, hdecrypts⟩ := pendingBalances_decryptable logDecryption_homomorphic
    confidentialLedger_genesis hrun ⟨howner, hdata⟩ hget
  refine ⟨e, he, hcounter, hwithin, hreturned, hdecrypts (logKeys destinationKey) ?_ ?_⟩
  · rw [hkey]
    exact logKeys_decryptsFor destinationKey
  · rw [hcounter]
    decide

end BarkToken
