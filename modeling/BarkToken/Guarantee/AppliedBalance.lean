import BarkToken.Guarantee.ConfidentialEffect
import BarkToken.Guarantee.ConfidentialState
import BarkToken.Guarantee.PendingBalance
import BarkToken.Program.Replay

/-!
# Applying a pending balance that may have grown
(extension/confidential_transfer/processor.rs:962-1008,
extension/confidential_transfer/instruction.rs:269-295)

The owner computes the new balance from a snapshot, and the credit counter tells whether
the snapshot was still right. Withheld fees go into the available balance, which it does
not count.
-/

namespace BarkToken
open Fallible CheckedWord AccountData

/-! ### What the owner can decrypt -/

/-- `decrypt_u32` finds nothing but amounts below `2^32`, and the AES key decrypts what it
has encrypted. -/
structure OwnerKeys.OpensFor (keys : OwnerKeys) (D : Decryption Scalar) (p : ElGamalPubkey) : Prop where
  decryptU32 : ∀ {c n}, keys.decryptU32 c = some n → n.toNat < 2 ^ 32 ∧ D.decrypt p c = n.toNat
  aeDecrypt : ∀ n, keys.aeDecrypt (keys.aeEncrypt n) = some n

/-- The balance that the owner decrypts is the available balance. -/
def ConfidentialTransferAccount.Agrees (e : ConfidentialTransferAccount) (D : Decryption Scalar)
    (keys : OwnerKeys) : Prop :=
  ∃ n, keys.aeDecrypt e.decryptableAvailableBalance = some n ∧
    D.decrypt e.elgamalPubkey e.availableBalance = value Scalar n

section Snapshot

variable {D : Decryption Scalar} {keys : OwnerKeys} {p : ElGamalPubkey}
  {i : ApplyPendingBalanceAccountInfo} {balance : AeCiphertext}

theorem decryptPending_eq_ok (hkeys : keys.OpensFor D p) {c : ElGamalCiphertext} {n : UInt64}
    (h : ApplyPendingBalanceAccountInfo.decryptPending keys c = .ok n) :
    n.toNat < 2 ^ 32 ∧ D.decrypt p c = value Scalar n := by
  simp only [ApplyPendingBalanceAccountInfo.decryptPending, ensure_bind_eq_ok, okOr_eq_ok] at h
  exact hkeys.decryptU32 h.2

/-- The new balance is the old one with what is pending in the snapshot. -/
theorem newDecryptableAvailableBalance_eq_ok (hkeys : keys.OpensFor D p)
    (h : i.newDecryptableAvailableBalance keys = .ok balance) :
    ∃ n m, keys.aeDecrypt i.decryptableAvailableBalance = some n ∧ keys.aeDecrypt balance = some m ∧
      value Scalar m = value Scalar n +
        (D.decrypt p i.pendingBalanceLo + 2 ^ 16 * D.decrypt p i.pendingBalanceHi) := by
  simp only [ApplyPendingBalanceAccountInfo.newDecryptableAvailableBalance, bind_eq_ok, okOr_eq_ok,
    pure_eq_ok] at h
  obtain ⟨lo, hlo, hi, hhi, pending, hpending, n, hn, m, hm, rfl⟩ := h
  obtain ⟨-, hlo⟩ := decryptPending_eq_ok hkeys hlo
  obtain ⟨hbound, hhi⟩ := decryptPending_eq_ok hkeys hhi
  simp only [ApplyPendingBalanceAccountInfo.decryptedAvailableBalance, ensure_bind_eq_ok,
    okOr_eq_ok] at hn
  have hcombined := combineBalances_eq_some.mp hpending
  rw [Nat.mod_eq_of_lt (hbound.trans (by decide))] at hcombined
  have hsum : m.toNat = n.toNat + (lo.toNat + 2 ^ 16 * hi.toNat) := by
    rw [checkedAdd_eq_some.mp hm, hcombined]
    rfl
  refine ⟨n, m, hn.2, hkeys.aeDecrypt m, ?_⟩
  rw [hlo, hhi, value, hsum]
  simp only [value]
  push_cast
  ring

end Snapshot

/-! ### Between the snapshot and the instruction -/

/-- What its owner does with a confidential balance, but for deposits to it. -/
def TokenInstruction.usesBalance : TokenInstruction → Bool
  | emptyAccount _ | withdraw _ _ _ _ | confidentialTransfer _ _
  | confidentialTransferWithSplitProofs _ _ _ _ | applyPendingBalance _ _ | closeAccount => true
  | _ => false

theorem IsConfidentialTransfer.usesBalance {ix : TokenInstruction} {data : ConfidentialTransferData}
    (h : IsConfidentialTransfer ix data) : ix.usesBalance = true := by
  cases h <;> rfl

/-- The owner of `k` uses its confidential balance. -/
def Call.UsesBalance (c : Call) (k : Pubkey) : Prop := c.key 0 = some k ∧ c.ix.usesBalance = true

/-- The withheld fees that a call pays into the available balance of `k`. -/
def Call.paysWithheld (D : Decryption Scalar) (k : Pubkey) (c : Call) (_ : Ledger) : List Scalar :=
  (c.withheldPayment k).toList.map fun p => D.decrypt p.destinationPubkey p.destinationCiphertext

/-- All payments together. -/
def totalPaid (paid : List Scalar) : Scalar := paid.foldr (fun v total => v + total) 0

theorem totalPaid_append (paid more : List Scalar) :
    totalPaid (paid ++ more) = totalPaid paid + totalPaid more := by
  induction paid with
  | nil => simp [totalPaid]
  | cons v paid ih =>
    have hcons (vs : List Scalar) : totalPaid (v :: vs) = v + totalPaid vs := rfl
    rw [List.cons_append, hcons, hcons, ih, add_assoc]

/-- An account since a snapshot `e₀` of it: its available balance has grown by what was
paid, and what is pending is what it was, or has been counted. -/
structure SinceSnapshot (D : Decryption Scalar) (e₀ e : ConfidentialTransferAccount) (paid : Scalar) :
    Prop where
  key : e.elgamalPubkey = e₀.elgamalPubkey
  available : D.decrypt e₀.elgamalPubkey e.availableBalance =
    D.decrypt e₀.elgamalPubkey e₀.availableBalance + paid
  counter : e₀.pendingBalanceCreditCounter.toNat ≤ e.pendingBalanceCreditCounter.toNat
  pending : e.pendingBalanceCreditCounter = e₀.pendingBalanceCreditCounter →
    e.pendingBalanceLo = e₀.pendingBalanceLo ∧ e.pendingBalanceHi = e₀.pendingBalanceHi

section Window

variable {D : Decryption Scalar} {e₀ e e' : ConfidentialTransferAccount} {paid : Scalar} {c : Call}
  {k : Pubkey}

theorem SinceSnapshot.refl (e : ConfidentialTransferAccount) : SinceSnapshot D e e 0 :=
  ⟨rfl, (add_zero _).symm, Nat.le_refl _, fun _ => ⟨rfl, rfl⟩⟩

/-- A counted credit leaves the snapshot behind. -/
theorem SinceSnapshot.counted (h : SinceSnapshot D e₀ e paid)
    (hcounted : ConfidentialTransferAccount.Counted e e')
    (havailable : e'.availableBalance = e.availableBalance) : SinceSnapshot D e₀ e' paid := by
  have hcounter := hcounted.counter
  have hle := h.counter
  refine ⟨hcounted.elgamalPubkey.trans h.key, ?_, by omega, fun hsame => ?_⟩
  · rw [havailable]
    exact h.available
  · rw [hsame] at hcounter
    omega

theorem deposited_available {zk : ZkOps} {amount : UInt64} (h : e.deposited zk amount = .ok e') :
    e'.availableBalance = e.availableBalance := by
  simp only [ConfidentialTransferAccount.deposited,
    ConfidentialTransferAccount.incrementPendingBalanceCreditCounter, bind_eq_ok, exists_unit,
    Prod.exists, pure_eq_ok] at h
  obtain ⟨-, lo, hi, -, a, -, b, -, counter, -, rfl⟩ := h
  rfl

theorem credited_available {zk : ZkOps} {p : TransferParts} (h : e.credited zk p = .ok e') :
    e'.availableBalance = e.availableBalance := by
  simp only [ConfidentialTransferAccount.credited,
    ConfidentialTransferAccount.incrementPendingBalanceCreditCounter, bind_eq_ok, exists_unit,
    pure_eq_ok] at h
  obtain ⟨-, a, -, b, -, counter, -, rfl⟩ := h
  rfl

theorem charged_available {zk : ZkOps} {lo hi : FeeEncryption} (h : e.charged zk lo hi = .ok e') :
    e'.availableBalance = e.availableBalance := by
  simp only [ConfidentialTransferAccount.charged, bind_eq_ok, pure_eq_ok] at h
  obtain ⟨a, -, b, -, rfl⟩ := h
  rfl

/-- The one effect that is not counted. -/
theorem SinceSnapshot.paidWithheld (hD : D.Homomorphic c.x.zk) (h : SinceSnapshot D e₀ e paid)
    {p : CiphertextCiphertextEqualityProofContext} {feeConfig : ConfidentialTransferFeeConfig}
    {withheldAmount : ElGamalCiphertext} {balance : AeCiphertext}
    (hpaid : e.paidWithheld c.x.zk p feeConfig withheldAmount balance = .ok e') :
    SinceSnapshot D e₀ e' (paid + D.decrypt p.destinationPubkey p.destinationCiphertext) := by
  simp only [ConfidentialTransferAccount.paidWithheld, bind_eq_ok, exists_unit, ensure_eq_ok,
    okOr_eq_ok, pure_eq_ok] at hpaid
  obtain ⟨-, hkey, -, a, ha, rfl⟩ := hpaid
  refine ⟨h.key, ?_, h.counter, h.pending⟩
  rw [hkey, h.key, hD.add ha, h.available, add_assoc]

theorem totalPaid_of_none (h : c.withheldPayment k = none) (l' : Ledger) :
    totalPaid (c.paysWithheld D k l') = 0 := by
  rw [Call.paysWithheld, h]
  rfl

theorem totalPaid_of_some {p : CiphertextCiphertextEqualityProofContext}
    (h : c.withheldPayment k = some p) (l' : Ledger) : totalPaid (c.paysWithheld D k l') =
      D.decrypt p.destinationPubkey p.destinationCiphertext := by
  rw [Call.paysWithheld, h]
  exact add_zero _

/-- What the snapshot is good for after one more instruction. -/
theorem ConfidentialEffect.sinceSnapshot {amount amount' : UInt64} {l' : Ledger}
    (hD : D.Homomorphic c.x.zk) (h : ConfidentialEffect c k e amount e' amount')
    (huses : ¬ c.UsesBalance k) (hsince : SinceSnapshot D e₀ e paid) :
    SinceSnapshot D e₀ e' (paid + totalPaid (c.paysWithheld D k l')) := by
  have hfree (hix : c.ix.paysWithheld = false) (hsince : SinceSnapshot D e₀ e' paid) :
      SinceSnapshot D e₀ e' (paid + totalPaid (c.paysWithheld D k l')) := by
    rwa [totalPaid_of_none (c.withheldPayment_eq_none hix k), add_zero]
  cases h with
  | kept hnone => rwa [totalPaid_of_none hnone, add_zero]
  | approved hix | allowConfidentialCredits hix | allowNonConfidentialCredits hix =>
    refine hfree (by rw [hix]; rfl) ?_
    exact ⟨hsince.key, hsince.available, hsince.counter, hsince.pending⟩
  | emptied hix hkey | applied hix hkey | withdrawn hix hkey =>
    exact absurd ⟨hkey, by rw [hix]; rfl⟩ huses
  | debited hix hkey | selfTransferred hix hkey =>
    exact absurd ⟨hkey, hix.usesBalance⟩ huses
  | deposited hix _ _ h =>
    refine hfree (by rw [hix]; rfl) ?_
    exact hsince.counted (e.deposited_counted h).2 (deposited_available h)
  | credited hix _ _ _ h =>
    refine hfree hix.paysWithheld ?_
    exact hsince.counted (e.credited_counted h) (credited_available h)
  | charged hix _ _ _ h hcharged =>
    refine hfree hix.paysWithheld ?_
    exact hsince.counted ((e.credited_counted h).charged hcharged)
      ((charged_available hcharged).trans (credited_available h))
  | paidWithheld hpays h =>
    rw [totalPaid_of_some hpays]
    exact hsince.paidWithheld hD h

end Window

/-! ### The run from the snapshot to the instruction -/

section Runs

variable {x : Externals} {D : Decryption Scalar} {k : Pubkey} {e₀ : ConfidentialTransferAccount}
  {l l' : Ledger}

/-- The account is still there, and has changed since the snapshot by counted credits and
by the payments. -/
def Snapshotted (D : Decryption Scalar) (k : Pubkey) (e₀ : ConfidentialTransferAccount) (l : Ledger)
    (paid : List Scalar) : Prop :=
  WellFormedLedger l ∧ ∃ (s : PodStateWithExtensions PodAccount) (e : ConfidentialTransferAccount),
    AccountAt l k s ∧ s.tlv.get .confidentialTransferAccount = some e ∧
      SinceSnapshot D e₀ e (totalPaid paid)

theorem Call.process_snapshotted {c : Call} {paid : List Scalar} (hD : D.Homomorphic c.x.zk)
    (huses : ¬ c.UsesBalance k) (h : Snapshotted D k e₀ c.ledger paid) (hok : c.process = .ok l') :
    Snapshotted D k e₀ l' (paid ++ c.paysWithheld D k l') := by
  obtain ⟨hl, s, e, hs, he, hsince⟩ := h
  have hclose : ¬ c.Closes k := fun hcloses => huses ⟨hcloses.2, by rw [hcloses.1]; rfl⟩
  obtain ⟨s', e', howner', hdata', he', heffect⟩ :=
    c.process_confidentialRecord hl hok hclose s e hs.owner hs.data he
  refine ⟨Call.process_wellFormed hl hok, s', e', ⟨howner', hdata'⟩, he', ?_⟩
  rw [totalPaid_append]
  exact heffect.sinceSnapshot hD huses hsince

/-- A run in which the owner does not use the balance, with what it pays into it. -/
abbrev UnusedRun (x : Externals) (D : Decryption Scalar) (k : Pubkey) :
    Ledger × List Scalar → List Event → Ledger × List Scalar → Prop :=
  RecordedRun x (fun c => c.Succeeds → ¬ c.UsesBalance k) (Call.paysWithheld D k)

theorem UnusedRun.snapshotted {state state' : Ledger × List Scalar} {events : List Event}
    (hD : D.Homomorphic x.zk) (hrun : UnusedRun x D k state events state')
    (h : Snapshotted D k e₀ state.1 state.2) : Snapshotted D k e₀ state'.1 state'.2 := by
  refine RecordedRun.invariant (Snapshotted D k e₀) (fun c l' paid hx hunused h hok => ?_)
    (fun l l' paid h hf => ?_) hrun h
  · exact Call.process_snapshotted (hx ▸ hD) (hunused ⟨l', hok⟩) h hok
  · obtain ⟨hl, s, e, hs, he, hsince⟩ := h
    obtain ⟨howner, hdata, -⟩ := (hf k).keeps hs.owner
    exact ⟨hf.wellFormed hl, s, e, ⟨howner, hdata.trans hs.data⟩, he, hsince⟩

/-- The account that `ApplyPendingBalance` names gets the new extension. -/
theorem Call.process_applied {c : Call} {counter : UInt64} {balance : AeCiphertext}
    {s s' : PodStateWithExtensions PodAccount} {e e' : ConfidentialTransferAccount}
    (h : c.process = .ok l') (hix : c.ix = .applyPendingBalance counter balance)
    (hkey : c.key 0 = some k) (hs : AccountAt c.ledger k s)
    (he : s.tlv.get .confidentialTransferAccount = some e) (hs' : AccountAt l' k s')
    (he' : s'.tlv.get .confidentialTransferAccount = some e') :
    e.applied c.x.zk counter balance = .ok e' := by
  obtain ⟨x, env, ix, accounts, l⟩ := c
  obtain rfl := hix
  have h : processApplyPendingBalance x.zk counter balance accounts l = .ok l' := h
  simp only [processApplyPendingBalance, updateConfidentialTransferAccount, bind_eq_ok, Prod.exists,
    exists_unit, nextAccountInfo_eq_ok] at h
  obtain ⟨info, rest, rfl, authorityInfo, signers, rfl, -, t, ht, -, f, hf, f', hf', hwrite⟩ := h
  obtain rfl : info.key = k := Option.some.inj hkey
  obtain ⟨-, rfl⟩ := Ledger.writeData_eq_ok.mp hwrite
  obtain rfl := AccountData.account.inj ((unpackAccount_eq_ok.mp ht).1.symm.trans hs.data)
  obtain rfl := Option.some.inj ((PodStateWithExtensions.getExtension_eq_ok.mp hf).symm.trans he)
  have hdata := hs'.data
  rw [Ledger.setData_self] at hdata
  obtain rfl := AccountData.account.inj hdata
  rw [PodStateWithExtensions.setExtension_tlv, TypedStore.get_put_self] at he'
  obtain rfl := Option.some.inj he'
  exact hf'

/-- The snapshot's balance is applied with its counter. -/
theorem SinceSnapshot.applied_agrees {zk : ZkOps} {e e' : ConfidentialTransferAccount} {paid : Scalar}
    {keys : OwnerKeys} {balance : AeCiphertext} (hD : D.Homomorphic zk)
    (hkeys : keys.OpensFor D e₀.elgamalPubkey) (hagrees : e₀.Agrees D keys)
    (hbalance : (ApplyPendingBalanceAccountInfo.new e₀).newDecryptableAvailableBalance keys = .ok balance)
    (hsince : SinceSnapshot D e₀ e paid)
    (happlied : e.applied zk e₀.pendingBalanceCreditCounter balance = .ok e')
    (hcounters : e'.expectedPendingBalanceCreditCounter = e'.actualPendingBalanceCreditCounter) :
    e'.Agrees D keys ↔ paid = 0 := by
  simp only [ConfidentialTransferAccount.applied, bind_eq_ok, okOr_eq_ok, pure_eq_ok] at happlied
  obtain ⟨a, ha, rfl⟩ := happlied
  obtain ⟨hlo, hhi⟩ := hsince.pending hcounters.symm
  obtain ⟨n, m, hn, hm, hvalue⟩ := newDecryptableAvailableBalance_eq_ok hkeys hbalance
  obtain ⟨n', hn', havailable⟩ := hagrees
  obtain rfl := Option.some.inj (hn'.symm.trans hn)
  have hnew : D.decrypt e.elgamalPubkey a = value Scalar m + paid := by
    rw [hsince.key, hD.addWithLoHi ha, hsince.available, havailable, hvalue, hlo, hhi]
    simp only [ApplyPendingBalanceAccountInfo.new]
    ring
  constructor
  · rintro ⟨m', hm', hagrees⟩
    obtain rfl := Option.some.inj (hm'.symm.trans hm)
    exact add_eq_left.mp (hnew.symm.trans hagrees)
  · rintro rfl
    exact ⟨m, hm, by rw [hnew, add_zero]⟩

/-- Whenever the counters are equal after `ApplyPendingBalance`, the new decryptable balance
is the available balance if and only if the withheld fees paid in since the snapshot come
to nothing. -/
theorem applyPendingBalance_agrees (hD : D.Homomorphic x.zk) {l₁ l₂ l₃ : Ledger}
    (hreach : Reachable x l₁) {s₁ : PodStateWithExtensions PodAccount}
    (hs₁ : AccountAt l₁ k s₁) (he₀ : s₁.tlv.get .confidentialTransferAccount = some e₀)
    {keys : OwnerKeys} (hkeys : keys.OpensFor D e₀.elgamalPubkey) (hagrees : e₀.Agrees D keys)
    {events : List Event} {paid : List Scalar} (hrun : UnusedRun x D k (l₁, []) events (l₂, paid))
    {balance : AeCiphertext}
    (hbalance : (ApplyPendingBalanceAccountInfo.new e₀).newDecryptableAvailableBalance keys = .ok balance)
    {env : Env} {accounts : List AccountInfo}
    (hkey : (Call.mk x env (.applyPendingBalance e₀.pendingBalanceCreditCounter balance) accounts
      l₂).key 0 = some k)
    (hok : (Call.mk x env (.applyPendingBalance e₀.pendingBalanceCreditCounter balance) accounts
      l₂).process = .ok l₃)
    {s₃ : PodStateWithExtensions PodAccount} {e₃ : ConfidentialTransferAccount}
    (hs₃ : AccountAt l₃ k s₃) (he₃ : s₃.tlv.get .confidentialTransferAccount = some e₃)
    (hcounters : e₃.expectedPendingBalanceCreditCounter = e₃.actualPendingBalanceCreditCounter) :
    e₃.Agrees D keys ↔ totalPaid paid = 0 := by
  obtain ⟨hl, s, e, hs, he, hsince⟩ :=
    hrun.snapshotted hD ⟨hreach.wellFormed, s₁, e₀, hs₁, he₀, .refl e₀⟩
  have happlied := Call.process_applied hok rfl hkey hs he hs₃ he₃
  exact hsince.applied_agrees hD hkeys hagrees hbalance happlied hcounters

end Runs

/-! ### Withheld fees paid in between -/

theorem logKeys_opensFor (p : ElGamalPubkey) : (logKeys p).OpensFor logDecryption p where
  decryptU32 := by
    intro c n h
    simp only [logKeys, Option.ite_none_right_eq_some, Option.some.injEq] at h
    obtain ⟨hlog, rfl⟩ := h
    have hword : (UInt64.ofNat (c.plaintextLog p)).toNat = c.plaintextLog p :=
      UInt64.toNat_ofNat_of_lt (hlog.trans (by decide))
    rw [hword]
    exact ⟨hlog, (plaintextLog_cast p c).symm⟩
  aeDecrypt n := by
    simp [logKeys]

/-- The withdraw withheld authority is `6`, and the first account has sent all that it had to
the second, which withholds a fee of one. -/
def withheldFeeCalls : List (Env × TokenInstruction × List AccountInfo) :=
  (.plain 0, .initializeTransferFeeConfig none (some ⟨6⟩) 1 1, [⟨⟨1⟩, false⟩]) ::
    (confidentialCalls 65537).tail ++ [wholeTransferCall 65537]

def withheldFeeLedger : Ledger := replay .logs withheldFeeCalls confidentialLedger

/-- The fee is paid into the first account. -/
def payWithheldCall : Env × TokenInstruction × List AccountInfo :=
  (.withProof (.ciphertextCiphertextEquality ⟨⟨⟨41⟩⟩, sourceKey, logCiphertext 1, logCiphertext 1⟩),
    .confidentialWithdrawFromAccounts 1 aeZero 1,
    [⟨⟨1⟩, false⟩, ⟨⟨2⟩, false⟩, ⟨instructionsSysvar, false⟩, ⟨⟨6⟩, true⟩, ⟨⟨3⟩, false⟩])

def paidWithheldLedger : Ledger := replay .logs [payWithheldCall] withheldFeeLedger

def applyNothingCall : Env × TokenInstruction × List AccountInfo :=
  (.plain 0, .applyPendingBalance 0 aeZero, [⟨⟨2⟩, false⟩, ⟨⟨7⟩, true⟩])

def appliedNothingLedger : Ledger := replay .logs [applyNothingCall] paidWithheldLedger

/-- Equal counters vouch for the decryptable balance, as the instruction documents. -/
def AppliedBalancesAgree : Prop :=
  ∀ (x : Externals) (D : Decryption Scalar) (keys : OwnerKeys) (k : Pubkey) (l₁ l₂ l₃ : Ledger)
    (s₁ s₃ : PodStateWithExtensions PodAccount) (e₀ e₃ : ConfidentialTransferAccount)
    (events : List Event) (paid : List Scalar) (env : Env) (accounts : List AccountInfo)
    (balance : AeCiphertext), D.Homomorphic x.zk → keys.OpensFor D e₀.elgamalPubkey →
    Reachable x l₁ → AccountAt l₁ k s₁ → s₁.tlv.get .confidentialTransferAccount = some e₀ →
    e₀.Agrees D keys → UnusedRun x D k (l₁, []) events (l₂, paid) →
    (ApplyPendingBalanceAccountInfo.new e₀).newDecryptableAvailableBalance keys = .ok balance →
    (Call.mk x env (.applyPendingBalance e₀.pendingBalanceCreditCounter balance) accounts l₂).key 0 =
      some k →
    (Call.mk x env (.applyPendingBalance e₀.pendingBalanceCreditCounter balance) accounts l₂).process =
      .ok l₃ →
    AccountAt l₃ k s₃ → s₃.tlv.get .confidentialTransferAccount = some e₃ →
    e₃.expectedPendingBalanceCreditCounter = e₃.actualPendingBalanceCreditCounter → e₃.Agrees D keys

/-- One token of withheld fees is paid in after the snapshot, and the counters do not show it. -/
theorem applyPendingBalance_agrees_fails : ¬ AppliedBalancesAgree := by
  intro hclaim
  have hunused : RunWhere .logs (fun c => c.Succeeds → ¬ c.UsesBalance ⟨2⟩) withheldFeeLedger
      [Event.ofCall payWithheldCall] paidWithheldLedger :=
    Transition.Run.single ⟨fun _ huses => absurd huses.2 (by decide), rfl⟩
  obtain ⟨paid, hrun⟩ := hunused.recordedRun (Call.paysWithheld logDecryption ⟨2⟩) []
  have hbefore : (withheldFeeLedger.confidentialAt ⟨2⟩).map (fun e => (e.elgamalPubkey,
      e.availableBalance, e.decryptableAvailableBalance, e.pendingBalanceLo, e.pendingBalanceHi,
      e.pendingBalanceCreditCounter)) =
        some (sourceKey, logCiphertext 0, aeZero, .zeroed, .zeroed, 0) := by
    decide +kernel
  have hafter : (appliedNothingLedger.confidentialAt ⟨2⟩).map (fun e => (e.availableBalance,
      e.decryptableAvailableBalance, e.expectedPendingBalanceCreditCounter,
      e.actualPendingBalanceCreditCounter)) = some (logCiphertext 1, aeZero, 0, 0) := by
    decide +kernel
  obtain ⟨e₀, he₀, hfields₀⟩ := Option.map_eq_some_iff.mp hbefore
  obtain ⟨s₁, hdata₁, hget₁⟩ := Ledger.confidentialAt_eq_some he₀
  simp only [Prod.mk.injEq] at hfields₀
  obtain ⟨hpubkey, havailable, hdecryptable, hlo, hhi, hcounter⟩ := hfields₀
  obtain ⟨e₃, he₃, hfields₃⟩ := Option.map_eq_some_iff.mp hafter
  obtain ⟨s₃, hdata₃, hget₃⟩ := Ledger.confidentialAt_eq_some he₃
  simp only [Prod.mk.injEq] at hfields₃
  obtain ⟨havailable₃, hdecryptable₃, hexpected, hactual⟩ := hfields₃
  have hkeys : (logKeys sourceKey).OpensFor logDecryption e₀.elgamalPubkey := by
    rw [hpubkey]
    exact logKeys_opensFor sourceKey
  have hagrees : e₀.Agrees logDecryption (logKeys sourceKey) := by
    refine ⟨0, by rw [hdecryptable]; rfl, ?_⟩
    rw [havailable, decrypt_logCiphertext, Nat.cast_zero, value_zero]
  have hbalance : (ApplyPendingBalanceAccountInfo.new e₀).newDecryptableAvailableBalance
      (logKeys sourceKey) =
      .ok aeZero := by
    rw [ApplyPendingBalanceAccountInfo.new, hlo, hhi, hcounter, hdecryptable]
    decide +kernel
  obtain ⟨l₃, hok⟩ : (Call.mk .logs applyNothingCall.1 applyNothingCall.2.1 applyNothingCall.2.2
      paidWithheldLedger).Succeeds := Call.succeeds_of_isOk (by decide +kernel)
  obtain rfl : appliedNothingLedger = l₃ := execute_of_process hok
  obtain ⟨n, hn, hwrong⟩ := hclaim .logs logDecryption (logKeys sourceKey) ⟨2⟩ withheldFeeLedger
    paidWithheldLedger appliedNothingLedger s₁ s₃ e₀ e₃ _ paid (.plain 0) applyNothingCall.2.2 aeZero
    logDecryption_homomorphic hkeys
    (confidentialLedger_genesis.reachable_replay withheldFeeCalls) ⟨by decide +kernel, hdata₁⟩ hget₁
    hagrees hrun hbalance rfl (by rw [hcounter]; exact hok) ⟨by decide +kernel, hdata₃⟩ hget₃
    (hexpected.trans hactual.symm)
  obtain rfl : n = 0 := by
    rw [hdecryptable₃] at hn
    exact (Option.some.inj hn).symm
  rw [havailable₃, decrypt_logCiphertext, value_zero] at hwrong
  exact absurd hwrong (by decide +kernel)

/-- The first account before its deposit is applied. -/
def depositedLedger : Ledger := replay .logs (confidentialCalls 65537).dropLast confidentialLedger

/-- The second account gets five tokens and deposits them. -/
def otherDepositCalls : List (Env × TokenInstruction × List AccountInfo) :=
  [(.plain 0, .mintTo 5 none, [⟨⟨1⟩, false⟩, ⟨⟨3⟩, false⟩, ⟨⟨5⟩, true⟩]),
   (.plain 0, .deposit 5 2, [⟨⟨3⟩, false⟩, ⟨⟨1⟩, false⟩, ⟨⟨8⟩, true⟩])]

def otherDepositedLedger : Ledger := replay .logs otherDepositCalls depositedLedger

theorem otherDepositCalls_record : ∀ c ∈ otherDepositCalls, ∀ l l',
    (Call.mk .logs c.1 c.2.1 c.2.2 l).paysWithheld logDecryption ⟨2⟩ l' = [] := by
  intro c hc l l'
  simp only [otherDepositCalls, List.mem_cons, List.not_mem_nil, or_false] at hc
  rcases hc with rfl | rfl <;> rfl

def applyDepositCall : Env × TokenInstruction × List AccountInfo :=
  (.plain 0, .applyPendingBalance 1 ((logKeys sourceKey).aeEncrypt 65537),
    [⟨⟨2⟩, false⟩, ⟨⟨7⟩, true⟩])

/-- A deposit of 65537 is applied, after another account's deposit since the snapshot. -/
theorem applyPendingBalance_agrees_deposit :
    ∃ e, (replay .logs [applyDepositCall] otherDepositedLedger).confidentialAt ⟨2⟩ = some e ∧
      e.Agrees logDecryption (logKeys sourceKey) := by
  have hbefore : (depositedLedger.confidentialAt ⟨2⟩).map (fun e => (e.elgamalPubkey,
      e.availableBalance, e.decryptableAvailableBalance, e.pendingBalanceLo, e.pendingBalanceHi,
      e.pendingBalanceCreditCounter)) =
        some (sourceKey, .zeroed, aeZero, logCiphertext 1, logCiphertext 1, 1) := by
    decide +kernel
  have hafter : ((replay .logs [applyDepositCall] otherDepositedLedger).confidentialAt ⟨2⟩).map
      (fun e => (e.expectedPendingBalanceCreditCounter, e.actualPendingBalanceCreditCounter)) =
        some (1, 1) := by
    decide +kernel
  obtain ⟨e₀, he₀, hfields₀⟩ := Option.map_eq_some_iff.mp hbefore
  obtain ⟨s₁, hdata₁, hget₁⟩ := Ledger.confidentialAt_eq_some he₀
  simp only [Prod.mk.injEq] at hfields₀
  obtain ⟨hpubkey, havailable, hdecryptable, hlo, hhi, hcounter⟩ := hfields₀
  obtain ⟨e₃, he₃, hfields₃⟩ := Option.map_eq_some_iff.mp hafter
  obtain ⟨s₃, hdata₃, hget₃⟩ := Ledger.confidentialAt_eq_some he₃
  obtain ⟨hexpected, hactual⟩ := Prod.mk.inj hfields₃
  have hkeys : (logKeys sourceKey).OpensFor logDecryption e₀.elgamalPubkey := by
    rw [hpubkey]
    exact logKeys_opensFor sourceKey
  have hagrees : e₀.Agrees logDecryption (logKeys sourceKey) := by
    refine ⟨0, by rw [hdecryptable]; rfl, ?_⟩
    rw [havailable, Decryption.zeroed, value_zero]
  have hbalance : (ApplyPendingBalanceAccountInfo.new e₀).newDecryptableAvailableBalance
      (logKeys sourceKey) = .ok ((logKeys sourceKey).aeEncrypt 65537) := by
    rw [ApplyPendingBalanceAccountInfo.new, hlo, hhi, hcounter, hdecryptable]
    decide +kernel
  obtain ⟨l₃, hok⟩ : (Call.mk .logs applyDepositCall.1 applyDepositCall.2.1 applyDepositCall.2.2
      otherDepositedLedger).Succeeds := Call.succeeds_of_isOk (by decide +kernel)
  obtain rfl : replay .logs [applyDepositCall] otherDepositedLedger = l₃ := execute_of_process hok
  have hok : (Call.mk .logs (.plain 0) (.applyPendingBalance e₀.pendingBalanceCreditCounter
      ((logKeys sourceKey).aeEncrypt 65537)) applyDepositCall.2.2 otherDepositedLedger).process =
        .ok (replay .logs [applyDepositCall] otherDepositedLedger) := by
    rw [hcounter]
    exact hok
  have hrun : UnusedRun .logs logDecryption ⟨2⟩ (depositedLedger, [])
      (otherDepositCalls.map Event.ofCall) (otherDepositedLedger, []) := by
    have hunused : ∀ c ∈ otherDepositCalls, ∀ l, (Call.mk .logs c.1 c.2.1 c.2.2 l).Succeeds →
        ¬ (Call.mk .logs c.1 c.2.1 c.2.2 l).UsesBalance ⟨2⟩ := by
      intro c hc l _ huses
      simp only [otherDepositCalls, List.mem_cons, List.not_mem_nil, or_false] at hc
      rcases hc with rfl | rfl <;> cases huses.2
    have hreplay := recordedRun_replay (P := fun c => c.Succeeds → ¬ c.UsesBalance ⟨2⟩)
      (Call.paysWithheld logDecryption ⟨2⟩) hunused depositedLedger []
    rwa [replayRecord_eq_nil otherDepositCalls_record] at hreplay
  have hkey : (Call.mk .logs (.plain 0) (.applyPendingBalance e₀.pendingBalanceCreditCounter
      ((logKeys sourceKey).aeEncrypt 65537)) applyDepositCall.2.2 otherDepositedLedger).key 0 =
        some ⟨2⟩ := rfl
  refine ⟨e₃, he₃, (applyPendingBalance_agrees logDecryption_homomorphic
    (confidentialLedger_genesis.reachable_replay _) ⟨by decide +kernel, hdata₁⟩ hget₁
    hkeys hagrees hrun hbalance hkey hok ⟨by decide +kernel, hdata₃⟩
    hget₃ (hexpected.trans hactual.symm)).mpr rfl⟩

end BarkToken
