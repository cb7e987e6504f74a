import BarkToken.Conservation.Supply
import BarkToken.Guarantee.Backing
import BarkToken.Guarantee.PendingBalance

/-!
# The supply of a mint, with what is encrypted

With sound proofs, a ciphertext that leaves one balance is worth as much as the one that
enters another. So no instruction makes or loses tokens, in the open or encrypted.
-/

namespace BarkToken
open Fallible CheckedWord AccountData

/-! ### Sound proofs -/

/-- Source and destination decrypt the same part of the amount. -/
structure TransferAmountCiphertext.Encrypts (D : Decryption Scalar)
    (source destination : ElGamalPubkey) (c : TransferAmountCiphertext) (v : Scalar) : Prop where
  source : D.decrypt source (transferAmountSourceCiphertext c) = v
  destination : D.decrypt destination (transferAmountDestinationCiphertext c) = v

/-- Both keys decrypt the same part of the amount. -/
structure GroupedElGamalCiphertext2Handles.Encrypts (D : Decryption Scalar)
    (destination authority : ElGamalPubkey) (c : GroupedElGamalCiphertext2Handles) (v : Scalar) :
    Prop where
  destination : D.decrypt destination (feeAmountDestinationCiphertext c) = v
  authority : D.decrypt authority (feeAmountWithdrawWithheldAuthorityCiphertext c) = v

/-- What is used here of a complete proof. The other proofs are about ranges, or are
parts of a split proof. -/
def ProofContext.Sound (D : Decryption Scalar) : ProofContext → Prop
  | .zeroBalance c => D.decrypt c.pubkey c.ciphertext = 0
  | .transfer c =>
    (∃ lo, c.ciphertextLo.Encrypts D c.transferPubkeys.source c.transferPubkeys.destination lo) ∧
      ∃ hi, c.ciphertextHi.Encrypts D c.transferPubkeys.source c.transferPubkeys.destination hi
  | .transferWithFee c =>
    (∃ lo, c.ciphertextLo.Encrypts D c.transferWithFeePubkeys.source
        c.transferWithFeePubkeys.destination lo) ∧
      (∃ hi, c.ciphertextHi.Encrypts D c.transferWithFeePubkeys.source
        c.transferWithFeePubkeys.destination hi) ∧
      (∃ lo, c.feeCiphertextLo.Encrypts D c.transferWithFeePubkeys.destination
        c.transferWithFeePubkeys.withdrawWithheldAuthority lo) ∧
      ∃ hi, c.feeCiphertextHi.Encrypts D c.transferWithFeePubkeys.destination
        c.transferWithFeePubkeys.withdrawWithheldAuthority hi
  | .ciphertextCiphertextEquality c =>
    D.decrypt c.sourcePubkey c.sourceCiphertext = D.decrypt c.destinationPubkey c.destinationCiphertext
  | _ => True

/-- Every context that the call can be given is of a sound proof. -/
def Call.ProofsSound (c : Call) (D : Decryption Scalar) : Prop := ∀ p, c.Provides p → p.Sound D

def TokenInstruction.hasSplitProofs : TokenInstruction → Bool
  | confidentialTransferWithSplitProofs _ _ _ _ => true
  | _ => false

/-- The parts that a transfer moves, and its fee. -/
structure SoundTransfer (D : Decryption Scalar) (p : TransferParts) (fee : Option FeeParts) :
    Prop where
  lo : ∃ v, p.ciphertextLo.Encrypts D p.source p.destination v
  hi : ∃ v, p.ciphertextHi.Encrypts D p.source p.destination v
  fee : ∀ q ∈ fee, (∃ v, q.lo.Encrypts D p.destination q.withdrawWithheldAuthority v) ∧
    ∃ v, q.hi.Encrypts D p.destination q.withdrawWithheldAuthority v

variable {D : Decryption Scalar} {W : ElGamalPubkey} {M : Pubkey} {zk : ZkOps}

/-- A complete context is what the transfer executes. -/
theorem Call.soundTransfer {c : Call} {p : TransferParts} {fee : Option FeeParts}
    (hsound : c.ProofsSound D) (hsplit : c.ix.hasSplitProofs = false) (h : c.Executes p fee) :
    SoundTransfer D p fee := by
  obtain ⟨x, env, ix, accounts, l⟩ := c
  have hflags : ∀ {data}, IsConfidentialTransfer ix data →
      ¬ (data.proofInstructionOffset = 0 ∧ data.flags.splitProofContextStateAccounts = true) := by
    intro data hix hflag
    cases hix with
    | single => exact absurd hflag.2 (by simp [ConfidentialTransferData.single])
    | split => simp [TokenInstruction.hasSplitProofs] at hsplit
  cases h with
  | transfer hix haccounts hverified hcontext =>
    unfold verifyTransferProof at hverified
    rw [if_neg (hflags hix)] at hverified
    simp only [bind_eq_ok, Prod.exists, pure_eq_ok] at hverified
    obtain ⟨t, rest, ht, rfl⟩ := hverified
    obtain ⟨info, -, hread⟩ := verifyProof_eq_ok ht
    obtain rfl := Option.some.inj hcontext
    obtain ⟨hlo, hhi⟩ := hsound _ (Call.provides_of_context ProofContext.transfer?_eq_some hread)
    exact ⟨hlo, hhi, by simp⟩
  | transferWithFee hix haccounts hmint hconfig hverified hcontext =>
    unfold verifyTransferWithFeeProof at hverified
    rw [if_neg (hflags hix)] at hverified
    simp only [bind_eq_ok, Prod.exists, exists_unit, pure_eq_ok] at hverified
    obtain ⟨t, rest, ht, -, rfl⟩ := hverified
    obtain ⟨info, -, hread⟩ := verifyProof_eq_ok ht
    obtain rfl := Option.some.inj hcontext
    obtain ⟨hlo, hhi, hfeeLo, hfeeHi⟩ :=
      hsound _ (Call.provides_of_context ProofContext.transferWithFee?_eq_some hread)
    refine ⟨hlo, hhi, fun q hq => ?_⟩
    obtain rfl := Option.some.inj (Option.mem_def.mp hq)
    exact ⟨hfeeLo, hfeeHi⟩

/-! ### Balances -/

section Balances

variable {e e' : ConfidentialTransferAccount} (hD : D.Homomorphic zk)
include hD

theorem shiftCiphertext_subtractFrom {p : ElGamalPubkey} {a b : ElGamalCiphertext} {n : UInt64}
    (h : shiftCiphertext zk.subtractFrom a n = .ok b) :
    D.decrypt p b = D.decrypt p a - value Scalar n := by
  unfold shiftCiphertext at h
  split at h
  case isTrue => exact hD.subtractFrom (okOr_eq_ok.mp h)
  case isFalse hzero =>
    obtain rfl := Except.ok.inj h
    have hn : n = 0 := UInt64.le_antisymm (UInt64.not_lt.mp hzero) UInt64.zero_le
    rw [hn, value_zero, sub_zero]

namespace ConfidentialTransferAccount

theorem deposited_balance {amount : UInt64} (h : e.deposited zk amount = .ok e') :
    D.balance e' = D.balance e + value Scalar amount := by
  simp only [deposited, incrementPendingBalanceCreditCounter, bind_eq_ok, exists_unit, Prod.exists,
    okOr_eq_ok, pure_eq_ok] at h
  obtain ⟨-, lo, hi, hsplit, a, ha, b, hb, counter, -, rfl⟩ := h
  obtain ⟨-, -, hamount⟩ := verifyAndSplitDepositAmount_eq_ok hsplit
  have hvalue : value Scalar amount = value Scalar lo + 2 ^ 16 * value Scalar hi := by
    simp only [value, hamount]
    push_cast
    ring
  simp only [Decryption.balance, shiftCiphertext_addTo hD ha, shiftCiphertext_addTo hD hb, hvalue]
  ring

theorem withdrawn_balance {amount : UInt64} {p : WithdrawProofContext} {balance : AeCiphertext}
    (h : e.withdrawn zk amount p balance = .ok e') :
    D.balance e' = D.balance e - value Scalar amount := by
  simp only [withdrawn, bind_eq_ok, exists_unit, pure_eq_ok] at h
  obtain ⟨-, -, a, ha, -, rfl⟩ := h
  simp only [Decryption.balance, shiftCiphertext_subtractFrom hD ha]
  ring

theorem applied_balance {counter : UInt64} {balance : AeCiphertext}
    (h : e.applied zk counter balance = .ok e') : D.balance e' = D.balance e := by
  simp only [applied, bind_eq_ok, okOr_eq_ok, pure_eq_ok] at h
  obtain ⟨a, ha, rfl⟩ := h
  simp only [Decryption.balance, hD.addWithLoHi ha, D.zeroed]
  ring

theorem debited_balance {p : TransferParts} {balance : AeCiphertext} {lo hi : Scalar}
    (hlo : p.ciphertextLo.Encrypts D p.source p.destination lo)
    (hhi : p.ciphertextHi.Encrypts D p.source p.destination hi)
    (h : e.debited zk p balance = .ok e') : D.balance e' = D.balance e - (lo + 2 ^ 16 * hi) := by
  simp only [debited, bind_eq_ok, exists_unit, ensure_eq_ok, okOr_eq_ok, pure_eq_ok] at h
  obtain ⟨hkey, a, ha, -, rfl⟩ := h
  simp only [Decryption.balance, hD.subtractWithLoHi ha, ← hkey, hlo.source, hhi.source]
  ring

theorem credited_balance {p : TransferParts} {lo hi : Scalar}
    (hlo : p.ciphertextLo.Encrypts D p.source p.destination lo)
    (hhi : p.ciphertextHi.Encrypts D p.source p.destination hi)
    (h : e.credited zk p = .ok e') :
    e'.elgamalPubkey = p.destination ∧ D.balance e' = D.balance e + (lo + 2 ^ 16 * hi) := by
  simp only [credited, incrementPendingBalanceCreditCounter, bind_eq_ok, exists_unit, ensure_eq_ok,
    okOr_eq_ok, pure_eq_ok] at h
  obtain ⟨hkey, a, ha, b, hb, counter, -, rfl⟩ := h
  refine ⟨hkey.symm, ?_⟩
  simp only [Decryption.balance, hD.add ha, hD.add hb, ← hkey, hlo.destination, hhi.destination]
  ring

theorem charged_balance {q : FeeParts} {lo hi : Scalar}
    (hlo : q.lo.Encrypts D e.elgamalPubkey W lo) (hhi : q.hi.Encrypts D e.elgamalPubkey W hi)
    (h : e.charged zk q.lo q.hi = .ok e') : D.balance e' = D.balance e - (lo + 2 ^ 16 * hi) := by
  simp only [charged, bind_eq_ok, okOr_eq_ok, pure_eq_ok] at h
  obtain ⟨a, ha, b, hb, rfl⟩ := h
  simp only [Decryption.balance, hD.subtract ha, hD.subtract hb, hlo.destination, hhi.destination]
  ring

theorem paidWithheld_balance {p : CiphertextCiphertextEqualityProofContext}
    {feeConfig : ConfidentialTransferFeeConfig} {withheldAmount : ElGamalCiphertext}
    {balance : AeCiphertext} (hp : (ProofContext.ciphertextCiphertextEquality p).Sound D)
    (h : e.paidWithheld zk p feeConfig withheldAmount balance = .ok e') :
    D.balance e' = D.balance e +
      D.decrypt feeConfig.withdrawWithheldAuthorityElgamalPubkey withheldAmount := by
  simp only [paidWithheld, bind_eq_ok, exists_unit, ensure_eq_ok, okOr_eq_ok, pure_eq_ok] at h
  obtain ⟨hsource, hdestination, hamount, a, ha, rfl⟩ := h
  have hsame : D.decrypt p.sourcePubkey p.sourceCiphertext =
      D.decrypt p.destinationPubkey p.destinationCiphertext := hp
  simp only [Decryption.balance, hD.add ha, ← hsource, ← hamount, ← hdestination, hsame]
  ring

end ConfidentialTransferAccount

theorem ConfidentialTransferFeeAmount.withheld_decrypt {v w : ConfidentialTransferFeeAmount}
    {q : FeeParts} {p : ElGamalPubkey} {lo hi : Scalar} (hlo : q.lo.Encrypts D p W lo)
    (hhi : q.hi.Encrypts D p W hi) (h : v.withheld zk q.lo q.hi = .ok w) :
    D.decrypt W w.withheldAmount = D.decrypt W v.withheldAmount + (lo + 2 ^ 16 * hi) := by
  simp only [withheld, bind_eq_ok, okOr_eq_ok, pure_eq_ok] at h
  obtain ⟨a, ha, rfl⟩ := h
  rw [hD.addWithLoHi ha, hlo.authority, hhi.authority]

end Balances

theorem ConfidentialTransferAccount.emptied_balance {e e' : ConfidentialTransferAccount}
    {p : ZeroBalanceProofContext} (hp : (ProofContext.zeroBalance p).Sound D)
    (h : e.emptied p = .ok e') : D.balance e' = D.balance e := by
  simp only [emptied, bind_eq_ok, exists_unit, ensure_eq_ok, pure_eq_ok] at h
  obtain ⟨hkey, hbalance, hclosable, rfl⟩ := h
  obtain ⟨hlo, hhi, -⟩ := hclosable
  have hzero : D.decrypt p.pubkey p.ciphertext = 0 := hp
  dsimp only at hlo hhi
  simp only [Decryption.balance, hlo, hhi, hbalance, hkey, hzero, D.zeroed]

/-! ### What an account holds -/

section Held

variable {s s' : PodStateWithExtensions PodAccount} {e e' : ConfidentialTransferAccount}

/-- With another confidential extension. -/
theorem held_of_confidential (hget : s.tlv.get .confidentialTransferAccount = some e)
    (e' : ConfidentialTransferAccount) :
    held D W (s.setExtension .confidentialTransferAccount e') - held D W s =
      D.balance e' - D.balance e := by
  have hchange := Tlv.ChangesOnly.put (t := .confidentialTransferAccount) s.tlv e'
    (List.mem_singleton_self _)
  have hfee : withheldAmount (s.setExtension .confidentialTransferAccount e') = withheldAmount s :=
    withheldAmount_congr (hchange.get _ (by simp))
  have hwithheld : D.withheld W (s.setExtension .confidentialTransferAccount e').tlv =
      D.withheld W s.tlv := Decryption.withheld_congr (hchange.get _ (by simp))
  have hbefore : D.confidential s.tlv = D.balance e := by rw [Decryption.confidential, hget]
  have hafter : D.confidential (s.setExtension .confidentialTransferAccount e').tlv = D.balance e' := by
    rw [Decryption.confidential, PodStateWithExtensions.setExtension_tlv, TypedStore.get_put_self]
  rw [held, held, hfee, hwithheld, hbefore, hafter, PodStateWithExtensions.setExtension_base]
  ring

/-- With another encrypted withheld amount. -/
theorem held_of_confidentialFee {v : ConfidentialTransferFeeAmount}
    (hget : s.tlv.get .confidentialTransferFeeAmount = some v) (w : ConfidentialTransferFeeAmount) :
    held D W (s.setExtension .confidentialTransferFeeAmount w) - held D W s =
      D.decrypt W w.withheldAmount - D.decrypt W v.withheldAmount := by
  have hchange := Tlv.ChangesOnly.put (t := .confidentialTransferFeeAmount) s.tlv w
    (List.mem_singleton_self _)
  have hfee : withheldAmount (s.setExtension .confidentialTransferFeeAmount w) = withheldAmount s :=
    withheldAmount_congr (hchange.get _ (by simp))
  have hconfidential : D.confidential (s.setExtension .confidentialTransferFeeAmount w).tlv =
      D.confidential s.tlv := Decryption.confidential_congr (hchange.get _ (by simp))
  have hbefore : D.withheld W s.tlv = D.decrypt W v.withheldAmount := by
    rw [Decryption.withheld, hget]
  have hafter : D.withheld W (s.setExtension .confidentialTransferFeeAmount w).tlv =
      D.decrypt W w.withheldAmount := by
    rw [Decryption.withheld, PodStateWithExtensions.setExtension_tlv, TypedStore.get_put_self]
  rw [held, held, hfee, hconfidential, hbefore, hafter, PodStateWithExtensions.setExtension_base]
  ring

/-- A mint with another encrypted withheld amount. -/
theorem issued_of_confidentialWithheld {m : PodStateWithExtensions PodMint}
    {v : ConfidentialTransferFeeConfig} (hget : m.tlv.get .confidentialTransferFeeConfig = some v)
    (n : ElGamalCiphertext) :
    issued D W (m.setExtension .confidentialTransferFeeConfig { v with withheldAmount := n }) -
      issued D W m = D.decrypt W v.withheldAmount - D.decrypt W n := by
  have hfee : mintWithheldAmount (m.setExtension .confidentialTransferFeeConfig
      { v with withheldAmount := n }) = mintWithheldAmount m :=
    mintWithheldAmount_setExtension (by decide)
  have hbefore : D.mintWithheld W m.tlv = D.decrypt W v.withheldAmount := by
    rw [Decryption.mintWithheld, hget]
  have hafter : D.mintWithheld W (m.setExtension .confidentialTransferFeeConfig
      { v with withheldAmount := n }).tlv = D.decrypt W n := by
    rw [Decryption.mintWithheld, PodStateWithExtensions.setExtension_tlv, TypedStore.get_put_self]
  rw [issued, issued, hfee, hbefore, hafter, PodStateWithExtensions.setExtension_base]
  ring

/-! ### Instructions on one account -/

variable {c : Call} (hD : D.Homomorphic c.x.zk) (hsound : c.ProofsSound D)
include hD hsound

/-- What leaves the public amount enters the encrypted balance, and back. -/
theorem ConfidentialUpdate.balance_eq {base : PodAccount} {newAmount : UInt64}
    (h : ConfidentialUpdate c base e e' newAmount) :
    value Scalar newAmount + D.balance e' = value Scalar base.amount + D.balance e := by
  cases h with
  | approved | allowConfidentialCredits | allowNonConfidentialCredits => rfl
  | emptied hproof _ h =>
    rw [ConfidentialTransferAccount.emptied_balance (hsound _ hproof) h]
  | applied _ _ h => rw [ConfidentialTransferAccount.applied_balance hD h]
  | deposited _ _ _ _ _ hamount h =>
    rw [ConfidentialTransferAccount.deposited_balance hD h, value_add hamount.symm]
    ring
  | withdrawn _ _ _ _ _ hamount h =>
    rw [ConfidentialTransferAccount.withdrawn_balance hD h, value_add hamount]
    ring

theorem ConfidentialStep.held_eq (h : ConfidentialStep c s s') :
    s'.base.mint = s.base.mint ∧ held D W s' = held D W s := by
  cases h with
  | @configure e _ hnone hbase _ hget _ hzeroed _ hfee htlv _ =>
    obtain ⟨hlo, hhi, havailable⟩ := hzeroed
    refine ⟨by rw [hbase], ?_⟩
    have hconfidential : D.confidential s'.tlv = D.confidential s.tlv := by
      rw [Decryption.confidential, Decryption.confidential, hnone, hget]
      simp only [Decryption.balance, hlo, hhi, havailable, D.zeroed, mul_zero, add_zero]
    have hwithheld : D.withheld W s'.tlv = D.withheld W s.tlv := by
      rcases hfee with hsame | ⟨hno, hnew⟩
      · exact Decryption.withheld_congr hsame
      · rw [Decryption.withheld, Decryption.withheld, hno, hnew]
        exact D.zeroed W
    rw [held, held, hbase, withheldAmount_congr (htlv.get _ (by simp)), hconfidential, hwithheld]
  | @update e e' newAmount hget h hs =>
    have hbalance := h.balance_eq hD hsound
    have hheld := held_of_confidential (D := D) (W := W) hget e'
    subst hs
    refine ⟨rfl, ?_⟩
    simp only [held, withheldAmount, PodStateWithExtensions.setExtension] at hheld ⊢
    linear_combination hheld + hbalance

theorem LocalStep.contribution_eq {k : Pubkey} {r r' : AccountRecord} (hM : M ≠ nativeMint)
    (hr : WellFormed k r) (h : LocalStep c k r r') :
    contribution D W M k r' = contribution D W M k r := by
  cases h with
  | neutral h => exact h.contribution_eq hM hr
  | confidential howner howner' hdata hdata' _ h =>
    obtain ⟨hmint, hheld⟩ := h.held_eq hD hsound (W := W)
    exact contribution_eq_of_held howner howner' hdata hdata' hmint hheld

end Held

/-! ### Confidential transfers -/

section Transfers

variable {c : Call} {l₁ l₂ l' : Ledger} {p : TransferParts} {fee : Option FeeParts}
  {d d' : PodStateWithExtensions PodAccount} {f f' : ConfidentialTransferAccount}

/-- The encrypted fees of the mint `M` are for the key `W`, where it has any. -/
def WithheldFor (W : ElGamalPubkey) (M : Pubkey) (l : Ledger) : Prop :=
  ∀ m v, MintAt l M m → m.tlv.get .confidentialTransferFeeConfig = some v →
    v.withdrawWithheldAuthorityElgamalPubkey = W

/-- What is charged is withheld. -/
theorem FeeWithheld.held_eq (hD : D.Homomorphic zk) {q : FeeParts}
    {g : ConfidentialTransferAccount} {v w : ConfidentialTransferFeeAmount}
    (hget : d.tlv.get .confidentialTransferAccount = some f) {lo hi : Scalar}
    (hlo : q.lo.Encrypts D f'.elgamalPubkey W lo) (hhi : q.hi.Encrypts D f'.elgamalPubkey W hi)
    (h : FeeWithheld zk q d d' f' g v w) :
    held D W d' - held D W d = D.balance f' - D.balance f := by
  have hcharged := ConfidentialTransferAccount.charged_balance hD hlo hhi h.charged
  have hwithheld := ConfidentialTransferFeeAmount.withheld_decrypt hD hlo hhi h.withheld
  have hfirst := held_of_confidential (D := D) (W := W) hget g
  have hv : (d.setExtension .confidentialTransferAccount g).tlv.get .confidentialTransferFeeAmount =
      some v := by
    rw [PodStateWithExtensions.setExtension_tlv, TypedStore.get_put_of_ne _ _ (by decide)]
    exact h.extension
  have hsecond := held_of_confidentialFee (D := D) (W := W) hv w
  rw [← h.account] at hsecond
  linear_combination hfirst + hsecond + hcharged + hwithheld

/-- A settled destination holds what its credited balance gained. -/
theorem Settled.held_eq (hD : D.Homomorphic zk)
    (hget : d.tlv.get .confidentialTransferAccount = some f)
    (hfee : ∀ q ∈ fee, (∃ v, q.lo.Encrypts D f'.elgamalPubkey W v) ∧
      ∃ v, q.hi.Encrypts D f'.elgamalPubkey W v)
    (h : Settled zk d f' fee d') : held D W d' - held D W d = D.balance f' - D.balance f := by
  cases h with
  | free => exact held_of_confidential hget f'
  | charged h =>
    obtain ⟨⟨lo, hlo⟩, hi, hhi⟩ := hfee _ rfl
    exact h.held_eq hD hget hlo hhi

theorem ConfidentialMoved.imbalance_eq {source mintKey destination : Pubkey}
    {s : PodStateWithExtensions PodAccount} {e e' : ConfidentialTransferAccount}
    (hD : D.Homomorphic c.x.zk) (hsound : SoundTransfer D p fee) (hW : WithheldFor W M c.ledger)
    (hmint : (c.ledger mintKey).owner = programId)
    (h : ConfidentialMoved c l₁ l₂ source mintKey destination p fee s d d' e e' f f') :
    imbalance D W M l₂ = imbalance D W M l₁ := by
  obtain ⟨lo, hlo⟩ := hsound.lo
  obtain ⟨hi, hhi⟩ := hsound.hi
  have hs := h.sourceDebited
  have hd := h.destinationCredited
  obtain ⟨balance, hdebited⟩ := hs.debited
  have hout := ConfidentialTransferAccount.debited_balance hD hlo hhi hdebited
  obtain ⟨hkey, hin⟩ := ConfidentialTransferAccount.credited_balance hD hlo hhi hd.credited
  have hmint' : d'.base.mint = d.base.mint := by rw [hd.settled.account.1]
  have hkept : (s.setExtension .confidentialTransferAccount e').base.mint = s.base.mint := rfl
  have hsource := imbalance_setAccount (D := D) (W := W) (M := M) hs.owner hs.data hkept
  rw [held_of_confidential hs.extension e'] at hsource
  have hdestination := imbalance_setAccount (D := D) (W := W) (M := M) hd.owner hd.data hmint'
  rw [← hd.ledger, hsource, hs.mint, hd.mint] at hdestination
  rw [hdestination]
  by_cases hM : mintKey = M
  · subst hM
    have hfee : ∀ q ∈ chargedFee fee source destination,
        (∃ v, q.lo.Encrypts D f'.elgamalPubkey W v) ∧ ∃ v, q.hi.Encrypts D f'.elgamalPubkey W v := by
      intro q hq
      have hq : q ∈ fee := by
        unfold chargedFee at hq
        split at hq
        · simp at hq
        · exact hq
      obtain ⟨m, v, hm, hv, hfor⟩ := h.feeKey q hq
      have hwithheld := hW m v ⟨hmint, (unpackMint_eq_ok.mp hm).1⟩ hv
      have hencrypts := hsound.fee q hq
      rwa [hfor, hwithheld, ← hkey] at hencrypts
    rw [hd.settled.held_eq hD hd.extension hfee, share_self, share_self, hout, hin]
    ring
  · rw [share_of_ne hM, share_of_ne hM, add_zero, add_zero]

theorem processConfidentialTransfer_imbalance {x : Externals} {env : Env} {ix : TokenInstruction}
    {accounts : List AccountInfo} {l : Ledger} {data : ConfidentialTransferData}
    (hD : D.Homomorphic x.zk) (hsound : (Call.mk x env ix accounts l).ProofsSound D)
    (hsplit : ix.hasSplitProofs = false) (hW : WithheldFor W M l)
    (hix : IsConfidentialTransfer ix data)
    (h : processConfidentialTransfer x.zk env data accounts l = .ok l') :
    imbalance D W M l' = imbalance D W M l := by
  obtain ⟨source, mintKey, destination, l₂, ⟨hmint, l₁, hclosed, hmoved⟩, hhook, -⟩ :=
    processConfidentialTransfer_eq_ok hix h
  rw [hhook.imbalance_eq (by decide) (by decide) (by decide), ← hclosed.foreign.imbalance_eq]
  rcases hmoved with ⟨rfl, -⟩ | ⟨p, fee, s, d, d', e, e', f, f', hmoved⟩
  · rfl
  · exact hmoved.imbalance_eq hD (Call.soundTransfer hsound hsplit hmoved.executes) hW hmint

end Transfers

/-! ### Encrypted fees -/

section Fees

variable {c : Call} {l l' : Ledger} {mintKey destination : Pubkey} {infos : List AccountInfo}

theorem ConfidentialHarvested.imbalance_eq {k : Pubkey} {s : PodStateWithExtensions PodAccount}
    {amount : ElGamalCiphertext} (h : ConfidentialHarvested l l' mintKey k s amount) :
    imbalance D W M l' + share M mintKey (D.decrypt W amount) = imbalance D W M l := by
  have hkept : (s.setExtension .confidentialTransferFeeAmount ⟨.zeroed⟩).base.mint = s.base.mint :=
    rfl
  rw [h.ledger, imbalance_setAccount h.owner h.data hkept, held_of_confidentialFee h.withheld, h.mint,
    D.zeroed, zero_sub, map_neg]
  abel

theorem confidentialHarvestLoop_imbalance (hD : D.Homomorphic zk)
    {s t : ElGamalCiphertext × Ledger}
    (h : loop (harvestConfidentialInto zk mintKey) infos s = .ok t) :
    imbalance D W M t.2 + share M mintKey (D.decrypt W t.1) =
      imbalance D W M s.2 + share M mintKey (D.decrypt W s.1) := by
  refine loop_relation (fun s t : ElGamalCiphertext × Ledger =>
      imbalance D W M t.2 + share M mintKey (D.decrypt W t.1) =
        imbalance D W M s.2 + share M mintKey (D.decrypt W s.1))
    (fun _ => rfl) (fun _ _ _ hst htu => htu.trans hst) ?_ h
  rintro ⟨n, l⟩ info ⟨n', l'⟩ - hpass
  obtain ⟨-, ⟨rfl, rfl⟩ | ⟨s, amount, hharvested, hadd⟩⟩ := harvestConfidentialInto_eq_ok hpass
  · rfl
  · dsimp only
    rw [hD.add hadd, map_add, ← hharvested.imbalance_eq]
    abel

theorem processConfidentialHarvestToMint_imbalance {accounts : List AccountInfo}
    (hD : D.Homomorphic zk) (h : processConfidentialHarvestToMint zk accounts l = .ok l') :
    imbalance D W M l' = imbalance D W M l := by
  obtain ⟨mintKey, infos, m, v, n, l₁, hharvested⟩ := processConfidentialHarvestToMint_eq_ok h
  have hloop := confidentialHarvestLoop_imbalance (D := D) (W := W) (M := M) hD hharvested.loop
  have hdata : (l₁ mintKey).data = .mint m := by
    have hsame : l₁ mintKey = l mintKey := (confidentialHarvestLoop_kept hharvested.loop).2
    rw [hsame]
    exact (unpackMint_eq_ok.mp hharvested.mintData).1
  dsimp only at hloop
  rw [imbalance_writeMint hdata hharvested.write, issued_of_confidentialWithheld hharvested.config,
    map_sub, sub_sub_eq_add_sub, hloop]
  abel

/-- What the mint withholds is paid to the destination. -/
theorem ConfidentialMintFeesPaid.imbalance_eq {m : PodStateWithExtensions PodMint}
    {v : ConfidentialTransferFeeConfig} {d : PodStateWithExtensions PodAccount}
    {p : CiphertextCiphertextEqualityProofContext} {e e' : ConfidentialTransferAccount}
    (hD : D.Homomorphic c.x.zk) (hsound : c.ProofsSound D) (hW : WithheldFor W M c.ledger)
    (h : ConfidentialMintFeesPaid c l' mintKey destination m v d p e e') :
    imbalance D W M l' = imbalance D W M c.ledger := by
  obtain ⟨balance, hpaid⟩ := h.paid
  obtain ⟨l₁, hwrite, rfl⟩ := h.write
  have hbalance := ConfidentialTransferAccount.paidWithheld_balance hD (hsound _ h.proof) hpaid
  have hkept : (d.setExtension .confidentialTransferAccount e').base.mint = d.base.mint := rfl
  have hdestination := imbalance_writeAccount (D := D) (W := W) (M := M) h.data hkept hwrite
  have hsame : l₁ mintKey = c.ledger mintKey := by
    obtain ⟨-, rfl⟩ := Ledger.writeData_eq_ok.mp hwrite
    rw [Ledger.setData_of_ne (Ne.symm h.ne)]
  rw [imbalance_setMint (by rw [hsame]; exact h.mintOwner) (by rw [hsame]; exact h.mintData),
    hdestination, held_of_confidential h.extension, hbalance,
    issued_of_confidentialWithheld h.config, h.mint, D.zeroed]
  by_cases hM : mintKey = M
  · subst hM
    rw [hW m v ⟨h.mintOwner, h.mintData⟩ h.config, share_self, share_self]
    ring
  · rw [share_of_ne hM, share_of_ne hM, add_zero, sub_zero]

/-- The destination and the gathered fees together keep what the ledger loses. -/
theorem gatherLoop_imbalance (hD : D.Homomorphic zk) {s t : ConfidentialWithdrawal}
    (h : loop (gatherConfidential zk mintKey destination) infos s = .ok t) :
    imbalance D W M t.ledger + share M mintKey (held D W t.destination + D.decrypt W t.withheldAmount) =
      imbalance D W M s.ledger +
        share M mintKey (held D W s.destination + D.decrypt W s.withheldAmount) := by
  refine loop_relation (fun s t : ConfidentialWithdrawal =>
      imbalance D W M t.ledger +
          share M mintKey (held D W t.destination + D.decrypt W t.withheldAmount) =
        imbalance D W M s.ledger +
          share M mintKey (held D W s.destination + D.decrypt W s.withheldAmount))
    (fun _ => rfl) (fun _ _ _ hst htu => htu.trans hst) ?_ h
  intro s info t _ hpass
  rcases gatherConfidential_eq_ok hpass with ⟨v, hv, hledger, hdestination, hadd⟩ | rfl |
    ⟨account, amount, -, -, hharvested, hdestination, hadd⟩
  · have hheld := held_of_confidentialFee (D := D) (W := W) hv ⟨.zeroed⟩
    rw [D.zeroed] at hheld
    have hsum : held D W t.destination + D.decrypt W t.withheldAmount =
        held D W s.destination + D.decrypt W s.withheldAmount := by
      rw [hdestination, hD.add hadd]
      linear_combination hheld
    rw [hledger, hsum]
  · rfl
  · rw [hdestination, hD.add hadd, ← hharvested.imbalance_eq, ← add_assoc, map_add, map_add]
    abel

theorem ConfidentialAccountFeesPaid.imbalance_eq {v : ConfidentialTransferFeeConfig}
    {d : PodStateWithExtensions PodAccount} {p : CiphertextCiphertextEqualityProofContext}
    {gathered : ConfidentialWithdrawal} {e e' : ConfidentialTransferAccount}
    (hD : D.Homomorphic c.x.zk) (hsound : c.ProofsSound D) (hW : WithheldFor W M c.ledger)
    (h : ConfidentialAccountFeesPaid c l' mintKey destination infos v d p gathered e e') :
    imbalance D W M l' = imbalance D W M c.ledger := by
  obtain ⟨balance, hpaid⟩ := h.paid
  obtain ⟨m, hm, hv⟩ := h.config
  have hbalance := ConfidentialTransferAccount.paidWithheld_balance hD (hsound _ h.proof) hpaid
  have hloop := gatherLoop_imbalance (D := D) (W := W) (M := M) hD h.loop
  obtain ⟨hbase, -, -, -, hsame⟩ := gatherLoop h.loop
  dsimp only at hbase hsame hloop
  have hdata : (gathered.ledger destination).data = .account d := by rw [hsame, h.data]
  have hmint : (gathered.destination.setExtension .confidentialTransferAccount e').base.mint =
      d.base.mint := by rw [PodStateWithExtensions.setExtension_base, hbase]
  have hheld := held_of_confidential (D := D) (W := W) h.extension e'
  rw [imbalance_writeAccount hdata hmint h.write, h.mint]
  by_cases hM : mintKey = M
  · subst hM
    rw [hW m v ⟨h.mintOwner, hm⟩ hv] at hbalance
    rw [share_self, share_self, D.zeroed] at hloop
    rw [share_self]
    linear_combination hloop + hheld + hbalance
  · rw [share_of_ne hM, share_of_ne hM, add_zero, add_zero] at hloop
    rw [share_of_ne hM, add_zero, hloop]

end Fees

/-! ### Runs -/

section Runs

variable {c : Call} {l l' : Ledger}

/-- With sound proofs, every instruction keeps the imbalance of a mint it does not close. -/
theorem Call.process_imbalance_of_sound (hl : WellFormedLedger c.ledger) (hM : M ≠ nativeMint)
    (hD : D.Homomorphic c.x.zk) (hsound : c.ProofsSound D) (hsplit : c.ix.hasSplitProofs = false)
    (hclose : ¬ c.ClosesMint M) (hW : WithheldFor W M c.ledger) (h : c.process = .ok l') :
    imbalance D W M l' = imbalance D W M c.ledger := by
  by_cases hpublic : c.ix.isConfidential = false
  · exact Call.process_imbalance hl hM hpublic hclose h
  obtain ⟨x, env, ix, accounts, l⟩ := c
  cases Outcome.of_process hl.coherent h with
  | neutral hstep => exact KeyedSum.total_congr fun k => (hstep k).contribution_eq hM (hl k)
  | confidential _ hstep =>
    exact KeyedSum.total_congr fun k => (hstep k).contribution_eq hD hsound hM (hl k)
  | confidentialTransfer hix h =>
    exact processConfidentialTransfer_imbalance hD hsound hsplit hW hix h
  | confidentialWithdrawFromMint _ h =>
    obtain ⟨mintKey, destination, m, v, d, p, e, e', hpaid⟩ :=
      @processConfidentialWithdrawFromMint_eq_ok x env ix _ _ _ _ _ h
    exact hpaid.imbalance_eq hD hsound hW
  | confidentialWithdrawFromAccounts _ h =>
    obtain ⟨mintKey, destination, infos, v, d, p, gathered, e, e', hpaid⟩ :=
      @processConfidentialWithdrawFromAccounts_eq_ok x env ix _ _ _ _ _ _ h
    exact hpaid.imbalance_eq hD hsound hW
  | confidentialHarvest _ h => exact processConfidentialHarvestToMint_imbalance hD h
  | transfer hix => exact absurd (by cases ix <;> simp_all [TokenInstruction.isTransfer,
      TokenInstruction.isConfidential]) hpublic
  | mintTo hix | burn hix | close hix | withdrawFromMint hix | withdrawFromAccounts hix
    | harvest hix => exact absurd (by rw [hix]; rfl) hpublic

/-- The key of a mint's encrypted fees never changes. -/
theorem Call.process_withheldFor (hl : WellFormedLedger c.ledger) (hclose : ¬ c.ClosesMint M)
    (h : c.process = .ok l') (hW : WithheldFor W M l') : WithheldFor W M c.ledger := by
  intro m v hm hv
  obtain ⟨m', hm', rfl | hstep⟩ := Call.process_mintAt hl h hm hclose
  · exact hW _ v hm' hv
  · have hkey := hstep.elgamalPubkey
    rw [hv, Option.map_some, Option.map_eq_some_iff] at hkey
    obtain ⟨v', hv', heq⟩ := hkey
    rw [← heq]
    exact hW m' v' hm' hv'

/-- Runs that keep the mint `M`, with complete and sound proofs. -/
abbrev SoundRun (D : Decryption Scalar) (x : Externals) (M : Pubkey) :
    Ledger → List Event → Ledger → Prop :=
  RunWhere x fun c => c.Succeeds →
    c.ProofsSound D ∧ c.ix.hasSplitProofs = false ∧ ¬ c.ClosesMint M

theorem SoundRun.imbalance_eq_zero {x : Externals} {l₀ : Ledger} {events : List Event}
    (hD : D.Homomorphic x.zk) (hM : M ≠ nativeMint) (hgen : Genesis l₀)
    (hrun : SoundRun D x M l₀ events l) :
    WellFormedLedger l ∧ ∀ W, WithheldFor W M l → imbalance D W M l = 0 := by
  refine RunWhere.invariant
    (fun l => WellFormedLedger l ∧ ∀ W, WithheldFor W M l → imbalance D W M l = 0)
    (fun c l' hx hP hinv hok => ⟨Call.process_wellFormed hinv.1 hok, fun W hW => ?_⟩)
    (fun l l' hinv hf => ⟨hf.wellFormed hinv.1, fun W hW => ?_⟩) hrun
    ⟨hgen.wellFormed, fun W _ => KeyedSum.total_eq_zero fun k => ?_⟩
  · obtain ⟨hsound, hsplit, hclose⟩ := hP ⟨l', hok⟩
    have hbefore := Call.process_withheldFor hinv.1 hclose hok hW
    rw [Call.process_imbalance_of_sound hinv.1 hM (hx ▸ hD) hsound hsplit hclose hbefore hok]
    exact hinv.2 W hbefore
  · rw [hf.imbalance_eq]
    exact hinv.2 W fun m v hm hv => hW m v (hf.mintAt hm) hv
  · by_cases howner : (l₀ k).owner = programId
    · obtain ⟨len, hdata⟩ := hgen.zeroed k howner
      exact contribution_of_zeroed hdata
    · exact contribution_of_foreign howner

/-! ### The supply -/

/-- All that a live account of `M` holds: its amount, its withheld fees, its encrypted
balances and its encrypted withheld fees. -/
def heldOf (D : Decryption Scalar) (W : ElGamalPubkey) (M : Pubkey) (r : AccountRecord) : Scalar :=
  if r.owner = programId then
    match r.data with
    | .account s => if s.base.mint = M then held D W s else 0
    | _ => 0
  else 0

/-- The key that a mint's encrypted fees are for. -/
def withheldKey (m : PodStateWithExtensions PodMint) : ElGamalPubkey :=
  ((m.tlv.get .confidentialTransferFeeConfig).map
    ConfidentialTransferFeeConfig.withdrawWithheldAuthorityElgamalPubkey).getD default

/-- The supply of the mint is what its accounts hold, and what it withholds itself. -/
def SupplyHeld (D : Decryption Scalar) (M : Pubkey) (l : Ledger)
    (m : PodStateWithExtensions PodMint) : Prop :=
  value Scalar m.base.supply = ∑ k, heldOf D (withheldKey m) M (l k) +
    value Scalar (mintWithheldAmount m) + D.mintWithheld (withheldKey m) m.tlv

theorem heldOf_of_account {k : Pubkey} {s : PodStateWithExtensions PodAccount}
    (howner : (l k).owner = programId) (hdata : (l k).data = .account s) :
    share M s.base.mint (held D W s) = heldOf D W M (l k) := by
  simp only [heldOf, howner, hdata, if_true]
  by_cases hmint : s.base.mint = M
  · rw [if_pos hmint, hmint, share_self]
  · rw [if_neg hmint, share_of_ne hmint]

/-- The mint contributes what it has issued, every other record what it holds. -/
theorem imbalance_of_mint {m : PodStateWithExtensions PodMint} (hm : MintAt l M m) :
    imbalance D W M l = ∑ k, heldOf D W M (l k) - issued D W m := by
  have hcontribution (k : Pubkey) : contribution D W M k (l k) =
      heldOf D W M (l k) - if k = M then issued D W m else 0 := by
    by_cases hk : k = M
    · subst hk
      simp only [contribution_of_mint hm.owner hm.data, heldOf, hm.owner, hm.data, if_true, share_self,
        zero_sub]
    rw [if_neg hk, sub_zero]
    by_cases howner : (l k).owner = programId
    · cases hdata : (l k).data with
      | account s => rw [contribution_of_account howner hdata, heldOf_of_account howner hdata]
      | mint m' =>
        simp only [contribution_of_mint howner hdata, heldOf, howner, hdata, if_true, share_of_ne hk,
          neg_zero]
      | _ => simp only [contribution, heldOf, howner, hdata, if_true]
    · rw [contribution_of_foreign howner, heldOf, if_neg howner]
  simp only [imbalance, KeyedSum.total, hcontribution]
  rw [Finset.sum_sub_distrib, Finset.sum_ite_eq', if_pos (Finset.mem_univ M)]

theorem withheldFor_withheldKey {m : PodStateWithExtensions PodMint} (hm : MintAt l M m) :
    WithheldFor (withheldKey m) M l := by
  intro m' v hm' hv
  obtain rfl := hm'.unique hm
  rw [withheldKey, hv]
  rfl

/-- In every run with complete and sound proofs, the supply of a mint other than the native
one is all that its accounts hold and withhold, in the open and encrypted, and what the mint
withholds. -/
theorem confidentialSupply_conserved {x : Externals} (hD : D.Homomorphic x.zk) (hM : M ≠ nativeMint)
    {l₀ : Ledger} {events : List Event} (hgen : Genesis l₀) (hrun : SoundRun D x M l₀ events l)
    {m : PodStateWithExtensions PodMint} (hm : MintAt l M m) : SupplyHeld D M l m := by
  obtain ⟨-, hzero⟩ := hrun.imbalance_eq_zero hD hM hgen
  have hbalanced := hzero (withheldKey m) (withheldFor_withheldKey hm)
  rw [imbalance_of_mint hm, issued] at hbalanced
  unfold SupplyHeld
  linear_combination -hbalanced

end Runs

/-! ### Runs without context accounts -/

/-- What is left once the proof program's accounts are closed. -/
def Ledger.cleared (l : Ledger) : Ledger := fun k =>
  if (l k).owner = zkTokenProofProgram then ⟨0, systemProgram, .zeroed 0 []⟩ else l k

theorem Ledger.cleared_foreign (l : Ledger) : ForeignStep l l.cleared := by
  intro k
  by_cases howner : (l k).owner = zkTokenProofProgram
  · rw [cleared, if_pos howner]
    refine ⟨fun h => ?_, fun _ h => absurd h (by decide)⟩
    exact absurd (howner.symm.trans h) (by decide)
  · rw [cleared, if_neg howner]
    exact ForeignRecord.refl k _

/-- Instructions one after the other, with the contexts closed before each. -/
def replayCleared (x : Externals) (calls : List (Env × TokenInstruction × List AccountInfo))
    (l : Ledger) : Ledger :=
  calls.foldl (fun l c => execute x c.1 c.2.1 c.2.2 l.cleared) l

theorem runWhere_replayCleared {x : Externals} {P : Call → Prop}
    {calls : List (Env × TokenInstruction × List AccountInfo)}
    (h : ∀ c ∈ calls, ∀ l : Ledger, P ⟨x, c.1, c.2.1, c.2.2, l.cleared⟩) (l : Ledger) :
    ∃ events, RunWhere x P l events (replayCleared x calls l) := by
  induction calls generalizing l with
  | nil => exact ⟨[], Transition.Run.nil l⟩
  | cons c calls ih =>
    obtain ⟨events, hrun⟩ := ih (fun c hc => h c (List.mem_cons_of_mem _ hc))
      (execute x c.1 c.2.1 c.2.2 l.cleared)
    have hclear : Event.external.Satisfies x P l ∧ Event.external.step x l l.cleared :=
      ⟨trivial, l.cleared_foreign⟩
    have hcall : (Event.ofCall c).Satisfies x P l.cleared ∧
        (Event.ofCall c).step x l.cleared (execute x c.1 c.2.1 c.2.2 l.cleared) :=
      ⟨h c (List.mem_cons_self ..) l, rfl⟩
    exact ⟨_, Transition.Run.cons hclear (Transition.Run.cons hcall hrun)⟩

/-- Without context accounts, the proofs are those of the sibling instructions. -/
theorem Call.proofsSound_cleared {x : Externals} {env : Env} {ix : TokenInstruction}
    {accounts : List AccountInfo} {l : Ledger}
    (h : ∀ offset p, env.siblingProof offset = some p → p.Sound D) :
    (Call.mk x env ix accounts l.cleared).ProofsSound D := by
  rintro p (⟨k, len, howner, -⟩ | ⟨offset, hp⟩)
  · have howner : (l.cleared k).owner = zkTokenProofProgram := howner
    unfold Ledger.cleared at howner
    split at howner
    case isTrue => exact absurd howner (by decide)
    case isFalse hno => exact absurd howner hno
  · exact h offset p hp

/-- The call carries sound and complete proofs at most, and closes nothing. -/
structure CarriesSound (D : Decryption Scalar) (c : Env × TokenInstruction × List AccountInfo) :
    Prop where
  sibling : ∀ offset p, c.1.siblingProof offset = some p → p.Sound D
  complete : c.2.1.hasSplitProofs = false
  keeps : c.2.1 ≠ .closeAccount

theorem CarriesSound.plain {n : UInt64} {ix : TokenInstruction} {accounts : List AccountInfo}
    (hcomplete : ix.hasSplitProofs = false) (hkeeps : ix ≠ .closeAccount) :
    CarriesSound D (.plain n, ix, accounts) := by
  refine ⟨fun offset p hp => ?_, hcomplete, hkeeps⟩
  exact absurd hp (by simp [Env.plain])

theorem CarriesSound.withProof {p : ProofContext} {ix : TokenInstruction}
    {accounts : List AccountInfo} (hp : p.Sound D) (hcomplete : ix.hasSplitProofs = false)
    (hkeeps : ix ≠ .closeAccount) : CarriesSound D (.withProof p, ix, accounts) := by
  refine ⟨fun offset q hq => ?_, hcomplete, hkeeps⟩
  obtain rfl := Option.some.inj hq
  exact hp

theorem soundRun_replayCleared {x : Externals} {M : Pubkey}
    {calls : List (Env × TokenInstruction × List AccountInfo)} (h : ∀ c ∈ calls, CarriesSound D c)
    (l : Ledger) : ∃ events, SoundRun D x M l events (replayCleared x calls l) := by
  refine runWhere_replayCleared (fun c hc l _ => ?_) l
  have hsound := h c hc
  exact ⟨Call.proofsSound_cleared hsound.sibling, hsound.complete, fun hcloses =>
    hsound.keeps hcloses.1.1⟩

/-! ### A confidential transfer of all the supply -/

def wholeTransferCalls : List (Env × TokenInstruction × List AccountInfo) :=
  confidentialCalls 65537 ++ [wholeTransferCall 65537]

def wholeTransferLedger : Ledger := replayCleared .logs wholeTransferCalls confidentialLedger

theorem wholeTransfer_sound : (ProofContext.transferWithFee (wholeTransfer 65537)).Sound logDecryption :=
  ⟨⟨1, decrypt_logCiphertext _ 1, decrypt_logCiphertext _ 1⟩,
    ⟨1, decrypt_logCiphertext _ 1, decrypt_logCiphertext _ 1⟩,
    ⟨1, decrypt_logCiphertext _ 1, decrypt_logCiphertext _ 1⟩,
    ⟨0, decrypt_logCiphertext _ 0, decrypt_logCiphertext _ 0⟩⟩

theorem wholeTransferCalls_sound {c : Env × TokenInstruction × List AccountInfo}
    (hc : c ∈ wholeTransferCalls) : CarriesSound logDecryption c := by
  simp only [wholeTransferCalls, confidentialCalls, List.cons_append, List.nil_append, List.mem_cons,
    List.not_mem_nil, or_false] at hc
  rcases hc with rfl | rfl | rfl | rfl | rfl | rfl | rfl | rfl | rfl | rfl | rfl | rfl
  case inr.inr.inr.inr.inr.inr.inr.inl => exact .withProof trivial rfl (by simp)
  case inr.inr.inr.inr.inr.inr.inr.inr.inl => exact .withProof trivial rfl (by simp)
  case inr.inr.inr.inr.inr.inr.inr.inr.inr.inr.inr => exact .withProof wholeTransfer_sound rfl (by simp)
  all_goals exact .plain rfl (by simp)

/-- All of a supply of 65537, confidentially transferred less a fee of one. -/
theorem confidentialSupply_conserved_wholeTransfer :
    (wholeTransferLedger.confidentialAt ⟨3⟩).map (·.pendingBalanceCreditCounter) = some 1 ∧
      ∃ m, MintAt wholeTransferLedger ⟨1⟩ m ∧ m.base.supply = 65537 ∧
        SupplyHeld logDecryption ⟨1⟩ wholeTransferLedger m := by
  obtain ⟨events, hrun⟩ := soundRun_replayCleared (x := .logs) (M := ⟨1⟩)
    (fun c hc => wholeTransferCalls_sound hc) confidentialLedger
  have hsupply : ((wholeTransferLedger ⟨1⟩).data.unpackMint.map fun m => m.base.supply) =
      .ok 65537 := by decide +kernel
  obtain ⟨m, hm, hm'⟩ : ∃ m, (wholeTransferLedger ⟨1⟩).data.unpackMint = .ok m ∧
      m.base.supply = 65537 := by
    cases hunpack : (wholeTransferLedger ⟨1⟩).data.unpackMint with
    | ok m =>
      rw [hunpack] at hsupply
      exact ⟨m, rfl, Except.ok.inj hsupply⟩
    | error e =>
      rw [hunpack] at hsupply
      cases hsupply
  have hmint : MintAt wholeTransferLedger ⟨1⟩ m := ⟨by decide +kernel, (unpackMint_eq_ok.mp hm).1⟩
  exact ⟨by decide +kernel, m, hmint, hm', confidentialSupply_conserved logDecryption_homomorphic
    (by decide) confidentialLedger_genesis hrun hmint⟩

/-! ### Wrapped lamports -/

/-- A new account is written where the instruction says. -/
theorem processInitializeAccount_written {env : Env} {owner : Option Pubkey} {rent : Bool}
    {accounts : List AccountInfo} {l l' : Ledger}
    (h : processInitializeAccount env owner rent accounts l = .ok l') :
    ∃ info rest data, accounts = info :: rest ∧ l' = l.setData info.key data := by
  simp only [processInitializeAccount, bind_eq_ok, Prod.exists, exists_unit] at h
  obtain ⟨info, rest, hinfo, _, _, -, _, _, -, _, -, _, -, -, -, _, -, _, -, _, -, -, _, -, _, -,
    hwrite⟩ := h
  obtain ⟨-, rfl⟩ := Ledger.writeData_eq_ok.mp hwrite
  exact ⟨info, rest, _, nextAccountInfo_eq_ok.mp hinfo, rfl⟩

theorem heldOf_cleared {W : ElGamalPubkey} {M : Pubkey} (l : Ledger) (k : Pubkey) :
    heldOf D W M (l.cleared k) = heldOf D W M (l k) := by
  by_cases howner : (l k).owner = zkTokenProofProgram
  · rw [Ledger.cleared, if_pos howner, heldOf, heldOf, if_neg (by decide),
      if_neg (howner ▸ by decide)]
  · rw [Ledger.cleared, if_neg howner]

theorem sum_heldOf_setData (W : ElGamalPubkey) (M : Pubkey) (l : Ledger) (k : Pubkey)
    (data : AccountData) : ∑ j, heldOf D W M (l.setData k data j) = ∑ j, heldOf D W M (l j) +
      (heldOf D W M (l.setData k data k) - heldOf D W M (l k)) := by
  have htotal := KeyedSum.total_update (fun _ r => heldOf D W M r) l k { l k with data := data }
  unfold KeyedSum.total at htotal
  rw [Ledger.setData_self]
  exact htotal

theorem nativeCalls_sound {c : Env × TokenInstruction × List AccountInfo} (hc : c ∈ nativeCalls) :
    CarriesSound D c := by
  simp only [nativeCalls, List.mem_cons, List.not_mem_nil, or_false] at hc
  rcases hc with rfl | rfl <;> exact .plain rfl (by simp)

/-- The native mint has no supply, whatever its accounts hold: a new account of it with nine
lamports holds eight of them as tokens. -/
theorem confidentialSupply_conserved_fails :
    ¬ ∀ (D : Decryption Scalar) (x : Externals) (M : Pubkey) (l₀ : Ledger) (events : List Event)
      (l : Ledger) (m : PodStateWithExtensions PodMint), D.Homomorphic x.zk → Genesis l₀ →
      SoundRun D x M l₀ events l → MintAt l M m → SupplyHeld D M l m := by
  intro hclaim
  have hgen : Genesis blankNativeLedger := .ofList (by decide) (by decide)
  have hheld (calls : List (Env × TokenInstruction × List AccountInfo)) (hcalls : calls ⊆ nativeCalls)
      (m : PodStateWithExtensions PodMint)
      (hm : MintAt (replayCleared .logs calls blankNativeLedger) nativeMint m) :
      SupplyHeld logDecryption nativeMint (replayCleared .logs calls blankNativeLedger) m := by
    obtain ⟨events, hrun⟩ := soundRun_replayCleared (D := logDecryption) (M := nativeMint)
      (fun c hc => nativeCalls_sound (hcalls hc)) blankNativeLedger
    exact hclaim _ _ _ _ _ _ _ logDecryption_homomorphic hgen hrun hm
  let l₁ := replayCleared .logs (nativeCalls.take 1) blankNativeLedger
  let accounts : List AccountInfo := [⟨⟨2⟩, false⟩, ⟨nativeMint, false⟩]
  obtain ⟨l₂, hok⟩ : (Call.mk .logs (.plain 0) (.initializeAccount3 ⟨7⟩) accounts l₁.cleared).Succeeds :=
    Call.succeeds_of_isOk (by decide +kernel)
  have hl₂ : replayCleared .logs nativeCalls blankNativeLedger = l₂ := execute_of_process hok
  obtain ⟨info, rest, data, haccounts, hwritten⟩ := processInitializeAccount_written hok
  obtain ⟨rfl, -⟩ := List.cons.inj haccounts
  let m : PodStateWithExtensions PodMint :=
    ⟨{ (default : PodMint) with decimals := 9, isInitialized := true }, mintLen, []⟩
  have hbefore := hheld (nativeCalls.take 1) (List.take_subset 1 nativeCalls) m
    ⟨by decide +kernel, by decide +kernel⟩
  have hafter := hheld nativeCalls (List.Subset.refl _) m ⟨by decide +kernel, by decide +kernel⟩
  have hempty : heldOf logDecryption (withheldKey m) nativeMint (l₁.cleared ⟨2⟩) = 0 := by
    have hrecord : l₁.cleared ⟨2⟩ = ⟨9, programId, .zeroed 165 []⟩ := by decide +kernel
    rw [hrecord]
    rfl
  have hnew : heldOf logDecryption (withheldKey m) nativeMint (l₂ ⟨2⟩) = 8 := by
    let wrapped : PodAccount :=
      { mint := nativeMint, owner := ⟨7⟩, amount := 8, delegate := none, state := .initialized,
        isNative := some 1, delegatedAmount := 0, closeAuthority := none }
    have hrecord : l₂ ⟨2⟩ = ⟨9, programId, .account ⟨wrapped, 165, []⟩⟩ := by
      rw [← hl₂]
      decide +kernel
    rw [hrecord]
    simp [heldOf, held, wrapped, Decryption.confidential, Decryption.withheld, withheldAmount, value]
  have hsum := sum_heldOf_setData (D := logDecryption) (withheldKey m) nativeMint l₁.cleared ⟨2⟩ data
  rw [← hwritten, hempty, hnew, Finset.sum_congr rfl fun k _ => heldOf_cleared l₁ k] at hsum
  rw [SupplyHeld, hl₂, hsum] at hafter
  have height : (8 : Scalar) = 0 := by
    unfold SupplyHeld at hbefore
    linear_combination hbefore - hafter
  exact absurd height (by decide +kernel)

end BarkToken
