import BarkToken.Confidential.SplitProof
import BarkToken.Conservation.Exponent
import BarkToken.Guarantee.BalanceParts

/-!
# Honest split proofs (extension/confidential_transfer/split_proof_generation.rs:28-190,
ciphertext_extraction.rs:228-334, processor.rs:701-789)

The prover and the program put the same ciphertexts together on their own: the prover
from the openings that it draws, the program from the handles and contexts it is given.
-/

namespace BarkToken
open Fallible CheckedWord

/-! ### Ideal encryption -/

section Ideal

variable (sdk : ZkSdk) (zk : ZkOps) (D : Decryption Scalar)

/-- An amount under a commitment, with the handles of two keys. -/
def ZkSdk.grouped (p q : ElGamalPubkey) (n : UInt64) (o : sdk.PedersenOpening) :
    GroupedElGamalCiphertext2Handles :=
  ⟨sdk.pedersenWith n o, sdk.decryptHandle p o, sdk.decryptHandle q o⟩

/-- An amount encrypted for one key. -/
def ZkSdk.encrypt (p : ElGamalPubkey) (n : UInt64) (o : sdk.PedersenOpening) : ElGamalCiphertext :=
  ⟨sdk.pedersenWith n o, sdk.decryptHandle p o⟩

/-- Every ciphertext is a commitment and the handles of its opening, and arithmetic with
well-formed ciphertexts succeeds. -/
structure ZkSdk.Lawful : Prop where
  pedersenNew : ∀ n seed, ∃ o, sdk.pedersenNew n seed = (sdk.pedersenWith n o, o)
  transferAmountCiphertext : ∀ n p q r seed, ∃ o, sdk.transferAmountCiphertext n p q r seed =
    (⟨sdk.pedersenWith n o, sdk.decryptHandle p o, sdk.decryptHandle q o, sdk.decryptHandle r o⟩, o)
  encryptWith : ∀ p q n o, sdk.encryptWith p q n o = sdk.grouped p q n o
  wellFormed : ∀ p n o, sdk.wellFormed (sdk.encrypt p n o) = true
  subtractWithLoHi : ∀ a lo hi, sdk.wellFormed a = true → sdk.wellFormed lo = true →
    sdk.wellFormed hi = true → ∃ c, zk.subtractWithLoHi a lo hi = some c ∧ sdk.wellFormed c = true
  add : ∀ a b, sdk.wellFormed a = true → sdk.wellFormed b = true →
    ∃ c, zk.add a b = some c ∧ sdk.wellFormed c = true

/-- What is encrypted for `p` decrypts to the amount. -/
def ZkSdk.DecryptsFor (p : ElGamalPubkey) : Prop :=
  ∀ n o, D.decrypt p (sdk.encrypt p n o) = (n.toNat : Scalar)

/-- A commitment in a range proof, with its bit length. -/
structure RangeEntry (Opening : Type) where
  amount : UInt64
  bitLength : ℕ
  opening : Opening

/-- A proof of a true statement is generated, about the data it has been asked for. -/
structure ZkSdk.Complete : Prop where
  equality : ∀ keypair c n o, sdk.wellFormed c = true →
    D.decrypt (sdk.pubkey keypair) c = (n.toNat : Scalar) →
    sdk.equalityProofData keypair c (sdk.pedersenWith n o) o n = some ⟨sdk.pubkey keypair, c, sdk.pedersenWith n o⟩
  validity : ∀ p q lo hi oLo oHi,
    sdk.validityProofData p q (sdk.grouped p q lo oLo) (sdk.grouped p q hi oHi)
      lo hi oLo oHi = some ⟨p, q, sdk.grouped p q lo oLo, sdk.grouped p q hi oHi⟩
  /-- At most eight commitments, of 128 bits in all and none of zero; the other slots are zero. -/
  range : ∀ entries : List (RangeEntry sdk.PedersenOpening), entries.length ≤ 8 →
    (entries.map RangeEntry.bitLength).sum = 128 →
    (∀ x ∈ entries, 0 < x.bitLength ∧ x.bitLength ≤ 64 ∧ x.amount.toNat < 2 ^ x.bitLength) →
    ∃ context, sdk.rangeProofData (entries.map fun x => sdk.pedersenWith x.amount x.opening)
        (entries.map RangeEntry.amount) (entries.map RangeEntry.bitLength)
        (entries.map RangeEntry.opening) = some context ∧
      context.commitments.toList = (entries.map fun x => sdk.pedersenWith x.amount x.opening) ++
        List.replicate (8 - entries.length) default ∧
      context.bitLengths.toList = (entries.map fun x => UInt8.ofNat x.bitLength) ++
        List.replicate (8 - entries.length) 0

end Ideal

/-! ### What is generated -/

section Generated

variable {sdk : ZkSdk} {zk : ZkOps} {D : Decryption Scalar}

/-- The two parts of the amount, each under its opening. -/
structure SplitParts (sdk : ZkSdk) where
  lo : UInt64
  hi : UInt64
  openingLo : sdk.PedersenOpening
  openingHi : sdk.PedersenOpening

/-- What the generated contexts consist of. -/
structure SplitProofData.Honest (zk : ZkOps)
    (source destination auditor : ElGamalPubkey) (current : ElGamalCiphertext)
    (s : SplitParts sdk) (data : SplitProofData) : Prop where
  pubkey : data.equalityProofData.pubkey = source
  ciphertext : zk.subtractWithLoHi current (sdk.encrypt source s.lo s.openingLo)
    (sdk.encrypt source s.hi s.openingHi) = some data.equalityProofData.ciphertext
  validity : data.ciphertextValidityProofData = ⟨destination, auditor,
    sdk.grouped destination auditor s.lo s.openingLo,
    sdk.grouped destination auditor s.hi s.openingHi⟩
  handles : data.sourceDecryptHandles =
    ⟨sdk.decryptHandle source s.openingLo, sdk.decryptHandle source s.openingHi⟩
  commitments : ∃ rest, data.rangeProofData.commitments.toList =
    data.equalityProofData.commitment :: sdk.pedersenWith s.lo s.openingLo ::
      sdk.pedersenWith s.hi s.openingHi :: rest
  bitLengths : ∃ rest, data.rangeProofData.bitLengths.toList = 64 :: 16 :: 32 :: 16 :: rest

/-- What the program takes out of the contexts. -/
def SplitParts.info (source destination auditor : ElGamalPubkey) (newSourceCiphertext : ElGamalCiphertext)
    (s : SplitParts sdk) : TransferProofContextInfo where
  ciphertextLo := ⟨sdk.pedersenWith s.lo s.openingLo, sdk.decryptHandle source s.openingLo,
    sdk.decryptHandle destination s.openingLo, sdk.decryptHandle auditor s.openingLo⟩
  ciphertextHi := ⟨sdk.pedersenWith s.hi s.openingHi, sdk.decryptHandle source s.openingHi,
    sdk.decryptHandle destination s.openingHi, sdk.decryptHandle auditor s.openingHi⟩
  transferPubkeys := ⟨source, destination, auditor⟩
  newSourceCiphertext := newSourceCiphertext

variable {source destination auditor : ElGamalPubkey} {current : ElGamalCiphertext}
  {s : SplitParts sdk} {data : SplitProofData}

/-- The contexts and handles pass the checks between them. -/
theorem SplitProofData.Honest.verified
    (h : data.Honest zk source destination auditor current s) :
    TransferProofContextInfo.verifyAndExtract data.equalityProofData
      data.ciphertextValidityProofData data.rangeProofData data.sourceDecryptHandles =
        .ok (s.info source destination auditor data.equalityProofData.ciphertext) := by
  obtain ⟨commitments, hcommitments⟩ := h.commitments
  obtain ⟨bitLengths, hbitLengths⟩ := h.bitLengths
  simp only [TransferProofContextInfo.verifyAndExtract, ensure_bind_eq_ok, pure_eq_ok, hcommitments,
    hbitLengths, h.validity, h.handles, h.pubkey]
  -- the padding, and the slots behind it, are free
  refine ⟨?_, ?_, rfl⟩
  · simp [extractCommitmentFromGroupedCiphertext, ZkSdk.grouped]
  · simp

/-- The program computes the balance that the proof is about. -/
theorem SplitProofData.Honest.debited (h : data.Honest zk source destination auditor current s)
    {e : ConfidentialTransferAccount} (hkey : e.elgamalPubkey = source)
    (hbalance : e.availableBalance = current) (newBalance : AeCiphertext) :
    e.debited zk (s.info source destination auditor data.equalityProofData.ciphertext).parts
      newBalance = .ok { e with
        availableBalance := data.equalityProofData.ciphertext
        decryptableAvailableBalance := newBalance } := by
  simp only [ConfidentialTransferAccount.debited, bind_eq_ok, exists_unit, ensure_eq_ok, okOr_eq_ok,
    pure_eq_ok]
  refine ⟨hkey.symm, data.equalityProofData.ciphertext, ?_, rfl, rfl⟩
  rw [hbalance]
  exact h.ciphertext

/-- The pending balances of a destination grow by the two parts. -/
theorem SplitParts.credited (hlawful : sdk.Lawful zk) {e : ConfidentialTransferAccount}
    {c : ElGamalCiphertext} {n : UInt64} (hkey : e.elgamalPubkey = destination)
    (hlo : sdk.wellFormed e.pendingBalanceLo = true) (hhi : sdk.wellFormed e.pendingBalanceHi = true)
    (hcounter : checkedAdd e.pendingBalanceCreditCounter 1 = some n) :
    ∃ lo hi, zk.add e.pendingBalanceLo (sdk.encrypt destination s.lo s.openingLo) = some lo ∧
      zk.add e.pendingBalanceHi (sdk.encrypt destination s.hi s.openingHi) = some hi ∧
      e.credited zk (s.info source destination auditor c).parts = .ok { e with
        pendingBalanceLo := lo
        pendingBalanceHi := hi
        pendingBalanceCreditCounter := n } := by
  obtain ⟨lo, hlo, -⟩ := hlawful.add _ _ hlo (hlawful.wellFormed destination s.lo s.openingLo)
  obtain ⟨hi, hhi, -⟩ := hlawful.add _ _ hhi (hlawful.wellFormed destination s.hi s.openingHi)
  refine ⟨lo, hi, hlo, hhi, ?_⟩
  simp only [ConfidentialTransferAccount.credited, bind_eq_ok, exists_unit, ensure_eq_ok, okOr_eq_ok,
    ConfidentialTransferAccount.incrementPendingBalanceCreditCounter, pure_eq_ok]
  exact ⟨hkey.symm, lo, hlo, hi, hhi, n, hcounter, rfl⟩

/-- The keys that a client holds, and the balance that it has with them. -/
structure HoldsBalance (sdk : ZkSdk) (D : Decryption Scalar) (keypair : sdk.ElGamalKeypair)
    (aesKey : sdk.AeKey) (current : ElGamalCiphertext) (decryptable : AeCiphertext) (b : UInt64) :
    Prop where
  wellFormed : sdk.wellFormed current = true
  available : D.decrypt (sdk.pubkey keypair) current = (b.toNat : Scalar)
  decryptable : sdk.aeDecrypt decryptable aesKey = some b

variable {keypair : sdk.ElGamalKeypair} {aesKey : sdk.AeKey} {decryptable : AeCiphertext}
  {b amount : UInt64}

/-- The remaining balance is encrypted by the difference of the ciphertexts. -/
theorem exists_newSourceCiphertext (hlawful : sdk.Lawful zk) (hhom : D.Homomorphic zk)
    (hkey : sdk.DecryptsFor D (sdk.pubkey keypair))
    (hholds : HoldsBalance sdk D keypair aesKey current decryptable b) {left : UInt64}
    (hleft : checkedSub b amount = some left)
    (hparts : s.lo.toNat + 65536 * s.hi.toNat = amount.toNat) :
    ∃ c, zk.subtractWithLoHi current (sdk.encrypt (sdk.pubkey keypair) s.lo s.openingLo)
        (sdk.encrypt (sdk.pubkey keypair) s.hi s.openingHi) = some c ∧ sdk.wellFormed c = true ∧
      D.decrypt (sdk.pubkey keypair) c = (left.toNat : Scalar) := by
  obtain ⟨c, hc, hwf⟩ := hlawful.subtractWithLoHi current _ _ hholds.wellFormed
    (hlawful.wellFormed (sdk.pubkey keypair) s.lo s.openingLo)
    (hlawful.wellFormed (sdk.pubkey keypair) s.hi s.openingHi)
  refine ⟨c, hc, hwf, ?_⟩
  have hsum : b.toNat = left.toNat + (s.lo.toNat + 65536 * s.hi.toNat) := by
    rw [checkedSub_eq_some] at hleft
    omega
  rw [hhom.subtractWithLoHi hc, hholds.available, hkey s.lo s.openingLo, hkey s.hi s.openingHi, hsum]
  push_cast
  ring

/-- The range proof covers the remaining balance, the two parts and the padding. -/
theorem exists_rangeProof (hcomplete : sdk.Complete D) (hlo : s.lo.toNat < 2 ^ 16)
    (hhi : s.hi.toNat < 2 ^ 32) (left : UInt64) (openingLeft openingPadding : sdk.PedersenOpening) :
    ∃ context, sdk.rangeProofData
        [sdk.pedersenWith left openingLeft, sdk.pedersenWith s.lo s.openingLo,
          sdk.pedersenWith s.hi s.openingHi, sdk.pedersenWith 0 openingPadding]
        [left, s.lo, s.hi, 0] [64, 16, 32, 16]
        [openingLeft, s.openingLo, s.openingHi, openingPadding] = some context ∧
      (∃ rest, context.commitments.toList = sdk.pedersenWith left openingLeft ::
        sdk.pedersenWith s.lo s.openingLo :: sdk.pedersenWith s.hi s.openingHi :: rest) ∧
      ∃ rest, context.bitLengths.toList = 64 :: 16 :: 32 :: 16 :: rest := by
  let entries : List (RangeEntry sdk.PedersenOpening) :=
    [⟨left, 64, openingLeft⟩, ⟨s.lo, 16, s.openingLo⟩, ⟨s.hi, 32, s.openingHi⟩, ⟨0, 16, openingPadding⟩]
  have hfits : ∀ x ∈ entries, 0 < x.bitLength ∧ x.bitLength ≤ 64 ∧
      x.amount.toNat < 2 ^ x.bitLength := by
    intro x hx
    simp only [entries, List.mem_cons, List.not_mem_nil, or_false] at hx
    rcases hx with rfl | rfl | rfl | rfl
    · exact ⟨Nat.succ_pos 63, le_rfl, left.toNat_lt⟩
    · exact ⟨Nat.succ_pos 15, Nat.le_add_left 16 48, hlo⟩
    · exact ⟨Nat.succ_pos 31, Nat.le_add_left 32 32, hhi⟩
    · exact ⟨Nat.succ_pos 15, Nat.le_add_left 16 48, Nat.two_pow_pos 16⟩
  obtain ⟨context, hcontext, hcommitments, hbitLengths⟩ :=
    hcomplete.range entries (Nat.le_add_left 4 4) rfl hfits
  exact ⟨context, hcontext, ⟨_, hcommitments⟩, ⟨_, hbitLengths⟩⟩

/-- Every step of the generation succeeds, each proof being about a true statement. -/
theorem exists_honest (hlawful : sdk.Lawful zk) (hcomplete : sdk.Complete D) (hhom : D.Homomorphic zk)
    (hkey : sdk.DecryptsFor D (sdk.pubkey keypair))
    (hholds : HoldsBalance sdk D keypair aesKey current decryptable b) (hle : amount ≤ b)
    (hlt : amount.toNat < 2 ^ 48) (destination : ElGamalPubkey) (auditor : Option ElGamalPubkey)
    (seeds : SplitSeeds sdk) : ∃ data, ∃ s : SplitParts sdk,
      transferSplitProofData sdk zk current decryptable amount keypair aesKey destination auditor
        seeds = .ok data ∧
      data.Honest zk (sdk.pubkey keypair) destination (auditor.getD default) current s ∧
      s.lo.toNat + 65536 * s.hi.toNat = amount.toNat ∧
      D.decrypt (sdk.pubkey keypair) data.equalityProofData.ciphertext =
        ((b.toNat - amount.toNat : ℕ) : Scalar) := by
  obtain ⟨lo, hi, hsplit⟩ := (splitsExactly amount).accepted.mpr hlt
  obtain ⟨hlo, hhi, hcombined⟩ := (splitsExactly amount).parts lo hi hsplit
  have hparts : lo.toNat + 65536 * hi.toNat = amount.toNat := by
    rw [combineBalances_eq_some] at hcombined
    omega
  obtain ⟨left, hleft⟩ := checkedSub_of_le hle
  have hleftNat : left.toNat = b.toNat - amount.toNat := by
    rw [checkedSub_eq_some] at hleft
    omega
  obtain ⟨openingLo, hgroupedLo⟩ := hlawful.transferAmountCiphertext lo (sdk.pubkey keypair)
    destination (auditor.getD default) seeds.lo
  obtain ⟨openingHi, hgroupedHi⟩ := hlawful.transferAmountCiphertext hi (sdk.pubkey keypair)
    destination (auditor.getD default) seeds.hi
  obtain ⟨openingLeft, hnew⟩ := hlawful.pedersenNew left seeds.newSource
  obtain ⟨openingPadding, hpadding⟩ := hlawful.pedersenNew 0 seeds.padding
  let s : SplitParts sdk := ⟨lo, hi, openingLo, openingHi⟩
  obtain ⟨c, hc, hwf, hdecrypt⟩ :=
    exists_newSourceCiphertext (s := s) hlawful hhom hkey hholds hleft hparts
  have hequality := hcomplete.equality keypair c left openingLeft hwf hdecrypt
  have hvalidity := hcomplete.validity destination (auditor.getD default) lo hi openingLo openingHi
  obtain ⟨range, hrange, hcommitments, hbitLengths⟩ :=
    exists_rangeProof (s := s) hcomplete hlo hhi left openingLeft openingPadding
  refine ⟨⟨⟨sdk.pubkey keypair, c, sdk.pedersenWith left openingLeft⟩,
    ⟨destination, auditor.getD default, sdk.grouped destination (auditor.getD default) lo openingLo,
      sdk.grouped destination (auditor.getD default) hi openingHi⟩, range,
    ⟨sdk.decryptHandle (sdk.pubkey keypair) openingLo,
      sdk.decryptHandle (sdk.pubkey keypair) openingHi⟩⟩,
    s, ?_, ⟨rfl, hc, rfl, rfl, hcommitments, hbitLengths⟩, hparts, ?_⟩
  · have hwritten : zk.subtractWithLoHi current
        (transferAmountSourceCiphertext ⟨sdk.pedersenWith lo openingLo,
          sdk.decryptHandle (sdk.pubkey keypair) openingLo, sdk.decryptHandle destination openingLo,
          sdk.decryptHandle (auditor.getD default) openingLo⟩)
        (transferAmountSourceCiphertext ⟨sdk.pedersenWith hi openingHi,
          sdk.decryptHandle (sdk.pubkey keypair) openingHi, sdk.decryptHandle destination openingHi,
          sdk.decryptHandle (auditor.getD default) openingHi⟩) = some c := hc
    have hranged : sdk.rangeProofData
        [sdk.pedersenWith left openingLeft, sdk.pedersenWith lo openingLo,
          sdk.pedersenWith hi openingHi, sdk.pedersenWith 0 openingPadding]
        [left, lo, hi, 0] [64, 16, 32, 16] [openingLeft, openingLo, openingHi, openingPadding] =
          some range := hrange
    simp only [transferSplitProofData, hsplit, hgroupedLo, hgroupedHi, hholds.decryptable, hleft, hnew,
      hpadding, hwritten, hwf, hlawful.encryptWith, hequality, hvalidity, hranged, okOr, ensure, if_pos, ok_bind]
    rfl
  · rw [← hleftNat]
    exact hdecrypt

/-- An amount beyond 48 bits, or beyond the balance, stops the generation. -/
theorem transferSplitProofData_refused (hdecryptable : sdk.aeDecrypt decryptable aesKey = some b)
    (hno : b < amount ∨ 2 ^ 48 ≤ amount.toNat) (current : ElGamalCiphertext)
    (destination : ElGamalPubkey) (auditor : Option ElGamalPubkey) (seeds : SplitSeeds sdk) :
    ∃ e, transferSplitProofData sdk zk current decryptable amount keypair aesKey destination auditor
      seeds = .error e := by
  cases hsplit : verifyAndSplitDepositAmount amount with
  | error e => exact ⟨e, by simp only [transferSplitProofData, hsplit, error_bind]⟩
  | ok parts =>
    have hlt : amount.toNat < 2 ^ 48 := (splitsExactly amount).accepted.mp ⟨parts.1, parts.2, hsplit⟩
    have hless : b < amount := hno.resolve_right (Nat.not_le.mpr hlt)
    have hnone : checkedSub b amount = none := checkedSub_eq_none.mpr (UInt64.lt_iff_toNat_lt.mp hless)
    refine ⟨TokenError.insufficientFunds, ?_⟩
    simp only [transferSplitProofData, hsplit, hdecryptable, hnone, okOr, ok_bind, error_bind]

/-- Without a context, all checks of the source are made and nothing is written. -/
theorem processSourceForTransfer_of_debited {l : Ledger} {sourceInfo mintInfo authorityInfo : AccountInfo}
    {signers : List AccountInfo} {newBalance : AeCiphertext} {info : TransferProofContextInfo}
    {tokenAccount : PodStateWithExtensions PodAccount} {e e' : ConfidentialTransferAccount}
    (hchecks : processSourceForTransfer zk l sourceInfo mintInfo authorityInfo signers none
      newBalance = .ok l)
    (hunpack : (l sourceInfo.key).data.unpackAccount = .ok tokenAccount)
    (hext : tokenAccount.getExtension .confidentialTransferAccount = .ok e)
    (hdebited : e.debited zk info.parts newBalance = .ok e') :
    processSourceForTransfer zk l sourceInfo mintInfo authorityInfo signers (some info) newBalance =
      .ok (l.setData sourceInfo.key
        (.account (tokenAccount.setExtension .confidentialTransferAccount e'))) := by
  simp only [processSourceForTransfer, sourceForTransfer, Option.map_none, bind_eq_ok,
    exists_unit] at hchecks
  obtain ⟨howner, hauthority, hsource, account, haccount, hvalidate, hfrozen, hmint, ext, hext',
    hvalid, -⟩ := hchecks
  obtain rfl := Except.ok.inj (hunpack.symm.trans haccount)
  obtain rfl := Except.ok.inj (hext.symm.trans hext')
  have howned : (l sourceInfo.key).owner = programId := ensure_eq_ok.mp howner
  simp only [processSourceForTransfer, sourceForTransfer, Option.map_some, howner, hauthority, hsource,
    haccount, hvalidate, hfrozen, hmint, hext, hvalid, hdebited, ok_bind]
  exact Ledger.writeData_eq_ok.mpr ⟨.inl howned, rfl⟩

/-- So it is with the destination, whose counter has room for one more credit. -/
theorem processDestinationForTransfer_of_credited {env : Env} {l : Ledger}
    {destinationInfo mintInfo : AccountInfo} {tokenAccount : PodStateWithExtensions PodAccount}
    {e : ConfidentialTransferAccount}
    (hchecks : processDestinationForTransfer zk env l destinationInfo mintInfo none = .ok l)
    (hunpack : (l destinationInfo.key).data.unpackAccount = .ok tokenAccount)
    (hext : tokenAccount.getExtension .confidentialTransferAccount = .ok e) :
    (∃ n, checkedAdd e.pendingBalanceCreditCounter 1 = some n) ∧
      ∀ info e', e.credited zk info.parts = .ok e' →
        processDestinationForTransfer zk env l destinationInfo mintInfo (some info) =
          .ok (l.setData destinationInfo.key
            (.account (tokenAccount.setExtension .confidentialTransferAccount e'))) := by
  simp only [processDestinationForTransfer, checkConfidentialDestination, bind_eq_ok, exists_unit,
    pure_eq_ok] at hchecks
  obtain ⟨-, ⟨howner, hborrow, account, haccount, hfrozen, hmint, hmemo, ext, hext', hvalid, rfl⟩, -⟩ :=
    hchecks
  obtain rfl := Except.ok.inj (hunpack.symm.trans haccount)
  obtain rfl := Except.ok.inj (hext.symm.trans hext')
  refine ⟨?_, fun info e' hcredited => ?_⟩
  · simp only [ConfidentialTransferAccount.validAsDestination, bind_eq_ok, exists_unit,
      okOr_eq_ok] at hvalid
    obtain ⟨-, -, n, hn, -⟩ := hvalid
    exact ⟨n, hn⟩
  · have howned : (l destinationInfo.key).owner = programId := ensure_eq_ok.mp howner
    simp only [processDestinationForTransfer, checkConfidentialDestination, howner, hborrow, haccount,
      hfrozen, hmint, hmemo, hext, hvalid, hcredited, ok_bind, pure_bind]
    exact Ledger.writeData_eq_ok.mpr ⟨.inl howned, rfl⟩

end Generated

/-! ### What is accepted -/

/-- The program accepts what has been generated, takes the proven ciphertext for the
source's balance and adds the amount to the destination's pending balances. -/
structure SplitProofData.Accepted (sdk : ZkSdk) (zk : ZkOps) (D : Decryption Scalar)
    (source destination auditor : ElGamalPubkey) (current : ElGamalCiphertext) (b amount : UInt64)
    (data : SplitProofData) (info : TransferProofContextInfo) : Prop where
  verified : TransferProofContextInfo.verifyAndExtract data.equalityProofData
    data.ciphertextValidityProofData data.rangeProofData data.sourceDecryptHandles = .ok info
  transferPubkeys : info.transferPubkeys = ⟨source, destination, auditor⟩
  remaining : D.decrypt source data.equalityProofData.ciphertext =
    ((b.toNat - amount.toNat : ℕ) : Scalar)
  source : ∀ l sourceInfo mintInfo authorityInfo signers newBalance tokenAccount e,
    processSourceForTransfer zk l sourceInfo mintInfo authorityInfo signers none newBalance = .ok l →
    (l sourceInfo.key).data.unpackAccount = .ok tokenAccount →
    tokenAccount.getExtension .confidentialTransferAccount = .ok e →
    e.elgamalPubkey = source → e.availableBalance = current →
    processSourceForTransfer zk l sourceInfo mintInfo authorityInfo signers (some info) newBalance =
      .ok (l.setData sourceInfo.key (.account (tokenAccount.setExtension .confidentialTransferAccount
        { e with
          availableBalance := data.equalityProofData.ciphertext
          decryptableAvailableBalance := newBalance })))
  destination : ∀ env l destinationInfo mintInfo tokenAccount e,
    processDestinationForTransfer zk env l destinationInfo mintInfo none = .ok l →
    (l destinationInfo.key).data.unpackAccount = .ok tokenAccount →
    tokenAccount.getExtension .confidentialTransferAccount = .ok e →
    e.elgamalPubkey = destination → sdk.wellFormed e.pendingBalanceLo = true →
    sdk.wellFormed e.pendingBalanceHi = true →
    ∃ e', processDestinationForTransfer zk env l destinationInfo mintInfo (some info) =
        .ok (l.setData destinationInfo.key
          (.account (tokenAccount.setExtension .confidentialTransferAccount e'))) ∧
      (sdk.DecryptsFor D destination →
        D.decrypt destination e'.pendingBalanceLo + 2 ^ 16 * D.decrypt destination e'.pendingBalanceHi =
          D.decrypt destination e.pendingBalanceLo +
            2 ^ 16 * D.decrypt destination e.pendingBalanceHi + (amount.toNat : Scalar))

/-- An honest client's split proofs are accepted; what it cannot transfer, it cannot prove. -/
theorem transferSplitProofData_accepted {sdk : ZkSdk} {zk : ZkOps} {D : Decryption Scalar}
    (hlawful : sdk.Lawful zk) (hcomplete : sdk.Complete D) (hhom : D.Homomorphic zk)
    {keypair : sdk.ElGamalKeypair} {aesKey : sdk.AeKey} {current : ElGamalCiphertext}
    {decryptable : AeCiphertext} {b : UInt64} (hkey : sdk.DecryptsFor D (sdk.pubkey keypair))
    (hholds : HoldsBalance sdk D keypair aesKey current decryptable b) (amount : UInt64)
    (destination : ElGamalPubkey) (auditor : Option ElGamalPubkey) (seeds : SplitSeeds sdk) :
    (amount ≤ b → amount.toNat < 2 ^ 48 → ∃ data info,
      transferSplitProofData sdk zk current decryptable amount keypair aesKey destination auditor
        seeds = .ok data ∧
      data.Accepted sdk zk D (sdk.pubkey keypair) destination (auditor.getD default) current b amount
        info) ∧
    (b < amount ∨ 2 ^ 48 ≤ amount.toNat → ∃ e,
      transferSplitProofData sdk zk current decryptable amount keypair aesKey destination auditor
        seeds = .error e) := by
  refine ⟨fun hle hlt => ?_, fun hno => ?_⟩
  · obtain ⟨data, s, hdata, hhonest, hparts, hremaining⟩ :=
      exists_honest hlawful hcomplete hhom hkey hholds hle hlt destination auditor seeds
    refine ⟨data, s.info (sdk.pubkey keypair) destination (auditor.getD default)
      data.equalityProofData.ciphertext, hdata, hhonest.verified, rfl, hremaining, ?_, ?_⟩
    · intro l sourceInfo mintInfo authorityInfo signers newBalance tokenAccount e hchecks hunpack hext
        hsource hbalance
      exact processSourceForTransfer_of_debited hchecks hunpack hext
        (hhonest.debited hsource hbalance newBalance)
    · intro env l destinationInfo mintInfo tokenAccount e hchecks hunpack hext hdestination hlo hhi
      obtain ⟨⟨n, hcounter⟩, hprocess⟩ :=
        processDestinationForTransfer_of_credited hchecks hunpack hext
      obtain ⟨lo, hi, haddLo, haddHi, hcredited⟩ := s.credited hlawful hdestination hlo hhi hcounter
      refine ⟨_, hprocess _ _ hcredited, fun hdecrypts => ?_⟩
      rw [hhom.add haddLo, hhom.add haddHi, hdecrypts s.lo s.openingLo, hdecrypts s.hi s.openingHi,
        ← hparts]
      push_cast
      ring
  · exact transferSplitProofData_refused hholds.decryptable hno current destination auditor seeds

/-! ### A client that knows the logarithms -/

/-- Eight slots, filled from a list. -/
def slots {α : Type} (xs : List α) (default : α) : Vector α 8 := Vector.ofFn fun i => xs.getD i default

/-- `o` times the point of `p`, whose logarithm is taken for the secret key. -/
def logHandle (p : ElGamalPubkey) (o : ℕ) : CompressedRistretto :=
  logPoint ((o : Scalar) * (p.point.log : Scalar)⁻¹).val

/-- The prover over logarithms, with commitments that are blinded by their openings. -/
def logSdk : ZkSdk where
  ElGamalKeypair := ElGamalPubkey
  AeKey := Unit
  PedersenOpening := ℕ
  Seed := ℕ
  pubkey := id
  aeDecrypt c _ := some (UInt64.ofNat c.bytes.toNat)
  pedersenWith n o := logPoint (n.toNat + o)
  pedersenNew n seed := (logPoint (n.toNat + seed), seed)
  decryptHandle := logHandle
  transferAmountCiphertext n p q r seed :=
    (⟨logPoint (n.toNat + seed), logHandle p seed, logHandle q seed, logHandle r seed⟩, seed)
  encryptWith p q n o := ⟨logPoint (n.toNat + o), logHandle p o, logHandle q o⟩
  wellFormed _ := true
  equalityProofData keypair c m _ _ := some ⟨keypair, c, m⟩
  validityProofData p q lo hi _ _ _ _ := some ⟨p, q, lo, hi⟩
  rangeProofData commitments _ bitLengths _ :=
    if commitments.length ≤ 8 ∧ bitLengths.sum = 128 then
      some ⟨slots commitments default, slots (bitLengths.map UInt8.ofNat) 0⟩
    else none

theorem toList_slots {α : Type} {xs : List α} (h : xs.length ≤ 8) (default : α) :
    (slots xs default).toList = xs ++ List.replicate (8 - xs.length) default := by
  refine List.ext_getElem ?_ fun i hi hi' => ?_
  · rw [Vector.length_toList, List.length_append, List.length_replicate]
    omega
  · simp only [slots, Vector.toList_ofFn, List.getElem_ofFn, List.getD_eq_getElem?_getD]
    rcases Nat.lt_or_ge i xs.length with hlt | hge
    · rw [List.getElem_append_left hlt, List.getElem?_eq_getElem hlt]
      rfl
    · rw [List.getElem_append_right hge, List.getElem_replicate, List.getElem?_eq_none hge]
      rfl

theorem logSdk_lawful : logSdk.Lawful logOps where
  pedersenNew _ seed := ⟨seed, rfl⟩
  transferAmountCiphertext _ _ _ _ seed := ⟨seed, rfl⟩
  encryptWith _ _ _ _ := rfl
  wellFormed _ _ _ := rfl
  subtractWithLoHi _ _ _ _ _ _ := ⟨_, rfl, rfl⟩
  add _ _ _ _ := ⟨_, rfl, rfl⟩

theorem logSdk_complete : logSdk.Complete logDecryption where
  equality _ _ _ _ _ _ := rfl
  validity _ _ _ _ _ _ := rfl
  range entries hlength hsum _ := by
    have hslots : ∀ {α : Type} (f : RangeEntry logSdk.PedersenOpening → α) (default : α),
        (slots (entries.map f) default).toList =
          entries.map f ++ List.replicate (8 - entries.length) default := by
      intro α f default
      rw [toList_slots (by rw [List.length_map]; exact hlength), List.length_map]
    have hbits : (entries.map RangeEntry.bitLength).map UInt8.ofNat =
        entries.map fun x => UInt8.ofNat x.bitLength := List.map_map
    refine ⟨_, if_pos ⟨by rw [List.length_map]; exact hlength, hsum⟩, hslots _ _, ?_⟩
    rw [hbits]
    exact hslots _ _

/-- A key whose logarithm is invertible decrypts. -/
theorem logSdk_decryptsFor {p : ElGamalPubkey} (h : Nat.Coprime p.point.log groupOrder) :
    logSdk.DecryptsFor logDecryption p := by
  intro n o
  obtain ⟨o, rfl⟩ : ∃ k : ℕ, k = o := ⟨o, rfl⟩
  have hinv : (p.point.log : Scalar) * (p.point.log : Scalar)⁻¹ = 1 := ZMod.coe_mul_inv_eq_one _ h
  change ((logPoint (n.toNat + o)).log : Scalar) - p.point.log * ((logHandle p o).log : Scalar) = _
  rw [logHandle, logPoint_log, logPoint_log, ZMod.natCast_zmod_val]
  calc ((n.toNat + o : ℕ) : Scalar) - p.point.log * (o * (p.point.log : Scalar)⁻¹)
      = n.toNat + o - o * (p.point.log * (p.point.log : Scalar)⁻¹) := by push_cast; ring
    _ = n.toNat := by rw [hinv, mul_one, add_sub_cancel_right]

/-- Seeds that are the openings themselves. -/
def logSeeds (lo hi newSource padding : ℕ) : SplitSeeds logSdk := ⟨lo, hi, newSource, padding⟩

/-- 100000 tokens of the source. -/
def logBalance : ElGamalCiphertext := ⟨logPoint (100000 + 11), logHandle sourceKey 11⟩

theorem transferSplitProofData_accepted_logs : ∃ data info,
    transferSplitProofData logSdk logOps logBalance ⟨100000⟩ 70000 sourceKey () destinationKey none
      (logSeeds 3 5 7 9) = .ok data ∧
    data.Accepted logSdk logOps logDecryption sourceKey destinationKey default logBalance 100000 70000
      info := by
  have hkey : logSdk.DecryptsFor logDecryption sourceKey := logSdk_decryptsFor (by decide +kernel)
  have hholds : HoldsBalance logSdk logDecryption sourceKey () logBalance ⟨100000⟩ 100000 :=
    ⟨rfl, hkey 100000 (11 : ℕ), by decide +kernel⟩
  exact (transferSplitProofData_accepted logSdk_lawful logSdk_complete logDecryption_homomorphic hkey
    hholds 70000 destinationKey none (logSeeds 3 5 7 9)).1 (by decide) (by decide)

end BarkToken
