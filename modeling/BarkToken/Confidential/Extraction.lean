import BarkToken.Extension.Externals
import BarkToken.TransferFee.Fee

/-!
# Ciphertext extraction (extension/confidential_transfer/ciphertext_extraction.rs)

The consistency checks between the contexts of a split proof, and the
ciphertexts the processor takes out of them.
-/

namespace BarkToken
open Fallible

/-! ### Parts of a grouped ciphertext -/

/-- `extract_commitment_from_grouped_ciphertext` (`ciphertext_extraction.rs:46-53`). -/
def extractCommitmentFromGroupedCiphertext (c : GroupedElGamalCiphertext2Handles) :
    CompressedRistretto := c.commitment

/-- `transfer_amount_source_ciphertext` (`ciphertext_extraction.rs:70-80`). -/
def transferAmountSourceCiphertext (c : TransferAmountCiphertext) : ElGamalCiphertext :=
  ⟨c.commitment, c.sourceHandle⟩

/-- `transfer_amount_destination_ciphertext` (`ciphertext_extraction.rs:98-108`). -/
def transferAmountDestinationCiphertext (c : TransferAmountCiphertext) : ElGamalCiphertext :=
  ⟨c.commitment, c.destinationHandle⟩

/-- `fee_amount_destination_ciphertext` (`ciphertext_extraction.rs:124-134`). -/
def feeAmountDestinationCiphertext (c : FeeEncryption) : ElGamalCiphertext :=
  ⟨c.commitment, c.destinationHandle⟩

/-- `fee_amount_withdraw_withheld_authority_ciphertext`
(`ciphertext_extraction.rs:150-160`). -/
def feeAmountWithdrawWithheldAuthorityCiphertext (c : FeeEncryption) : ElGamalCiphertext :=
  ⟨c.commitment, c.auditorHandle⟩

/-- `transfer_amount_encryption_from_decrypt_handle`
(`ciphertext_extraction.rs:163-178`). -/
def transferAmountEncryptionFromDecryptHandle (sourceDecryptHandle : CompressedRistretto)
    (c : GroupedElGamalCiphertext2Handles) : TransferAmountCiphertext :=
  ⟨c.commitment, sourceDecryptHandle, c.destinationHandle, c.auditorHandle⟩

/-! ### Commitment arithmetic -/

/-- `G` (`ciphertext_extraction.rs:622-625`), the generator of the group. -/
def generator : CompressedRistretto :=
  ⟨0x762d8de04559a6b68ddd82a56a0be3585f5100c561a984a8714ebc6a0aaef2e2#256⟩

/-- `u64_to_scalar` and `u16_to_scalar` (`ciphertext_extraction.rs:627-639`). -/
def toScalar (n : ℕ) : PodScalar := ⟨BitVec.ofNat 256 n⟩

/-- `combine_lo_hi_pedersen_points` (`ciphertext_extraction.rs:641-650`). -/
def combineLoHiPedersenPoints (zk : ZkOps) (lo hi : CompressedRistretto) :
    Option CompressedRistretto := do
  let scaledHi ← zk.multiplyRistretto (toScalar 65536) hi
  zk.addRistretto lo scaledHi

/-- `verify_delta_commitment` (`ciphertext_extraction.rs:652-685`). -/
def verifyDeltaCommitment (zk : ZkOps)
    (transferAmountLo transferAmountHi fee proofDelta : CompressedRistretto)
    (transferFeeBasisPoints : UInt16) : Except Fault Unit := do
  let transferAmount ← okOr (combineLoHiPedersenPoints zk transferAmountLo transferAmountHi)
    (TokenError.ciphertextArithmeticFailed : Fault)
  let scaledTransferAmount ← okOr
    (zk.multiplyRistretto (toScalar transferFeeBasisPoints.toNat) transferAmount)
    (TokenError.ciphertextArithmeticFailed : Fault)
  let scaledFee ← okOr (zk.multiplyRistretto (toScalar maxFeeBasisPoints) fee)
    (TokenError.ciphertextArithmeticFailed : Fault)
  let expectedDelta ← okOr (zk.subtractRistretto scaledFee scaledTransferAmount)
    (TokenError.ciphertextArithmeticFailed : Fault)
  ensure (expectedDelta = proofDelta) (ProgramError.invalidInstructionData : Fault)

/-! ### Transfers without fee -/

/-- `TransferProofContextInfo` (`ciphertext_extraction.rs:193-205`). -/
structure TransferProofContextInfo where
  ciphertextLo : TransferAmountCiphertext
  ciphertextHi : TransferAmountCiphertext
  transferPubkeys : TransferPubkeysInfo
  newSourceCiphertext : ElGamalCiphertext
deriving DecidableEq

/-- `impl From<TransferProofContext>` (`ciphertext_extraction.rs:207-223`). -/
def TransferProofContextInfo.ofContext (c : TransferProofContext) : TransferProofContextInfo :=
  ⟨c.ciphertextLo, c.ciphertextHi, c.transferPubkeys, c.newSourceCiphertext⟩

/-- `TransferProofContextInfo::verify_and_extract` (`ciphertext_extraction.rs:230-334`).
The `zip`s stop at the shorter list: slots past the expected ones are free. -/
def TransferProofContextInfo.verifyAndExtract
    (equality : CiphertextCommitmentEqualityProofContext)
    (validity : BatchedGroupedCiphertext2HandlesValidityProofContext)
    (range : BatchedRangeProofContext) (handles : SourceDecryptHandles) :
    Except Fault TransferProofContextInfo := do
  let expectedCommitments :=
    [equality.commitment,
     extractCommitmentFromGroupedCiphertext validity.groupedCiphertextLo,
     extractCommitmentFromGroupedCiphertext validity.groupedCiphertextHi]
  ensure (∀ p ∈ range.commitments.toList.zip expectedCommitments, p.1 = p.2)
    (ProgramError.invalidInstructionData : Fault)
  let expectedBitLengths : List UInt8 := [64, 16, 32, 16]
  ensure (∀ p ∈ range.bitLengths.toList.zip expectedBitLengths, p.1 = p.2)
    (ProgramError.invalidInstructionData : Fault)
  return {
    ciphertextLo := transferAmountEncryptionFromDecryptHandle handles.lo
      validity.groupedCiphertextLo
    ciphertextHi := transferAmountEncryptionFromDecryptHandle handles.hi
      validity.groupedCiphertextHi
    transferPubkeys := ⟨equality.pubkey, validity.destinationPubkey, validity.auditorPubkey⟩
    newSourceCiphertext := equality.ciphertext }

/-! ### Transfers with fee -/

/-- `TransferWithFeeProofContextInfo` (`ciphertext_extraction.rs:349-368`). -/
structure TransferWithFeeProofContextInfo where
  ciphertextLo : TransferAmountCiphertext
  ciphertextHi : TransferAmountCiphertext
  transferWithFeePubkeys : TransferWithFeePubkeysInfo
  newSourceCiphertext : ElGamalCiphertext
  feeCiphertextLo : FeeEncryption
  feeCiphertextHi : FeeEncryption
deriving DecidableEq

/-- `impl From<TransferWithFeeProofContext>` (`ciphertext_extraction.rs:370-390`). -/
def TransferWithFeeProofContextInfo.ofContext (c : TransferWithFeeProofContext) :
    TransferWithFeeProofContextInfo :=
  ⟨c.ciphertextLo, c.ciphertextHi, c.transferWithFeePubkeys, c.newSourceCiphertext,
    c.feeCiphertextLo, c.feeCiphertextHi⟩

/-- `TransferWithFeeProofContextInfo::verify_and_extract`
(`ciphertext_extraction.rs:398-594`). -/
def TransferWithFeeProofContextInfo.verifyAndExtract (zk : ZkOps)
    (equality : CiphertextCommitmentEqualityProofContext)
    (validity : BatchedGroupedCiphertext2HandlesValidityProofContext)
    (feeSigma : FeeSigmaProofContext)
    (feeValidity : BatchedGroupedCiphertext2HandlesValidityProofContext)
    (range : BatchedRangeProofContext) (handles : SourceDecryptHandles)
    (feeParameters : TransferFee) : Except Fault TransferWithFeeProofContextInfo := do
  ensure (feeParameters.maximumFee = feeSigma.maxFee) (ProgramError.invalidInstructionData : Fault)
  ensure (validity.destinationPubkey = feeValidity.destinationPubkey)
    (ProgramError.invalidInstructionData : Fault)
  let transferAmountLo := extractCommitmentFromGroupedCiphertext validity.groupedCiphertextLo
  let transferAmountHi := extractCommitmentFromGroupedCiphertext validity.groupedCiphertextHi
  let feeLo := extractCommitmentFromGroupedCiphertext feeValidity.groupedCiphertextLo
  let feeHi := extractCommitmentFromGroupedCiphertext feeValidity.groupedCiphertextHi
  let maxFeeBasisPointsCommitment ← okOr
    (zk.multiplyRistretto (toScalar maxFeeBasisPoints) generator)
    (TokenError.ciphertextArithmeticFailed : Fault)
  let claimedComplement ← okOr
    (zk.subtractRistretto maxFeeBasisPointsCommitment feeSigma.claimedCommitment)
    (TokenError.ciphertextArithmeticFailed : Fault)
  let expectedCommitments :=
    [equality.commitment, transferAmountLo, transferAmountHi, feeSigma.claimedCommitment,
     claimedComplement, feeLo, feeHi]
  ensure (∀ p ∈ range.commitments.toList.zip expectedCommitments, p.1 = p.2)
    (ProgramError.invalidInstructionData : Fault)
  let expectedBitLengths : List UInt8 := [64, 16, 32, 48, 48, 16, 32]
  ensure (∀ p ∈ range.bitLengths.toList.zip expectedBitLengths, p.1 = p.2)
    (ProgramError.invalidInstructionData : Fault)
  let validityProofFee ← okOr (combineLoHiPedersenPoints zk feeLo feeHi)
    (TokenError.ciphertextArithmeticFailed : Fault)
  ensure (validityProofFee = feeSigma.feeCommitment) (ProgramError.invalidInstructionData : Fault)
  verifyDeltaCommitment zk transferAmountLo transferAmountHi feeSigma.feeCommitment
    feeSigma.deltaCommitment feeParameters.transferFeeBasisPoints
  return {
    ciphertextLo := transferAmountEncryptionFromDecryptHandle handles.lo
      validity.groupedCiphertextLo
    ciphertextHi := transferAmountEncryptionFromDecryptHandle handles.hi
      validity.groupedCiphertextHi
    transferWithFeePubkeys := ⟨equality.pubkey, validity.destinationPubkey,
      validity.auditorPubkey, feeValidity.auditorPubkey⟩
    newSourceCiphertext := equality.ciphertext
    feeCiphertextLo := feeValidity.groupedCiphertextLo
    feeCiphertextHi := feeValidity.groupedCiphertextHi }

end BarkToken
