import BarkToken.State.Extension

/-!
# Proof contexts

What a verified zero-knowledge proof is about: the public data that the proof
program leaves in a context state account, or that a sibling instruction of
the same transaction carries.
-/

namespace BarkToken

/-- `GroupedElGamalCiphertext2Handles`. `FeeEncryption` has the same layout,
its second handle being for the withdraw withheld authority. -/
structure GroupedElGamalCiphertext2Handles where
  commitment : CompressedRistretto
  destinationHandle : CompressedRistretto
  auditorHandle : CompressedRistretto
deriving DecidableEq, Inhabited

abbrev FeeEncryption := GroupedElGamalCiphertext2Handles

/-- `TransferAmountCiphertext`, a commitment with three handles. -/
structure TransferAmountCiphertext where
  commitment : CompressedRistretto
  sourceHandle : CompressedRistretto
  destinationHandle : CompressedRistretto
  auditorHandle : CompressedRistretto
deriving DecidableEq, Inhabited

structure TransferPubkeysInfo where
  source : ElGamalPubkey
  destination : ElGamalPubkey
  auditor : ElGamalPubkey
deriving DecidableEq, Inhabited

structure TransferWithFeePubkeysInfo where
  source : ElGamalPubkey
  destination : ElGamalPubkey
  auditor : ElGamalPubkey
  withdrawWithheldAuthority : ElGamalPubkey
deriving DecidableEq, Inhabited

structure ZeroBalanceProofContext where
  pubkey : ElGamalPubkey
  ciphertext : ElGamalCiphertext
deriving DecidableEq, Inhabited

structure WithdrawProofContext where
  pubkey : ElGamalPubkey
  finalCiphertext : ElGamalCiphertext
deriving DecidableEq, Inhabited

structure PubkeyValidityProofContext where
  pubkey : ElGamalPubkey
deriving DecidableEq, Inhabited

structure TransferProofContext where
  ciphertextLo : TransferAmountCiphertext
  ciphertextHi : TransferAmountCiphertext
  transferPubkeys : TransferPubkeysInfo
  newSourceCiphertext : ElGamalCiphertext
deriving DecidableEq, Inhabited

structure FeeParameters where
  feeRateBasisPoints : UInt16
  maximumFee : UInt64
deriving DecidableEq, Inhabited

structure TransferWithFeeProofContext where
  ciphertextLo : TransferAmountCiphertext
  ciphertextHi : TransferAmountCiphertext
  transferWithFeePubkeys : TransferWithFeePubkeysInfo
  newSourceCiphertext : ElGamalCiphertext
  feeCiphertextLo : FeeEncryption
  feeCiphertextHi : FeeEncryption
  feeParameters : FeeParameters
deriving DecidableEq, Inhabited

structure CiphertextCommitmentEqualityProofContext where
  pubkey : ElGamalPubkey
  ciphertext : ElGamalCiphertext
  commitment : CompressedRistretto
deriving DecidableEq, Inhabited

structure CiphertextCiphertextEqualityProofContext where
  sourcePubkey : ElGamalPubkey
  destinationPubkey : ElGamalPubkey
  sourceCiphertext : ElGamalCiphertext
  destinationCiphertext : ElGamalCiphertext
deriving DecidableEq, Inhabited

structure BatchedGroupedCiphertext2HandlesValidityProofContext where
  destinationPubkey : ElGamalPubkey
  auditorPubkey : ElGamalPubkey
  groupedCiphertextLo : GroupedElGamalCiphertext2Handles
  groupedCiphertextHi : GroupedElGamalCiphertext2Handles
deriving DecidableEq, Inhabited

/-- `BatchedRangeProofContext`: eight commitments and their bit lengths. -/
structure BatchedRangeProofContext where
  commitments : Vector CompressedRistretto 8
  bitLengths : Vector UInt8 8
deriving DecidableEq

structure FeeSigmaProofContext where
  feeCommitment : CompressedRistretto
  deltaCommitment : CompressedRistretto
  claimedCommitment : CompressedRistretto
  maxFee : UInt64
deriving DecidableEq, Inhabited

/-- A proof context tagged with its `ProofType`. -/
inductive ProofContext where
  | zeroBalance (c : ZeroBalanceProofContext)
  | withdraw (c : WithdrawProofContext)
  | pubkeyValidity (c : PubkeyValidityProofContext)
  | transfer (c : TransferProofContext)
  | transferWithFee (c : TransferWithFeeProofContext)
  | ciphertextCommitmentEquality (c : CiphertextCommitmentEqualityProofContext)
  | ciphertextCiphertextEquality (c : CiphertextCiphertextEqualityProofContext)
  | batchedGroupedCiphertext2HandlesValidity
      (c : BatchedGroupedCiphertext2HandlesValidityProofContext)
  | batchedRangeProofU128 (c : BatchedRangeProofContext)
  | batchedRangeProofU256 (c : BatchedRangeProofContext)
  | feeSigma (c : FeeSigmaProofContext)
deriving DecidableEq

/-- `SourceDecryptHandles`, taken from the instruction data. -/
structure SourceDecryptHandles where
  lo : CompressedRistretto
  hi : CompressedRistretto
deriving DecidableEq, Inhabited

end BarkToken
