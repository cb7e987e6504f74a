import BarkToken.Confidential.Transfer

/-!
# Split proofs of a transfer (extension/confidential_transfer/split_proof_generation.rs)

What the client of a confidential transfer encrypts and proves. Of each proof the
context is modelled: the public data that the program is given.
-/

namespace BarkToken
open Fallible CheckedWord

/-- What `solana_zk_token_sdk` provides. Points, keys and ciphertexts are their encodings;
a seed is what an opening is drawn from. -/
structure ZkSdk where
  ElGamalKeypair : Type
  AeKey : Type
  PedersenOpening : Type
  Seed : Type
  /-- `ElGamalKeypair::pubkey`. -/
  pubkey : ElGamalKeypair → ElGamalPubkey
  /-- `AeCiphertext::decrypt`. -/
  aeDecrypt : AeCiphertext → AeKey → Option UInt64
  /-- `Pedersen::with`, the commitment to an amount under an opening. -/
  pedersenWith : UInt64 → PedersenOpening → CompressedRistretto
  /-- `Pedersen::new`. -/
  pedersenNew : UInt64 → Seed → CompressedRistretto × PedersenOpening
  /-- `DecryptHandle::new`. -/
  decryptHandle : ElGamalPubkey → PedersenOpening → CompressedRistretto
  /-- `TransferAmountCiphertext::new`, for the source, the destination and the auditor. -/
  transferAmountCiphertext : UInt64 → ElGamalPubkey → ElGamalPubkey → ElGamalPubkey → Seed →
    TransferAmountCiphertext × PedersenOpening
  /-- `GroupedElGamal::encrypt_with`, for two keys. -/
  encryptWith : ElGamalPubkey → ElGamalPubkey → UInt64 → PedersenOpening →
    GroupedElGamalCiphertext2Handles
  /-- `ElGamalCiphertext::try_from` succeeds. -/
  wellFormed : ElGamalCiphertext → Bool
  /-- `CiphertextCommitmentEqualityProofData::new`. -/
  equalityProofData : ElGamalKeypair → ElGamalCiphertext → CompressedRistretto → PedersenOpening →
    UInt64 → Option CiphertextCommitmentEqualityProofContext
  /-- `BatchedGroupedCiphertext2HandlesValidityProofData::new`. -/
  validityProofData : ElGamalPubkey → ElGamalPubkey → GroupedElGamalCiphertext2Handles →
    GroupedElGamalCiphertext2Handles → UInt64 → UInt64 → PedersenOpening → PedersenOpening →
    Option BatchedGroupedCiphertext2HandlesValidityProofContext
  /-- `BatchedRangeProofU128Data::new`. -/
  rangeProofData : List CompressedRistretto → List UInt64 → List ℕ → List PedersenOpening →
    Option BatchedRangeProofContext

/-- The four openings that a run draws. -/
structure SplitSeeds (sdk : ZkSdk) where
  lo : sdk.Seed
  hi : sdk.Seed
  newSource : sdk.Seed
  padding : sdk.Seed

/-- The contexts of the three proofs, and the source's handles. -/
structure SplitProofData where
  equalityProofData : CiphertextCommitmentEqualityProofContext
  ciphertextValidityProofData : BatchedGroupedCiphertext2HandlesValidityProofContext
  rangeProofData : BatchedRangeProofContext
  sourceDecryptHandles : SourceDecryptHandles
deriving DecidableEq

/-- `transfer_split_proof_data` (`split_proof_generation.rs:28-190`). -/
def transferSplitProofData (sdk : ZkSdk) (zk : ZkOps) (currentAvailableBalance : ElGamalCiphertext)
    (currentDecryptableAvailableBalance : AeCiphertext) (transferAmount : UInt64)
    (sourceElgamalKeypair : sdk.ElGamalKeypair) (aesKey : sdk.AeKey)
    (destinationElgamalPubkey : ElGamalPubkey) (auditorElgamalPubkey : Option ElGamalPubkey)
    (seeds : SplitSeeds sdk) : Except Fault SplitProofData := do
  let auditorElgamalPubkey := auditorElgamalPubkey.getD default
  let sourceElgamalPubkey := sdk.pubkey sourceElgamalKeypair
  let (transferAmountLo, transferAmountHi) ← verifyAndSplitDepositAmount transferAmount
  let (groupedCiphertextLo, openingLo) := sdk.transferAmountCiphertext transferAmountLo
    sourceElgamalPubkey destinationElgamalPubkey auditorElgamalPubkey seeds.lo
  let (groupedCiphertextHi, openingHi) := sdk.transferAmountCiphertext transferAmountHi
    sourceElgamalPubkey destinationElgamalPubkey auditorElgamalPubkey seeds.hi
  let currentDecryptedAvailableBalance ← okOr
    (sdk.aeDecrypt currentDecryptableAvailableBalance aesKey) (TokenError.accountDecryption : Fault)
  let newDecryptedAvailableBalance ← okOr
    (checkedSub currentDecryptedAvailableBalance transferAmount)
    (TokenError.insufficientFunds : Fault)
  let (newAvailableBalanceCommitment, newSourceOpening) :=
    sdk.pedersenNew newDecryptedAvailableBalance seeds.newSource
  let newAvailableBalanceCiphertext ← okOr
    (zk.subtractWithLoHi currentAvailableBalance
      (transferAmountSourceCiphertext groupedCiphertextLo)
      (transferAmountSourceCiphertext groupedCiphertextHi))
    (TokenError.ciphertextArithmeticFailed : Fault)
  ensure (sdk.wellFormed newAvailableBalanceCiphertext = true)
    (TokenError.malformedCiphertext : Fault)
  let equalityProofData ← okOr
    (sdk.equalityProofData sourceElgamalKeypair newAvailableBalanceCiphertext
      newAvailableBalanceCommitment newSourceOpening newDecryptedAvailableBalance)
    (TokenError.proofGeneration : Fault)
  let sourceDecryptHandles : SourceDecryptHandles :=
    ⟨sdk.decryptHandle sourceElgamalPubkey openingLo, sdk.decryptHandle sourceElgamalPubkey openingHi⟩
  let destinationAuditorCiphertextLo := sdk.encryptWith destinationElgamalPubkey
    auditorElgamalPubkey transferAmountLo openingLo
  let destinationAuditorCiphertextHi := sdk.encryptWith destinationElgamalPubkey
    auditorElgamalPubkey transferAmountHi openingHi
  let ciphertextValidityProofData ← okOr
    (sdk.validityProofData destinationElgamalPubkey auditorElgamalPubkey
      destinationAuditorCiphertextLo destinationAuditorCiphertextHi transferAmountLo
      transferAmountHi openingLo openingHi)
    (TokenError.proofGeneration : Fault)
  let (paddingCommitment, paddingOpening) := sdk.pedersenNew 0 seeds.padding
  let rangeProofData ← okOr
    (sdk.rangeProofData
      [newAvailableBalanceCommitment, groupedCiphertextLo.commitment,
        groupedCiphertextHi.commitment, paddingCommitment]
      [newDecryptedAvailableBalance, transferAmountLo, transferAmountHi, 0]
      [64, 16, 32, 16]
      [newSourceOpening, openingLo, openingHi, paddingOpening])
    (TokenError.proofGeneration : Fault)
  return ⟨equalityProofData, ciphertextValidityProofData, rangeProofData, sourceDecryptHandles⟩

end BarkToken
