/-!
# Errors (error.rs and the program-error enumerations it is converted into)
-/

namespace BarkToken

/-- `ProgramError`, the variants this program returns. -/
inductive ProgramError where
  | invalidArgument
  | invalidInstructionData
  | invalidAccountData
  | accountDataTooSmall
  | insufficientFunds
  | incorrectProgramId
  | missingRequiredSignature
  | accountAlreadyInitialized
  | uninitializedAccount
  | notEnoughAccountKeys
  | accountBorrowFailed
  | invalidSeeds
  | accountNotRentExempt
  | unsupportedSysvar
  | illegalOwner
  | invalidRealloc
deriving DecidableEq

/-- `TokenError` (`error.rs:15-250`). -/
inductive TokenError where
  | notRentExempt
  | insufficientFunds
  | invalidMint
  | mintMismatch
  | ownerMismatch
  | fixedSupply
  | alreadyInUse
  | invalidNumberOfProvidedSigners
  | invalidNumberOfRequiredSigners
  | uninitializedState
  | nativeNotSupported
  | nonNativeHasBalance
  | invalidInstruction
  | invalidState
  | overflow
  | authorityTypeNotSupported
  | mintCannotFreeze
  | accountFrozen
  | mintDecimalsMismatch
  | nonNativeNotSupported
  | extensionTypeMismatch
  | extensionBaseMismatch
  | extensionAlreadyInitialized
  | confidentialTransferAccountHasBalance
  | confidentialTransferAccountNotApproved
  | confidentialTransferDepositsAndTransfersDisabled
  | confidentialTransferElGamalPubkeyMismatch
  | confidentialTransferBalanceMismatch
  | mintHasSupply
  | noAuthorityExists
  | transferFeeExceedsMaximum
  | mintRequiredForTransfer
  | feeMismatch
  | feeParametersMismatch
  | immutableOwner
  | accountHasWithheldTransferFees
  | noMemo
  | nonTransferable
  | nonTransferableNeedsImmutableOwnership
  | maximumPendingBalanceCreditCounterExceeded
  | maximumDepositAmountExceeded
  | cpiGuardSettingsLocked
  | cpiGuardTransferBlocked
  | cpiGuardBurnBlocked
  | cpiGuardCloseAccountBlocked
  | cpiGuardApproveBlocked
  | cpiGuardSetAuthorityBlocked
  | cpiGuardOwnerChangeBlocked
  | extensionNotFound
  | nonConfidentialTransfersDisabled
  | confidentialTransferFeeAccountHasWithheldFee
  | invalidExtensionCombination
  | invalidLengthForAlloc
  | accountDecryption
  | proofGeneration
  | invalidProofInstructionOffset
  | harvestToMintDisabled
  | splitProofContextStateAccountsNotSupported
  | notEnoughProofContextStateAccounts
  | malformedCiphertext
  | ciphertextArithmeticFailed
deriving DecidableEq

/-- `TokenMetadataError` and `TokenGroupError` of the two interfaces. -/
inductive InterfaceError where
  | incorrectMintAuthority
  | incorrectUpdateAuthority
  | immutableMetadata
  | keyNotFound
  | sizeExceedsNewMaxSize
  | sizeExceedsMaxSize
  | immutableGroup
  | memberAccountIsGroupAccount
deriving DecidableEq

/-- How a run of the program stops short: an error result, or a panic. Either
way the runtime discards every write of the instruction. -/
inductive Fault where
  | program (e : ProgramError)
  | token (e : TokenError)
  | interface (e : InterfaceError)
  | runtime
  | panic
deriving DecidableEq

instance : Coe ProgramError Fault := ⟨Fault.program⟩
instance : Coe TokenError Fault := ⟨Fault.token⟩
instance : Coe InterfaceError Fault := ⟨Fault.interface⟩

end BarkToken
