import BarkToken.State.Pubkey
import BarkToken.Foundation.TypedStore

/-!
# Extension types and their contents (extension/mod.rs:1020-1330, extension/*/mod.rs)

Every extension is a fixed-layout structure except `TokenMetadata`, whose
length depends on its contents.
-/

namespace BarkToken

/-! ### Encrypted balances, as bytes -/

/-- A compressed curve point: Pedersen commitments, decrypt handles. -/
structure CompressedRistretto where
  bytes : BitVec 256
deriving DecidableEq, Inhabited

/-- `ElGamalPubkey`, 32 bytes. -/
structure ElGamalPubkey where
  point : CompressedRistretto
deriving DecidableEq, Inhabited

/-- `ElGamalCiphertext`, 64 bytes: the commitment, then the decrypt handle. -/
structure ElGamalCiphertext where
  commitment : CompressedRistretto
  handle : CompressedRistretto
deriving DecidableEq, Inhabited

/-- `AeCiphertext`, 36 bytes. -/
structure AeCiphertext where
  bytes : BitVec 288
deriving DecidableEq, Inhabited

/-- `EncryptedBalance::zeroed()`. -/
def ElGamalCiphertext.zeroed : ElGamalCiphertext := default

/-- `OptionalNonZeroElGamalPubkey`: all-zero bytes stand for `None`. -/
structure OptionalNonZeroElGamalPubkey where
  key : ElGamalPubkey
deriving DecidableEq, Inhabited

/-! ### Extension contents -/

inductive AccountState where
  | uninitialized
  | initialized
  | frozen
deriving DecidableEq, Inhabited

structure TransferFee where
  epoch : UInt64
  maximumFee : UInt64
  transferFeeBasisPoints : UInt16
deriving DecidableEq, Inhabited

structure TransferFeeConfig where
  transferFeeConfigAuthority : OptionalNonZeroPubkey
  withdrawWithheldAuthority : OptionalNonZeroPubkey
  withheldAmount : UInt64
  olderTransferFee : TransferFee
  newerTransferFee : TransferFee
deriving DecidableEq, Inhabited

structure TransferFeeAmount where
  withheldAmount : UInt64
deriving DecidableEq, Inhabited

structure MintCloseAuthority where
  closeAuthority : OptionalNonZeroPubkey
deriving DecidableEq, Inhabited

structure ConfidentialTransferMint where
  authority : OptionalNonZeroPubkey
  autoApproveNewAccounts : Bool
  auditorElgamalPubkey : OptionalNonZeroElGamalPubkey
deriving DecidableEq, Inhabited

structure ConfidentialTransferAccount where
  approved : Bool
  elgamalPubkey : ElGamalPubkey
  pendingBalanceLo : ElGamalCiphertext
  pendingBalanceHi : ElGamalCiphertext
  availableBalance : ElGamalCiphertext
  decryptableAvailableBalance : AeCiphertext
  allowConfidentialCredits : Bool
  allowNonConfidentialCredits : Bool
  pendingBalanceCreditCounter : UInt64
  maximumPendingBalanceCreditCounter : UInt64
  expectedPendingBalanceCreditCounter : UInt64
  actualPendingBalanceCreditCounter : UInt64
deriving DecidableEq, Inhabited

structure DefaultAccountState where
  state : AccountState
deriving DecidableEq, Inhabited

structure ImmutableOwner where
deriving DecidableEq, Inhabited

structure MemoTransfer where
  requireIncomingTransferMemos : Bool
deriving DecidableEq, Inhabited

structure NonTransferable where
deriving DecidableEq, Inhabited

structure InterestBearingConfig where
  rateAuthority : OptionalNonZeroPubkey
  initializationTimestamp : Int64
  preUpdateAverageRate : Int16
  lastUpdateTimestamp : Int64
  currentRate : Int16
deriving DecidableEq, Inhabited

structure CpiGuard where
  lockCpi : Bool
deriving DecidableEq, Inhabited

structure PermanentDelegate where
  delegate : OptionalNonZeroPubkey
deriving DecidableEq, Inhabited

structure NonTransferableAccount where
deriving DecidableEq, Inhabited

structure TransferHook where
  authority : OptionalNonZeroPubkey
  programId : OptionalNonZeroPubkey
deriving DecidableEq, Inhabited

structure TransferHookAccount where
  transferring : Bool
deriving DecidableEq, Inhabited

structure ConfidentialTransferFeeConfig where
  authority : OptionalNonZeroPubkey
  withdrawWithheldAuthorityElgamalPubkey : ElGamalPubkey
  harvestToMintEnabled : Bool
  withheldAmount : ElGamalCiphertext
deriving DecidableEq, Inhabited

structure ConfidentialTransferFeeAmount where
  withheldAmount : ElGamalCiphertext
deriving DecidableEq, Inhabited

structure MetadataPointer where
  authority : OptionalNonZeroPubkey
  metadataAddress : OptionalNonZeroPubkey
deriving DecidableEq, Inhabited

structure TokenMetadata where
  updateAuthority : OptionalNonZeroPubkey
  mint : Pubkey
  name : String
  symbol : String
  uri : String
  additionalMetadata : List (String × String)
deriving DecidableEq, Inhabited

structure GroupPointer where
  authority : OptionalNonZeroPubkey
  groupAddress : OptionalNonZeroPubkey
deriving DecidableEq, Inhabited

structure TokenGroup where
  updateAuthority : OptionalNonZeroPubkey
  mint : Pubkey
  size : UInt32
  maxSize : UInt32
deriving DecidableEq, Inhabited

structure GroupMemberPointer where
  authority : OptionalNonZeroPubkey
  memberAddress : OptionalNonZeroPubkey
deriving DecidableEq, Inhabited

structure TokenGroupMember where
  mint : Pubkey
  group : Pubkey
  memberNumber : UInt32
deriving DecidableEq, Inhabited

/-! ### Extension types -/

inductive AccountType where
  | uninitialized
  | mint
  | account
deriving DecidableEq

/-- `ExtensionType`, less `Uninitialized`, which marks an empty slot. -/
inductive ExtensionType where
  | transferFeeConfig
  | transferFeeAmount
  | mintCloseAuthority
  | confidentialTransferMint
  | confidentialTransferAccount
  | defaultAccountState
  | immutableOwner
  | memoTransfer
  | nonTransferable
  | interestBearingConfig
  | cpiGuard
  | permanentDelegate
  | nonTransferableAccount
  | transferHook
  | transferHookAccount
  | confidentialTransferFeeConfig
  | confidentialTransferFeeAmount
  | metadataPointer
  | tokenMetadata
  | groupPointer
  | tokenGroup
  | groupMemberPointer
  | tokenGroupMember
deriving DecidableEq

namespace ExtensionType

/-- The structure an entry of each type holds. -/
abbrev Value : ExtensionType → Type
  | transferFeeConfig => TransferFeeConfig
  | transferFeeAmount => TransferFeeAmount
  | mintCloseAuthority => MintCloseAuthority
  | confidentialTransferMint => ConfidentialTransferMint
  | confidentialTransferAccount => ConfidentialTransferAccount
  | defaultAccountState => DefaultAccountState
  | immutableOwner => ImmutableOwner
  | memoTransfer => MemoTransfer
  | nonTransferable => NonTransferable
  | interestBearingConfig => InterestBearingConfig
  | cpiGuard => CpiGuard
  | permanentDelegate => PermanentDelegate
  | nonTransferableAccount => NonTransferableAccount
  | transferHook => TransferHook
  | transferHookAccount => TransferHookAccount
  | confidentialTransferFeeConfig => ConfidentialTransferFeeConfig
  | confidentialTransferFeeAmount => ConfidentialTransferFeeAmount
  | metadataPointer => MetadataPointer
  | tokenMetadata => TokenMetadata
  | groupPointer => GroupPointer
  | tokenGroup => TokenGroup
  | groupMemberPointer => GroupMemberPointer
  | tokenGroupMember => TokenGroupMember

instance : (t : ExtensionType) → DecidableEq t.Value
  | transferFeeConfig => inferInstanceAs (DecidableEq TransferFeeConfig)
  | transferFeeAmount => inferInstanceAs (DecidableEq TransferFeeAmount)
  | mintCloseAuthority => inferInstanceAs (DecidableEq MintCloseAuthority)
  | confidentialTransferMint => inferInstanceAs (DecidableEq ConfidentialTransferMint)
  | confidentialTransferAccount => inferInstanceAs (DecidableEq ConfidentialTransferAccount)
  | defaultAccountState => inferInstanceAs (DecidableEq DefaultAccountState)
  | immutableOwner => inferInstanceAs (DecidableEq ImmutableOwner)
  | memoTransfer => inferInstanceAs (DecidableEq MemoTransfer)
  | nonTransferable => inferInstanceAs (DecidableEq NonTransferable)
  | interestBearingConfig => inferInstanceAs (DecidableEq InterestBearingConfig)
  | cpiGuard => inferInstanceAs (DecidableEq CpiGuard)
  | permanentDelegate => inferInstanceAs (DecidableEq PermanentDelegate)
  | nonTransferableAccount => inferInstanceAs (DecidableEq NonTransferableAccount)
  | transferHook => inferInstanceAs (DecidableEq TransferHook)
  | transferHookAccount => inferInstanceAs (DecidableEq TransferHookAccount)
  | confidentialTransferFeeConfig => inferInstanceAs (DecidableEq ConfidentialTransferFeeConfig)
  | confidentialTransferFeeAmount => inferInstanceAs (DecidableEq ConfidentialTransferFeeAmount)
  | metadataPointer => inferInstanceAs (DecidableEq MetadataPointer)
  | tokenMetadata => inferInstanceAs (DecidableEq TokenMetadata)
  | groupPointer => inferInstanceAs (DecidableEq GroupPointer)
  | tokenGroup => inferInstanceAs (DecidableEq TokenGroup)
  | groupMemberPointer => inferInstanceAs (DecidableEq GroupMemberPointer)
  | tokenGroupMember => inferInstanceAs (DecidableEq TokenGroupMember)

instance : (t : ExtensionType) → Inhabited t.Value
  | transferFeeConfig => inferInstanceAs (Inhabited TransferFeeConfig)
  | transferFeeAmount => inferInstanceAs (Inhabited TransferFeeAmount)
  | mintCloseAuthority => inferInstanceAs (Inhabited MintCloseAuthority)
  | confidentialTransferMint => inferInstanceAs (Inhabited ConfidentialTransferMint)
  | confidentialTransferAccount => inferInstanceAs (Inhabited ConfidentialTransferAccount)
  | defaultAccountState => inferInstanceAs (Inhabited DefaultAccountState)
  | immutableOwner => inferInstanceAs (Inhabited ImmutableOwner)
  | memoTransfer => inferInstanceAs (Inhabited MemoTransfer)
  | nonTransferable => inferInstanceAs (Inhabited NonTransferable)
  | interestBearingConfig => inferInstanceAs (Inhabited InterestBearingConfig)
  | cpiGuard => inferInstanceAs (Inhabited CpiGuard)
  | permanentDelegate => inferInstanceAs (Inhabited PermanentDelegate)
  | nonTransferableAccount => inferInstanceAs (Inhabited NonTransferableAccount)
  | transferHook => inferInstanceAs (Inhabited TransferHook)
  | transferHookAccount => inferInstanceAs (Inhabited TransferHookAccount)
  | confidentialTransferFeeConfig => inferInstanceAs (Inhabited ConfidentialTransferFeeConfig)
  | confidentialTransferFeeAmount => inferInstanceAs (Inhabited ConfidentialTransferFeeAmount)
  | metadataPointer => inferInstanceAs (Inhabited MetadataPointer)
  | tokenMetadata => inferInstanceAs (Inhabited TokenMetadata)
  | groupPointer => inferInstanceAs (Inhabited GroupPointer)
  | tokenGroup => inferInstanceAs (Inhabited TokenGroup)
  | groupMemberPointer => inferInstanceAs (Inhabited GroupMemberPointer)
  | tokenGroupMember => inferInstanceAs (Inhabited TokenGroupMember)

/-- `get_account_type` (`extension/mod.rs:1226-1262`). -/
def accountType : ExtensionType → AccountType
  | transferFeeConfig | mintCloseAuthority | confidentialTransferMint | defaultAccountState
  | nonTransferable | interestBearingConfig | permanentDelegate | transferHook
  | confidentialTransferFeeConfig | metadataPointer | tokenMetadata | groupPointer
  | tokenGroup | groupMemberPointer | tokenGroupMember => .mint
  | immutableOwner | transferFeeAmount | confidentialTransferAccount | memoTransfer
  | nonTransferableAccount | transferHookAccount | cpiGuard
  | confidentialTransferFeeAmount => .account

/-- `try_get_type_len` (`extension/mod.rs:1128-1177`): the packed length, for
every type but the variable-length one. -/
def typeLen : ExtensionType → Option ℕ
  | transferFeeConfig => some 108
  | transferFeeAmount => some 8
  | mintCloseAuthority => some 32
  | confidentialTransferMint => some 65
  | confidentialTransferAccount => some 295
  | defaultAccountState => some 1
  | immutableOwner => some 0
  | memoTransfer => some 1
  | nonTransferable => some 0
  | interestBearingConfig => some 52
  | cpiGuard => some 1
  | permanentDelegate => some 32
  | nonTransferableAccount => some 0
  | transferHook => some 64
  | transferHookAccount => some 1
  | confidentialTransferFeeConfig => some 129
  | confidentialTransferFeeAmount => some 64
  | metadataPointer => some 64
  | tokenMetadata => none
  | groupPointer => some 64
  | tokenGroup => some 72
  | groupMemberPointer => some 64
  | tokenGroupMember => some 68

end ExtensionType

/-- `TokenMetadata`'s serialized length: two keys, then length-prefixed
strings and a length-prefixed list of string pairs. -/
def TokenMetadata.packedLen (m : TokenMetadata) : ℕ :=
  let str (s : String) := 4 + s.utf8ByteSize
  64 + str m.name + str m.symbol + str m.uri + 4 +
    (m.additionalMetadata.map fun kv => str kv.1 + str kv.2).sum

/-- The bytes the value of an entry takes up. -/
def ExtensionType.valueLen : (t : ExtensionType) → t.Value → ℕ
  | tokenMetadata, v => v.packedLen
  | t, _ => t.typeLen.getD 0

/-- The entries of a TLV buffer, in writing order. -/
abbrev Tlv : Type := TypedStore ExtensionType ExtensionType.Value

namespace Tlv

/-- `add_type_and_length_to_len`: two bytes of type, two of length. -/
def entryLen (valueLen : ℕ) : ℕ := valueLen + 4

/-- `used_len` of `get_tlv_data_info`. -/
def usedLen (tlv : Tlv) : ℕ := (tlv.map fun e => entryLen (e.1.valueLen e.2)).sum

end Tlv

end BarkToken
