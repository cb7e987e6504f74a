import BarkToken.Foundation.Discriminant
import BarkToken.Program.Instruction
import BarkToken.Wire.Pod

/-!
# Extension instructions on the wire (extension/*/instruction.rs, extension/*/processor.rs)

Behind the tag of its extension, an instruction has a tag of its own and one
plain-data structure. Each decoder ends in the arguments of the handler.
-/

namespace BarkToken
namespace Wire
open Fallible Bytes

/-! ### Fields -/

/-- `w` bytes, little-endian. -/
def word (w : ℕ) : PacketCodec UInt8 (BitVec (8 * w)) where
  width := w
  write v := LittleEndian.bytes w v.toNat
  read b := BitVec.ofNat (8 * w) (LittleEndian.toNat b)
  length_write v := LittleEndian.length_bytes w v.toNat
  read_write v := by
    have hlt : v.toNat < 256 ^ w := v.isLt.trans_eq (by rw [pow_mul]; norm_num)
    rw [LittleEndian.toNat_bytes hlt, BitVec.ofNat_toNat, BitVec.setWidth_eq]
  write_read b h := by
    have hlt := LittleEndian.toNat_lt b
    have hpow : 256 ^ b.length = 2 ^ (8 * w) := by
      rw [h, pow_mul]
      norm_num
    rw [BitVec.toNat_ofNat, Nat.mod_eq_of_lt (hpow ▸ hlt), ← h]
    exact LittleEndian.bytes_toNat b

/-- `OptionalNonZeroPubkey`. -/
def optionalPubkey : PacketCodec UInt8 OptionalNonZeroPubkey :=
  pubkey.map ⟨OptionalNonZeroPubkey.mk, OptionalNonZeroPubkey.key, fun _ => rfl, fun _ => rfl⟩

/-- A compressed point, 32 bytes. -/
def point : PacketCodec UInt8 CompressedRistretto :=
  (word 32).map ⟨CompressedRistretto.mk, CompressedRistretto.bytes, fun _ => rfl, fun _ => rfl⟩

/-- `ElGamalPubkey`. -/
def elgamalPubkey : PacketCodec UInt8 ElGamalPubkey :=
  point.map ⟨ElGamalPubkey.mk, ElGamalPubkey.point, fun _ => rfl, fun _ => rfl⟩

/-- `OptionalNonZeroElGamalPubkey`. -/
def optionalElgamalPubkey : PacketCodec UInt8 OptionalNonZeroElGamalPubkey :=
  elgamalPubkey.map
    ⟨OptionalNonZeroElGamalPubkey.mk, OptionalNonZeroElGamalPubkey.key, fun _ => rfl, fun _ => rfl⟩

/-- `DecryptableBalance`, 36 bytes. -/
def decryptableBalance : PacketCodec UInt8 AeCiphertext :=
  (word 36).map ⟨AeCiphertext.mk, AeCiphertext.bytes, fun _ => rfl, fun _ => rfl⟩

/-- `proof_instruction_offset: i8`. -/
def proofInstructionOffset : PacketCodec UInt8 Int8 :=
  (PacketCodec.symbol).map ⟨UInt8.toInt8, Int8.toUInt8, UInt8.toUInt8_toInt8, Int8.toInt8_toUInt8⟩

/-- `BasisPoints` of the interest rate, an `i16`. -/
def rate : PacketCodec UInt8 Int16 :=
  basisPoints.map ⟨UInt16.toInt16, Int16.toUInt16, UInt16.toUInt16_toInt16, Int16.toInt16_toUInt16⟩

/-- `SourceDecryptHandles`. -/
def sourceDecryptHandles : PacketCodec UInt8 SourceDecryptHandles :=
  (point.pair point).map
    ⟨fun p => ⟨p.1, p.2⟩, fun h => (h.lo, h.hi), fun _ => rfl, fun _ => rfl⟩

/-- `bool::from(PodBool)`. -/
def podBool (x : UInt8) : Bool := x ≠ 0

/-- A `PodBool`, where `x` stands for true; `PodBool::from(bool)` writes 1. -/
def boolByte (x : UInt8) (b : Bool) : UInt8 := if b then x else 0

/-! ### Instruction types -/

inductive ConfidentialTransferInstruction where
  | initializeMint
  | updateMint
  | configureAccount
  | approveAccount
  | emptyAccount
  | deposit
  | withdraw
  | transfer
  | applyPendingBalance
  | enableConfidentialCredits
  | disableConfidentialCredits
  | enableNonConfidentialCredits
  | disableNonConfidentialCredits
  | transferWithSplitProofs
deriving DecidableEq

inductive ConfidentialTransferFeeInstruction where
  | initializeConfidentialTransferFeeConfig
  | withdrawWithheldTokensFromMint
  | withdrawWithheldTokensFromAccounts
  | harvestWithheldTokensToMint
  | enableHarvestToMint
  | disableHarvestToMint
deriving DecidableEq

/-- `RequiredMemoTransfersInstruction` and `CpiGuardInstruction`. -/
inductive ToggleInstruction where
  | enable
  | disable
deriving DecidableEq

/-- `InterestBearingMintInstruction`, where the update is of the rate, and the
instruction types of the default account state, of the transfer hook and of the
three pointers. -/
inductive ConfigInstruction where
  | init
  | update
deriving DecidableEq

instance : Discriminant ConfidentialTransferInstruction where
  variants := [.initializeMint, .updateMint, .configureAccount, .approveAccount, .emptyAccount,
    .deposit, .withdraw, .transfer, .applyPendingBalance, .enableConfidentialCredits,
    .disableConfidentialCredits, .enableNonConfidentialCredits, .disableNonConfidentialCredits,
    .transferWithSplitProofs]
  complete t := by cases t <;> decide
  nodup := by decide
  short := by decide

instance : Discriminant ConfidentialTransferFeeInstruction where
  variants := [.initializeConfidentialTransferFeeConfig, .withdrawWithheldTokensFromMint,
    .withdrawWithheldTokensFromAccounts, .harvestWithheldTokensToMint, .enableHarvestToMint,
    .disableHarvestToMint]
  complete t := by cases t <;> decide
  nodup := by decide
  short := by decide

instance : Discriminant ToggleInstruction where
  variants := [.enable, .disable]
  complete t := by cases t <;> decide
  nodup := by decide
  short := by decide

instance : Discriminant ConfigInstruction where
  variants := [.init, .update]
  complete t := by cases t <;> decide
  nodup := by decide
  short := by decide

/-- `AccountState::try_from(u8)`. -/
instance : Discriminant AccountState where
  variants := [.uninitialized, .initialized, .frozen]
  complete t := by cases t <;> decide
  nodup := by decide
  short := by decide

/-- `decode_instruction_type` (`instruction.rs:1931-1937`). -/
def decodeExtensionType (T : Type) [Discriminant T] (input : Bytes) : Except Fault T :=
  match input with
  | [] => .error ProgramError.invalidInstructionData
  | x :: _ => okOr (Discriminant.tryFrom T x) (TokenError.invalidInstruction : Fault)

/-! ### Data structures -/

/-- `InitializeMintData` of the confidential transfers: authority, automatic
approval and auditor. -/
def confidentialMintData :
    PacketCodec UInt8 (OptionalNonZeroPubkey × UInt8 × OptionalNonZeroElGamalPubkey) :=
  .pair optionalPubkey (.pair .symbol optionalElgamalPubkey)

/-- `UpdateMintData`. -/
def updateMintData : PacketCodec UInt8 (UInt8 × OptionalNonZeroElGamalPubkey) :=
  .pair .symbol optionalElgamalPubkey

/-- `ConfigureAccountInstructionData`. -/
def configureAccountData : PacketCodec UInt8 (AeCiphertext × UInt64 × Int8) :=
  .pair decryptableBalance (.pair amount proofInstructionOffset)

/-- `WithdrawInstructionData`. -/
def withdrawData : PacketCodec UInt8 (UInt64 × UInt8 × AeCiphertext × Int8) :=
  .pair amount (.pair .symbol (.pair decryptableBalance proofInstructionOffset))

/-- `TransferInstructionData`. -/
def transferData : PacketCodec UInt8 (AeCiphertext × Int8) :=
  .pair decryptableBalance proofInstructionOffset

/-- `ApplyPendingBalanceData`. -/
def applyPendingBalanceData : PacketCodec UInt8 (UInt64 × AeCiphertext) :=
  .pair amount decryptableBalance

/-- `TransferWithSplitProofsInstructionData`. -/
def splitProofsData : PacketCodec UInt8 (AeCiphertext × UInt8 × UInt8 × SourceDecryptHandles) :=
  .pair decryptableBalance (.pair .symbol (.pair .symbol sourceDecryptHandles))

/-- `InitializeConfidentialTransferFeeConfigData`. -/
def confidentialFeeConfigData : PacketCodec UInt8 (OptionalNonZeroPubkey × ElGamalPubkey) :=
  .pair optionalPubkey elgamalPubkey

/-- `WithdrawWithheldTokensFromMintData`. -/
def withdrawFromMintData : PacketCodec UInt8 (Int8 × AeCiphertext) :=
  .pair proofInstructionOffset decryptableBalance

/-- `WithdrawWithheldTokensFromAccountsData`. -/
def withdrawFromAccountsData : PacketCodec UInt8 (UInt8 × Int8 × AeCiphertext) :=
  .pair .symbol (.pair proofInstructionOffset decryptableBalance)

/-- `InitializeInstructionData` of the interest rate. -/
def interestData : PacketCodec UInt8 (OptionalNonZeroPubkey × Int16) := .pair optionalPubkey rate

/-- `InitializeInstructionData` of the transfer hook and of the pointers: an
authority and an address. -/
def pointerData : PacketCodec UInt8 (OptionalNonZeroPubkey × OptionalNonZeroPubkey) :=
  .pair optionalPubkey optionalPubkey

/-! ### Decoding -/

/-- `TransferFeeInstruction::unpack`, for the handler. -/
def decodeTransferFee (input : Bytes) : Except Fault BarkToken.TokenInstruction := do
  match ← TransferFeeInstruction.unpack input with
  | .initializeTransferFeeConfig configAuthority withheldAuthority transferFeeBasisPoints maximumFee =>
    return .initializeTransferFeeConfig configAuthority withheldAuthority transferFeeBasisPoints
      maximumFee
  | .transferCheckedWithFee amount decimals fee => return .transferCheckedWithFee amount decimals fee
  | .withdrawWithheldTokensFromMint => return .withdrawWithheldTokensFromMint
  | .withdrawWithheldTokensFromAccounts n => return .withdrawWithheldTokensFromAccounts n
  | .harvestWithheldTokensToMint => return .harvestWithheldTokensToMint
  | .setTransferFee transferFeeBasisPoints maximumFee =>
    return .setTransferFee transferFeeBasisPoints maximumFee

/-- `confidential_transfer/processor.rs:1073-1219`. -/
def decodeConfidentialTransfer (input : Bytes) : Except Fault BarkToken.TokenInstruction := do
  match ← decodeExtensionType ConfidentialTransferInstruction input with
  | .initializeMint => do
    let (authority, autoApprove, auditor) ← decodeInstructionData confidentialMintData input
    return .initializeConfidentialTransferMint authority (podBool autoApprove) auditor
  | .updateMint => do
    let (autoApprove, auditor) ← decodeInstructionData updateMintData input
    return .updateConfidentialTransferMint (podBool autoApprove) auditor
  | .configureAccount => do
    let (balance, maximumCounter, offset) ← decodeInstructionData configureAccountData input
    return .configureAccount balance maximumCounter offset
  | .approveAccount => return .approveAccount
  | .emptyAccount => do
    let offset ← decodeInstructionData proofInstructionOffset input
    return .emptyAccount offset
  | .deposit => do
    let (amount, decimals) ← decodeInstructionData amountCheckedData input
    return .deposit amount decimals
  | .withdraw => do
    let (amount, decimals, balance, offset) ← decodeInstructionData withdrawData input
    return .withdraw amount decimals balance offset
  | .transfer => do
    let (balance, offset) ← decodeInstructionData transferData input
    return .confidentialTransfer balance offset
  | .applyPendingBalance => do
    let (expectedCounter, balance) ← decodeInstructionData applyPendingBalanceData input
    return .applyPendingBalance expectedCounter balance
  | .disableConfidentialCredits => return .allowConfidentialCredits false
  | .enableConfidentialCredits => return .allowConfidentialCredits true
  | .disableNonConfidentialCredits => return .allowNonConfidentialCredits false
  | .enableNonConfidentialCredits => return .allowNonConfidentialCredits true
  | .transferWithSplitProofs => do
    let (balance, noOp, close, handles) ← decodeInstructionData splitProofsData input
    return .confidentialTransferWithSplitProofs balance (podBool noOp) (podBool close) handles

/-- `confidential_transfer_fee/processor.rs:459-535`. -/
def decodeConfidentialTransferFee (input : Bytes) : Except Fault BarkToken.TokenInstruction := do
  match ← decodeExtensionType ConfidentialTransferFeeInstruction input with
  | .initializeConfidentialTransferFeeConfig => do
    let (authority, pubkey) ← decodeInstructionData confidentialFeeConfigData input
    return .initializeConfidentialTransferFeeConfig authority pubkey
  | .withdrawWithheldTokensFromMint => do
    let (offset, balance) ← decodeInstructionData withdrawFromMintData input
    return .confidentialWithdrawFromMint balance offset
  | .withdrawWithheldTokensFromAccounts => do
    let (n, offset, balance) ← decodeInstructionData withdrawFromAccountsData input
    return .confidentialWithdrawFromAccounts n balance offset
  | .harvestWithheldTokensToMint => return .confidentialHarvestToMint
  | .enableHarvestToMint => return .toggleHarvestToMint true
  | .disableHarvestToMint => return .toggleHarvestToMint false

/-- `decode_instruction` (`default_account_state/instruction.rs:60-72`), for the
handler. -/
def decodeDefaultAccountState (input : Bytes) : Except Fault BarkToken.TokenInstruction :=
  match input with
  | [x, y] => do
    let instruction ← okOr (Discriminant.tryFrom ConfigInstruction x)
      (TokenError.invalidInstruction : Fault)
    let state ← okOr (Discriminant.tryFrom AccountState y) (TokenError.invalidInstruction : Fault)
    match instruction with
    | .init => return .initializeDefaultAccountState state
    | .update => return .updateDefaultAccountState state
  | _ => .error TokenError.invalidInstruction

/-- The shape of the memo and of the CPI guard instructions. -/
def decodeToggle (toggle : Bool → BarkToken.TokenInstruction) (input : Bytes) :
    Except Fault BarkToken.TokenInstruction := do
  match ← decodeExtensionType ToggleInstruction input with
  | .enable => return toggle true
  | .disable => return toggle false

/-- `memo_transfer/processor.rs:51-69`. -/
def decodeMemoTransfer : Bytes → Except Fault BarkToken.TokenInstruction :=
  decodeToggle .toggleRequiredMemoTransfers

/-- `cpi_guard/processor.rs:56-74`. -/
def decodeCpiGuard : Bytes → Except Fault BarkToken.TokenInstruction :=
  decodeToggle .toggleCpiGuard

/-- The shape of the instructions that initialise or update a configuration. -/
def decodeConfig {α β : Type} (initData : PacketCodec UInt8 α) (updateData : PacketCodec UInt8 β)
    (init : α → BarkToken.TokenInstruction) (update : β → BarkToken.TokenInstruction)
    (input : Bytes) : Except Fault BarkToken.TokenInstruction := do
  match ← decodeExtensionType ConfigInstruction input with
  | .init => return init (← decodeInstructionData initData input)
  | .update => return update (← decodeInstructionData updateData input)

/-- `interest_bearing_mint/processor.rs:86-107`. -/
def decodeInterestBearingMint : Bytes → Except Fault BarkToken.TokenInstruction :=
  decodeConfig interestData rate (fun d => .initializeInterestBearingMint d.1 d.2) .updateRate

/-- `transfer_hook/processor.rs:88-111`. -/
def decodeTransferHook : Bytes → Except Fault BarkToken.TokenInstruction :=
  decodeConfig pointerData optionalPubkey (fun d => .initializeTransferHook d.1 d.2)
    .updateTransferHook

/-- `metadata_pointer/processor.rs:79-100`. -/
def decodeMetadataPointer : Bytes → Except Fault BarkToken.TokenInstruction :=
  decodeConfig pointerData optionalPubkey (fun d => .initializeMetadataPointer d.1 d.2)
    .updateMetadataPointer

/-- `group_pointer/processor.rs:82-103`. -/
def decodeGroupPointer : Bytes → Except Fault BarkToken.TokenInstruction :=
  decodeConfig pointerData optionalPubkey (fun d => .initializeGroupPointer d.1 d.2)
    .updateGroupPointer

/-- `group_member_pointer/processor.rs:82-103`. -/
def decodeGroupMemberPointer : Bytes → Except Fault BarkToken.TokenInstruction :=
  decodeConfig pointerData optionalPubkey (fun d => .initializeGroupMemberPointer d.1 d.2)
    .updateGroupMemberPointer

/-! ### Encoding -/

/-- `encode_instruction` (`instruction.rs:1959-1976`): the tag of the extension, the
instruction type and its data. -/
def encodeInstruction {T : Type} [DecidableEq T] [Discriminant T]
    (tokenInstructionType : TokenInstruction) (instructionType : T) (instructionData : Bytes) : Bytes :=
  tokenInstructionType.pack ++ Discriminant.into instructionType :: instructionData

/-- The instructions of the confidential transfer extension. -/
def encodeConfidentialTransfer (t : ConfidentialTransferInstruction) (data : Bytes) : Bytes :=
  encodeInstruction .confidentialTransferExtension t data

/-- The instructions of its fee extension. -/
def encodeConfidentialTransferFee (t : ConfidentialTransferFeeInstruction) (data : Bytes) : Bytes :=
  encodeInstruction .confidentialTransferFeeExtension t data

/-- The memo and CPI guard instructions. -/
def encodeToggle (extension : TokenInstruction) (enable : Bool) : Bytes :=
  encodeInstruction extension (if enable then ToggleInstruction.enable else .disable) []

/-- An instruction as the client functions of `instruction.rs` and of the extensions
write it, with `x` and `y` for what is true; those of the metadata and group
interfaces have codecs of their own. -/
def encodeWith (x y : UInt8) : BarkToken.TokenInstruction → Option Bytes
  | .initializeMint decimals mintAuthority freezeAuthority rentSysvarAccount =>
    some (if rentSysvarAccount then
      (TokenInstruction.initializeMint decimals mintAuthority freezeAuthority).pack
    else (TokenInstruction.initializeMint2 decimals mintAuthority freezeAuthority).pack)
  | .initializeAccount => some TokenInstruction.initializeAccount.pack
  | .initializeAccount2 owner => some (TokenInstruction.initializeAccount2 owner).pack
  | .initializeAccount3 owner => some (TokenInstruction.initializeAccount3 owner).pack
  | .initializeMultisig m rentSysvarAccount =>
    some (if rentSysvarAccount then (TokenInstruction.initializeMultisig m).pack
    else (TokenInstruction.initializeMultisig2 m).pack)
  | .transfer amount => some (TokenInstruction.transfer amount).pack
  | .transferChecked amount decimals => some (TokenInstruction.transferChecked amount decimals).pack
  | .transferCheckedWithFee amount decimals fee =>
    some (TransferFeeInstruction.transferCheckedWithFee amount decimals fee).encodeInstructionData
  | .approve amount none => some (TokenInstruction.approve amount).pack
  | .approve amount (some decimals) => some (TokenInstruction.approveChecked amount decimals).pack
  | .revoke => some TokenInstruction.revoke.pack
  | .setAuthority authorityType newAuthority =>
    some (TokenInstruction.setAuthority authorityType newAuthority).pack
  | .mintTo amount none => some (TokenInstruction.mintTo amount).pack
  | .mintTo amount (some decimals) => some (TokenInstruction.mintToChecked amount decimals).pack
  | .burn amount none => some (TokenInstruction.burn amount).pack
  | .burn amount (some decimals) => some (TokenInstruction.burnChecked amount decimals).pack
  | .closeAccount => some TokenInstruction.closeAccount.pack
  | .toggleFreezeAccount freeze =>
    some (if freeze then TokenInstruction.freezeAccount.pack else TokenInstruction.thawAccount.pack)
  | .syncNative => some TokenInstruction.syncNative.pack
  | .getAccountDataSize extensionTypes =>
    some (TokenInstruction.getAccountDataSize (extensionTypes.map some)).pack
  | .initializeMintCloseAuthority closeAuthority =>
    some (TokenInstruction.initializeMintCloseAuthority closeAuthority).pack
  | .initializeImmutableOwner => some TokenInstruction.initializeImmutableOwner.pack
  | .reallocate extensionTypes => some (TokenInstruction.reallocate (extensionTypes.map some)).pack
  | .createNativeMint => some TokenInstruction.createNativeMint.pack
  | .initializeNonTransferableMint => some TokenInstruction.initializeNonTransferableMint.pack
  | .initializePermanentDelegate delegate =>
    some (TokenInstruction.initializePermanentDelegate delegate).pack
  | .withdrawExcessLamports => some TokenInstruction.withdrawExcessLamports.pack
  | .initializeTransferFeeConfig configAuthority withheldAuthority transferFeeBasisPoints maximumFee =>
    some (TransferFeeInstruction.initializeTransferFeeConfig configAuthority withheldAuthority
      transferFeeBasisPoints maximumFee).encodeInstructionData
  | .setTransferFee transferFeeBasisPoints maximumFee =>
    some (TransferFeeInstruction.setTransferFee transferFeeBasisPoints
      maximumFee).encodeInstructionData
  | .withdrawWithheldTokensFromMint =>
    some TransferFeeInstruction.withdrawWithheldTokensFromMint.encodeInstructionData
  | .withdrawWithheldTokensFromAccounts n =>
    some (TransferFeeInstruction.withdrawWithheldTokensFromAccounts n).encodeInstructionData
  | .harvestWithheldTokensToMint =>
    some TransferFeeInstruction.harvestWithheldTokensToMint.encodeInstructionData
  | .initializeDefaultAccountState state =>
    some (encodeInstruction .defaultAccountStateExtension ConfigInstruction.init
      [Discriminant.into state])
  | .updateDefaultAccountState state =>
    some (encodeInstruction .defaultAccountStateExtension ConfigInstruction.update
      [Discriminant.into state])
  | .toggleRequiredMemoTransfers enable => some (encodeToggle .memoTransferExtension enable)
  | .toggleCpiGuard enable => some (encodeToggle .cpiGuardExtension enable)
  | .initializeInterestBearingMint rateAuthority newRate =>
    some (encodeInstruction .interestBearingMintExtension ConfigInstruction.init
      (interestData.write (rateAuthority, newRate)))
  | .updateRate newRate =>
    some (encodeInstruction .interestBearingMintExtension ConfigInstruction.update
      (rate.write newRate))
  | .initializeTransferHook authority hookProgram =>
    some (encodeInstruction .transferHookExtension ConfigInstruction.init
      (pointerData.write (authority, hookProgram)))
  | .updateTransferHook hookProgram =>
    some (encodeInstruction .transferHookExtension ConfigInstruction.update
      (optionalPubkey.write hookProgram))
  | .initializeMetadataPointer authority metadataAddress =>
    some (encodeInstruction .metadataPointerExtension ConfigInstruction.init
      (pointerData.write (authority, metadataAddress)))
  | .updateMetadataPointer metadataAddress =>
    some (encodeInstruction .metadataPointerExtension ConfigInstruction.update
      (optionalPubkey.write metadataAddress))
  | .initializeGroupPointer authority groupAddress =>
    some (encodeInstruction .groupPointerExtension ConfigInstruction.init
      (pointerData.write (authority, groupAddress)))
  | .updateGroupPointer groupAddress =>
    some (encodeInstruction .groupPointerExtension ConfigInstruction.update
      (optionalPubkey.write groupAddress))
  | .initializeGroupMemberPointer authority memberAddress =>
    some (encodeInstruction .groupMemberPointerExtension ConfigInstruction.init
      (pointerData.write (authority, memberAddress)))
  | .updateGroupMemberPointer memberAddress =>
    some (encodeInstruction .groupMemberPointerExtension ConfigInstruction.update
      (optionalPubkey.write memberAddress))
  | .initializeConfidentialTransferMint authority autoApprove auditor =>
    some (encodeConfidentialTransfer .initializeMint
      (confidentialMintData.write (authority, boolByte x autoApprove, auditor)))
  | .updateConfidentialTransferMint autoApprove auditor =>
    some (encodeConfidentialTransfer .updateMint
      (updateMintData.write (boolByte x autoApprove, auditor)))
  | .configureAccount balance maximumCounter offset =>
    some (encodeConfidentialTransfer .configureAccount
      (configureAccountData.write (balance, maximumCounter, offset)))
  | .approveAccount => some (encodeConfidentialTransfer .approveAccount [])
  | .emptyAccount offset =>
    some (encodeConfidentialTransfer .emptyAccount (proofInstructionOffset.write offset))
  | .deposit amount decimals =>
    some (encodeConfidentialTransfer .deposit (amountCheckedData.write (amount, decimals)))
  | .withdraw amount decimals balance offset =>
    some (encodeConfidentialTransfer .withdraw
      (withdrawData.write (amount, decimals, balance, offset)))
  | .confidentialTransfer balance offset =>
    some (encodeConfidentialTransfer .transfer (transferData.write (balance, offset)))
  | .confidentialTransferWithSplitProofs balance noOp close handles =>
    some (encodeConfidentialTransfer .transferWithSplitProofs
      (splitProofsData.write (balance, boolByte x noOp, boolByte y close, handles)))
  | .applyPendingBalance expectedCounter balance =>
    some (encodeConfidentialTransfer .applyPendingBalance
      (applyPendingBalanceData.write (expectedCounter, balance)))
  | .allowConfidentialCredits allow =>
    some (encodeConfidentialTransfer
      (if allow then .enableConfidentialCredits else .disableConfidentialCredits) [])
  | .allowNonConfidentialCredits allow =>
    some (encodeConfidentialTransfer
      (if allow then .enableNonConfidentialCredits else .disableNonConfidentialCredits) [])
  | .initializeConfidentialTransferFeeConfig authority pubkey =>
    some (encodeConfidentialTransferFee .initializeConfidentialTransferFeeConfig
      (confidentialFeeConfigData.write (authority, pubkey)))
  | .confidentialWithdrawFromMint balance offset =>
    some (encodeConfidentialTransferFee .withdrawWithheldTokensFromMint
      (withdrawFromMintData.write (offset, balance)))
  | .confidentialWithdrawFromAccounts n balance offset =>
    some (encodeConfidentialTransferFee .withdrawWithheldTokensFromAccounts
      (withdrawFromAccountsData.write (n, offset, balance)))
  | .confidentialHarvestToMint =>
    some (encodeConfidentialTransferFee .harvestWithheldTokensToMint [])
  | .toggleHarvestToMint enable =>
    some (encodeConfidentialTransferFee
      (if enable then .enableHarvestToMint else .disableHarvestToMint) [])
  | .initializeMetadata _ _ _ => none
  | .updateField _ _ => none
  | .removeKey _ _ => none
  | .updateMetadataAuthority _ => none
  | .initializeGroup _ _ => none
  | .updateGroupMaxSize _ => none
  | .updateGroupAuthority _ => none
  | .initializeMember => none

/-- What the client functions write. -/
def encode : BarkToken.TokenInstruction → Option Bytes := encodeWith 1 1

end Wire
end BarkToken
