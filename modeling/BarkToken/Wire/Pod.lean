import BarkToken.Wire.Instruction

/-!
# The decoding of `Processor::process` (pod_instruction.rs, processor.rs:1528-1789)

The tag selects a plain-data type for the fields, whose length has to be exact; an
optional key comes behind it.
-/

namespace BarkToken
namespace Wire
open Fallible Bytes

/-- `PodTokenInstruction` (`pod_instruction.rs:65-117`). -/
inductive PodTokenInstruction where
  | initializeMint
  | initializeAccount
  | initializeMultisig
  | transfer
  | approve
  | revoke
  | setAuthority
  | mintTo
  | burn
  | closeAccount
  | freezeAccount
  | thawAccount
  | transferChecked
  | approveChecked
  | mintToChecked
  | burnChecked
  | initializeAccount2
  | syncNative
  | initializeAccount3
  | initializeMultisig2
  | initializeMint2
  | getAccountDataSize
  | initializeImmutableOwner
  | amountToUiAmount
  | uiAmountToAmount
  | initializeMintCloseAuthority
  | transferFeeExtension
  | confidentialTransferExtension
  | defaultAccountStateExtension
  | reallocate
  | memoTransferExtension
  | createNativeMint
  | initializeNonTransferableMint
  | interestBearingMintExtension
  | cpiGuardExtension
  | initializePermanentDelegate
  | transferHookExtension
  | confidentialTransferFeeExtension
  | withdrawExcessLamports
  | metadataPointerExtension
  | groupPointerExtension
  | groupMemberPointerExtension
deriving DecidableEq

namespace PodTokenInstruction

/-- The variants by their discriminant. -/
def variants : List PodTokenInstruction :=
  [initializeMint, initializeAccount, initializeMultisig, transfer, approve,
   revoke, setAuthority, mintTo, burn, closeAccount,
   freezeAccount, thawAccount, transferChecked, approveChecked, mintToChecked,
   burnChecked, initializeAccount2, syncNative, initializeAccount3, initializeMultisig2,
   initializeMint2, getAccountDataSize, initializeImmutableOwner, amountToUiAmount, uiAmountToAmount,
   initializeMintCloseAuthority, transferFeeExtension, confidentialTransferExtension,
   defaultAccountStateExtension, reallocate,
   memoTransferExtension, createNativeMint, initializeNonTransferableMint,
   interestBearingMintExtension, cpiGuardExtension,
   initializePermanentDelegate, transferHookExtension, confidentialTransferFeeExtension,
   withdrawExcessLamports, metadataPointerExtension,
   groupPointerExtension, groupMemberPointerExtension]

/-- `TryFromPrimitive`. -/
def tryFrom (x : UInt8) : Option PodTokenInstruction := variants[x.toNat]?

/-- `IntoPrimitive`. -/
def into (t : PodTokenInstruction) : UInt8 := UInt8.ofNat (variants.idxOf t)

end PodTokenInstruction

/-! ### Plain data -/

/-- `InitializeMintData`: decimals and mint authority. -/
def initializeMintData : PacketCodec UInt8 (UInt8 × Pubkey) := .pair .symbol pubkey

/-- `AmountCheckedData`: amount and decimals. -/
def amountCheckedData : PacketCodec UInt8 (UInt64 × UInt8) := .pair amount .symbol

/-- `spl_pod::bytemuck::pod_from_bytes`. -/
def podFromBytes {α : Type} (c : PacketCodec UInt8 α) (b : Bytes) : Except Fault α := do
  ensure (b.length = c.width) (ProgramError.invalidArgument : Fault)
  return c.read b

/-- `decode_instruction_type` (`instruction.rs:1931-1937`). -/
def decodeInstructionType (input : Bytes) : Except Fault PodTokenInstruction :=
  match input with
  | [] => .error ProgramError.invalidInstructionData
  | x :: _ => okOr (PodTokenInstruction.tryFrom x) (TokenError.invalidInstruction : Fault)

/-- `decode_instruction_data` (`instruction.rs:1950-1956`). -/
def decodeInstructionData {α : Type} (c : PacketCodec UInt8 α) (inputWithType : Bytes) :
    Except Fault α :=
  if inputWithType.length ≠ c.width + 1 then .error ProgramError.invalidInstructionData
  else do
    let data ← slice inputWithType 1 inputWithType.length
    podFromBytes c data

/-- `unpack_pubkey_option` of `pod_instruction.rs:119-131`. -/
def podUnpackPubkeyOption (input : Bytes) : Except Fault (Option Pubkey) :=
  match input with
  | 0 :: _ => .ok none
  | 1 :: rest => do
    let pk ← okOr (getFront pubkey rest) (ProgramError.invalidInstructionData : Fault)
    return some pk
  | _ => .error ProgramError.invalidInstructionData

/-- `decode_instruction_data_with_coption_pubkey` (`pod_instruction.rs:137-148`). -/
def decodeInstructionDataWithCOptionPubkey {α : Type} (c : PacketCodec UInt8 α)
    (inputWithType : Bytes) : Except Fault (α × Option Pubkey) := do
  let endOfT := c.width + 1
  let data ← okOr (Buffer.slice inputWithType 1 endOfT)
    (ProgramError.invalidInstructionData : Fault)
  let value ← podFromBytes c data
  let rest ← slice inputWithType endOfT inputWithType.length
  let pubkey ← podUnpackPubkeyOption rest
  return (value, pubkey)

/-- `input[1..].chunks(..).map(ExtensionType::try_from).collect()`. -/
def decodeExtensionTypes (input : Bytes) : Except Fault (List (Option ExtensionType)) := do
  let rest ← slice input 1 input.length
  (chunks rest).mapM extensionTypeTryFrom

namespace PodTokenInstruction
open BarkToken.Wire.TokenInstruction

/-- The arms of `Processor::process`, up to the handler; the instructions of an
extension are decoded further by its own processor. -/
def decode (input : Bytes) : PodTokenInstruction → Except Fault TokenInstruction
  | .initializeMint => do
    let (data, freezeAuthority) ← decodeInstructionDataWithCOptionPubkey initializeMintData input
    return .initializeMint data.1 data.2 freezeAuthority
  | .initializeMint2 => do
    let (data, freezeAuthority) ← decodeInstructionDataWithCOptionPubkey initializeMintData input
    return .initializeMint2 data.1 data.2 freezeAuthority
  | .initializeAccount => return .initializeAccount
  | .initializeAccount2 => do return .initializeAccount2 (← decodeInstructionData pubkey input)
  | .initializeAccount3 => do return .initializeAccount3 (← decodeInstructionData pubkey input)
  | .initializeMultisig => do return .initializeMultisig (← decodeInstructionData .symbol input)
  | .initializeMultisig2 => do return .initializeMultisig2 (← decodeInstructionData .symbol input)
  | .transfer => do return .transfer (← decodeInstructionData amount input)
  | .approve => do return .approve (← decodeInstructionData amount input)
  | .revoke => return .revoke
  | .setAuthority => do
    let (data, newAuthority) ← decodeInstructionDataWithCOptionPubkey .symbol input
    let authorityType ← authorityFrom data
    return .setAuthority authorityType newAuthority
  | .mintTo => do return .mintTo (← decodeInstructionData amount input)
  | .burn => do return .burn (← decodeInstructionData amount input)
  | .closeAccount => return .closeAccount
  | .freezeAccount => return .freezeAccount
  | .thawAccount => return .thawAccount
  | .transferChecked => do
    let data ← decodeInstructionData amountCheckedData input
    return .transferChecked data.1 data.2
  | .approveChecked => do
    let data ← decodeInstructionData amountCheckedData input
    return .approveChecked data.1 data.2
  | .mintToChecked => do
    let data ← decodeInstructionData amountCheckedData input
    return .mintToChecked data.1 data.2
  | .burnChecked => do
    let data ← decodeInstructionData amountCheckedData input
    return .burnChecked data.1 data.2
  | .syncNative => return .syncNative
  | .getAccountDataSize => do return .getAccountDataSize (← decodeExtensionTypes input)
  | .initializeMintCloseAuthority => do
    let (_, closeAuthority) ← decodeInstructionDataWithCOptionPubkey .unit input
    return .initializeMintCloseAuthority closeAuthority
  | .transferFeeExtension => return .transferFeeExtension
  | .confidentialTransferExtension => return .confidentialTransferExtension
  | .defaultAccountStateExtension => return .defaultAccountStateExtension
  | .initializeImmutableOwner => return .initializeImmutableOwner
  | .amountToUiAmount => do return .amountToUiAmount (← decodeInstructionData amount input)
  | .uiAmountToAmount => do
    let rest ← slice input 1 input.length
    let uiAmount ← okOr (fromUtf8 rest) (TokenError.invalidInstruction : Fault)
    return .uiAmountToAmount uiAmount
  | .reallocate => do return .reallocate (← decodeExtensionTypes input)
  | .memoTransferExtension => return .memoTransferExtension
  | .createNativeMint => return .createNativeMint
  | .initializeNonTransferableMint => return .initializeNonTransferableMint
  | .interestBearingMintExtension => return .interestBearingMintExtension
  | .cpiGuardExtension => return .cpiGuardExtension
  | .initializePermanentDelegate => do
    return .initializePermanentDelegate (← decodeInstructionData pubkey input)
  | .transferHookExtension => return .transferHookExtension
  | .confidentialTransferFeeExtension => return .confidentialTransferFeeExtension
  | .withdrawExcessLamports => return .withdrawExcessLamports
  | .metadataPointerExtension => return .metadataPointerExtension
  | .groupPointerExtension => return .groupPointerExtension
  | .groupMemberPointerExtension => return .groupMemberPointerExtension

end PodTokenInstruction

/-- The decoding of a base instruction by `Processor::process`. Where the tag is none
of this program's, the source tries the metadata and group interfaces instead. -/
def decodePod (input : Bytes) : Except Fault TokenInstruction := do
  let t ← decodeInstructionType input
  t.decode input

end Wire
end BarkToken
