import BarkToken.Bytes.Fields
import BarkToken.Foundation.PacketCodec
import BarkToken.Processor.Authority

/-!
# Instructions on the wire (instruction.rs:50-1162)

A tag byte and the fields behind it. `unpack` takes what it needs from the front
and ignores what follows, but for a list of extension types and for a string, which
take all of the rest.
-/

namespace BarkToken
namespace Wire
open Fallible Bytes

/-! ### Fields -/

def u16Bytes (n : UInt16) : Bytes := LittleEndian.bytes 2 n.toNat

def u16 (b : Bytes) : UInt16 := UInt16.ofNat (LittleEndian.toNat b)

/-- `Pubkey`, 32 bytes. -/
def pubkey : PacketCodec UInt8 Pubkey where
  width := 32
  write := keyBytes
  read b := key b 0
  length_write := length_keyBytes
  read_write k := key_of_drop (y := []) (by rw [List.drop_zero, List.append_nil])
  write_read b h := by
    rw [keyBytes_key (by omega), field, List.drop_zero, List.take_of_length_le h.le]

/-- `u64`, little-endian. -/
def amount : PacketCodec UInt8 UInt64 where
  width := 8
  write := u64Bytes
  read b := u64 b 0
  length_write := length_u64Bytes
  read_write n := u64_of_drop (y := []) (by rw [List.drop_zero, List.append_nil])
  write_read b h := by
    rw [u64Bytes_u64 (by omega), field, List.drop_zero, List.take_of_length_le h.le]

/-- `u16`, little-endian. -/
def basisPoints : PacketCodec UInt8 UInt16 where
  width := 2
  write := u16Bytes
  read := u16
  length_write n := LittleEndian.length_bytes 2 n.toNat
  read_write n := by
    rw [u16, u16Bytes, LittleEndian.toNat_bytes n.toNat_lt, UInt16.ofNat_toNat]
  write_read b h := by
    have hlt := LittleEndian.toNat_lt b
    rw [h] at hlt
    rw [u16Bytes, u16, UInt16.toNat_ofNat_of_lt' hlt, ← h]
    exact LittleEndian.bytes_toNat b

/-- The bytes of a string. -/
def utf8Bytes (s : String) : Bytes := s.toByteArray.data.toList

/-- `std::str::from_utf8(b).ok()`. -/
def fromUtf8 (b : Bytes) : Option String := String.fromUTF8? ⟨b.toArray⟩

/-- `b.split_first()`. -/
def splitFirst : Bytes → Option (UInt8 × Bytes)
  | [] => none
  | x :: rest => some (x, rest)

/-- `input.get(..WIDTH)`, read as a value. -/
def getFront {α : Type} (c : PacketCodec UInt8 α) (input : Bytes) : Option α :=
  (Buffer.slice input 0 c.width).map c.read

/-- The shape of `unpack_pubkey`, `unpack_u16` and `unpack_u64`. -/
def unpackFront {α : Type} (c : PacketCodec UInt8 α) (input : Bytes) :
    Except Fault (α × Bytes) := do
  let value ← okOr (getFront c input) (TokenError.invalidInstruction : Fault)
  let rest ← slice input c.width input.length
  return (value, rest)

/-- `unpack_pubkey` (`instruction.rs:1025-1031`). -/
def unpackPubkey (input : Bytes) : Except Fault (Pubkey × Bytes) := unpackFront pubkey input

/-- `unpack_u16` (`instruction.rs:1056-1063`). -/
def unpackU16 (input : Bytes) : Except Fault (UInt16 × Bytes) := unpackFront basisPoints input

/-- `unpack_u64` (`instruction.rs:1065-1072`). -/
def unpackU64 (input : Bytes) : Except Fault (UInt64 × Bytes) := unpackFront amount input

/-- `unpack_pubkey_option` (`instruction.rs:1033-1044`). -/
def unpackPubkeyOption (input : Bytes) : Except Fault (Option Pubkey × Bytes) :=
  match input with
  | 0 :: rest => .ok (none, rest)
  | 1 :: rest => do
    let (pk, rest) ← unpackPubkey rest
    return (some pk, rest)
  | _ => .error TokenError.invalidInstruction

/-- `pack_pubkey_option` (`instruction.rs:1046-1054`). -/
def packPubkeyOption : Option Pubkey → Bytes
  | some k => 1 :: keyBytes k
  | none => [0]

/-- `unpack_amount_decimals` (`instruction.rs:1074-1078`). -/
def unpackAmountDecimals (input : Bytes) : Except Fault (UInt64 × UInt8 × Bytes) := do
  let (amount, rest) ← unpackU64 input
  let (decimals, rest) ← okOr (splitFirst rest) (TokenError.invalidInstruction : Fault)
  return (amount, decimals, rest)

/-- `b.chunks(size_of::<ExtensionType>())`: pairs, and what is left over. -/
def chunks : Bytes → List Bytes
  | [] => []
  | [x] => [[x]]
  | x :: y :: rest => [x, y] :: chunks rest

/-- `ExtensionType`, where `none` is `Uninitialized`, as the two bytes it is written as. -/
def extensionTypeBytes : Option ExtensionType → Bytes
  | some t => toLeBytes t.toU16
  | none => toLeBytes 0

/-! ### The authority type -/

/-- `AuthorityType::into` (`instruction.rs:1121-1139`). -/
def authorityByte : AuthorityType → UInt8
  | .mintTokens => 0
  | .freezeAccount => 1
  | .accountOwner => 2
  | .closeAccount => 3
  | .transferFeeConfig => 4
  | .withheldWithdraw => 5
  | .closeMint => 6
  | .interestRate => 7
  | .permanentDelegate => 8
  | .confidentialTransferMint => 9
  | .transferHookProgramId => 10
  | .confidentialTransferFeeConfig => 11
  | .metadataPointer => 12
  | .groupPointer => 13
  | .groupMemberPointer => 14

/-- `AuthorityType::from` (`instruction.rs:1141-1160`). -/
def authorityFrom (index : UInt8) : Except Fault AuthorityType :=
  match index.toNat with
  | 0 => .ok .mintTokens
  | 1 => .ok .freezeAccount
  | 2 => .ok .accountOwner
  | 3 => .ok .closeAccount
  | 4 => .ok .transferFeeConfig
  | 5 => .ok .withheldWithdraw
  | 6 => .ok .closeMint
  | 7 => .ok .interestRate
  | 8 => .ok .permanentDelegate
  | 9 => .ok .confidentialTransferMint
  | 10 => .ok .transferHookProgramId
  | 11 => .ok .confidentialTransferFeeConfig
  | 12 => .ok .metadataPointer
  | 13 => .ok .groupPointer
  | 14 => .ok .groupMemberPointer
  | _ => .error TokenError.invalidInstruction

/-! ### The base instructions -/

/-- `TokenInstruction` (`instruction.rs:50-711`). -/
inductive TokenInstruction where
  | initializeMint (decimals : UInt8) (mintAuthority : Pubkey) (freezeAuthority : Option Pubkey)
  | initializeAccount
  | initializeMultisig (m : UInt8)
  | transfer (amount : UInt64)
  | approve (amount : UInt64)
  | revoke
  | setAuthority (authorityType : AuthorityType) (newAuthority : Option Pubkey)
  | mintTo (amount : UInt64)
  | burn (amount : UInt64)
  | closeAccount
  | freezeAccount
  | thawAccount
  | transferChecked (amount : UInt64) (decimals : UInt8)
  | approveChecked (amount : UInt64) (decimals : UInt8)
  | mintToChecked (amount : UInt64) (decimals : UInt8)
  | burnChecked (amount : UInt64) (decimals : UInt8)
  | initializeAccount2 (owner : Pubkey)
  | syncNative
  | initializeAccount3 (owner : Pubkey)
  | initializeMultisig2 (m : UInt8)
  | initializeMint2 (decimals : UInt8) (mintAuthority : Pubkey) (freezeAuthority : Option Pubkey)
  | getAccountDataSize (extensionTypes : List (Option ExtensionType))
  | initializeImmutableOwner
  | amountToUiAmount (amount : UInt64)
  | uiAmountToAmount (uiAmount : String)
  | initializeMintCloseAuthority (closeAuthority : Option Pubkey)
  | transferFeeExtension
  | confidentialTransferExtension
  | defaultAccountStateExtension
  | reallocate (extensionTypes : List (Option ExtensionType))
  | memoTransferExtension
  | createNativeMint
  | initializeNonTransferableMint
  | interestBearingMintExtension
  | cpiGuardExtension
  | initializePermanentDelegate (delegate : Pubkey)
  | transferHookExtension
  | confidentialTransferFeeExtension
  | withdrawExcessLamports
  | metadataPointerExtension
  | groupPointerExtension
  | groupMemberPointerExtension
deriving DecidableEq

namespace TokenInstruction

/-- The arms of `unpack` that take an amount only. -/
def unpackAmount (rest : Bytes) : Except Fault UInt64 :=
  okOr (getFront amount rest) (TokenError.invalidInstruction : Fault)

/-- The arms with a list of extension types. -/
def unpackExtensionTypes (rest : Bytes) : Except Fault (List (Option ExtensionType)) :=
  loop (fun types chunk => do
    let t ← extensionTypeTryFrom chunk
    return types ++ [t]) (chunks rest) []

/-- The arms of `unpack`, by tag. -/
def unpackFields : ℕ → Bytes → Except Fault TokenInstruction
  | 0, rest => do
    let (decimals, rest) ← okOr (splitFirst rest) (TokenError.invalidInstruction : Fault)
    let (mintAuthority, rest) ← unpackPubkey rest
    let (freezeAuthority, _) ← unpackPubkeyOption rest
    return initializeMint decimals mintAuthority freezeAuthority
  | 1, _ => return initializeAccount
  | 2, rest => do
    let (m, _) ← okOr (splitFirst rest) (TokenError.invalidInstruction : Fault)
    return initializeMultisig m
  | 3, rest => do return transfer (← unpackAmount rest)
  | 4, rest => do return approve (← unpackAmount rest)
  | 5, _ => return revoke
  | 6, rest => do
    let (t, rest) ← okOr (splitFirst rest) (TokenError.invalidInstruction : Fault)
    let authorityType ← authorityFrom t
    let (newAuthority, _) ← unpackPubkeyOption rest
    return setAuthority authorityType newAuthority
  | 7, rest => do return mintTo (← unpackAmount rest)
  | 8, rest => do return burn (← unpackAmount rest)
  | 9, _ => return closeAccount
  | 10, _ => return freezeAccount
  | 11, _ => return thawAccount
  | 12, rest => do
    let (amount, decimals, _) ← unpackAmountDecimals rest
    return transferChecked amount decimals
  | 13, rest => do
    let (amount, decimals, _) ← unpackAmountDecimals rest
    return approveChecked amount decimals
  | 14, rest => do
    let (amount, decimals, _) ← unpackAmountDecimals rest
    return mintToChecked amount decimals
  | 15, rest => do
    let (amount, decimals, _) ← unpackAmountDecimals rest
    return burnChecked amount decimals
  | 16, rest => do
    let (owner, _) ← unpackPubkey rest
    return initializeAccount2 owner
  | 17, _ => return syncNative
  | 18, rest => do
    let (owner, _) ← unpackPubkey rest
    return initializeAccount3 owner
  | 19, rest => do
    let (m, _) ← okOr (splitFirst rest) (TokenError.invalidInstruction : Fault)
    return initializeMultisig2 m
  | 20, rest => do
    let (decimals, rest) ← okOr (splitFirst rest) (TokenError.invalidInstruction : Fault)
    let (mintAuthority, rest) ← unpackPubkey rest
    let (freezeAuthority, _) ← unpackPubkeyOption rest
    return initializeMint2 decimals mintAuthority freezeAuthority
  | 21, rest => do return getAccountDataSize (← unpackExtensionTypes rest)
  | 22, _ => return initializeImmutableOwner
  | 23, rest => do
    let (amount, _) ← unpackU64 rest
    return amountToUiAmount amount
  | 24, rest => do
    let uiAmount ← okOr (fromUtf8 rest) (TokenError.invalidInstruction : Fault)
    return uiAmountToAmount uiAmount
  | 25, rest => do
    let (closeAuthority, _) ← unpackPubkeyOption rest
    return initializeMintCloseAuthority closeAuthority
  | 26, _ => return transferFeeExtension
  | 27, _ => return confidentialTransferExtension
  | 28, _ => return defaultAccountStateExtension
  | 29, rest => do return reallocate (← unpackExtensionTypes rest)
  | 30, _ => return memoTransferExtension
  | 31, _ => return createNativeMint
  | 32, _ => return initializeNonTransferableMint
  | 33, _ => return interestBearingMintExtension
  | 34, _ => return cpiGuardExtension
  | 35, rest => do
    let (delegate, _) ← unpackPubkey rest
    return initializePermanentDelegate delegate
  | 36, _ => return transferHookExtension
  | 37, _ => return confidentialTransferFeeExtension
  | 38, _ => return withdrawExcessLamports
  | 39, _ => return metadataPointerExtension
  | 40, _ => return groupPointerExtension
  | 41, _ => return groupMemberPointerExtension
  | _, _ => .error TokenError.invalidInstruction

/-- `TokenInstruction::unpack` (`instruction.rs:715-852`). -/
def unpack (input : Bytes) : Except Fault TokenInstruction := do
  let (tag, rest) ← okOr (splitFirst input) (TokenError.invalidInstruction : Fault)
  unpackFields tag.toNat rest

/-- `TokenInstruction::pack` (`instruction.rs:856-1023`). -/
def pack : TokenInstruction → Bytes
  | initializeMint decimals mintAuthority freezeAuthority =>
    0 :: decimals :: (keyBytes mintAuthority ++ packPubkeyOption freezeAuthority)
  | initializeAccount => [1]
  | initializeMultisig m => [2, m]
  | transfer amount => 3 :: u64Bytes amount
  | approve amount => 4 :: u64Bytes amount
  | mintTo amount => 7 :: u64Bytes amount
  | burn amount => 8 :: u64Bytes amount
  | revoke => [5]
  | setAuthority authorityType newAuthority =>
    6 :: authorityByte authorityType :: packPubkeyOption newAuthority
  | closeAccount => [9]
  | freezeAccount => [10]
  | thawAccount => [11]
  | transferChecked amount decimals => 12 :: (u64Bytes amount ++ [decimals])
  | approveChecked amount decimals => 13 :: (u64Bytes amount ++ [decimals])
  | mintToChecked amount decimals => 14 :: (u64Bytes amount ++ [decimals])
  | burnChecked amount decimals => 15 :: (u64Bytes amount ++ [decimals])
  | initializeAccount2 owner => 16 :: keyBytes owner
  | syncNative => [17]
  | initializeAccount3 owner => 18 :: keyBytes owner
  | initializeMultisig2 m => [19, m]
  | initializeMint2 decimals mintAuthority freezeAuthority =>
    20 :: decimals :: (keyBytes mintAuthority ++ packPubkeyOption freezeAuthority)
  | getAccountDataSize extensionTypes => 21 :: extensionTypes.flatMap extensionTypeBytes
  | initializeImmutableOwner => [22]
  | amountToUiAmount amount => 23 :: u64Bytes amount
  | uiAmountToAmount uiAmount => 24 :: utf8Bytes uiAmount
  | initializeMintCloseAuthority closeAuthority => 25 :: packPubkeyOption closeAuthority
  | transferFeeExtension => [26]
  | confidentialTransferExtension => [27]
  | defaultAccountStateExtension => [28]
  | reallocate extensionTypes => 29 :: extensionTypes.flatMap extensionTypeBytes
  | memoTransferExtension => [30]
  | createNativeMint => [31]
  | initializeNonTransferableMint => [32]
  | interestBearingMintExtension => [33]
  | cpiGuardExtension => [34]
  | initializePermanentDelegate delegate => 35 :: keyBytes delegate
  | transferHookExtension => [36]
  | confidentialTransferFeeExtension => [37]
  | withdrawExcessLamports => [38]
  | metadataPointerExtension => [39]
  | groupPointerExtension => [40]
  | groupMemberPointerExtension => [41]

end TokenInstruction

/-! ### The transfer-fee instructions -/

/-- `TransferFeeInstruction` (`extension/transfer_fee/instruction.rs:25-154`). -/
inductive TransferFeeInstruction where
  | initializeTransferFeeConfig (transferFeeConfigAuthority withdrawWithheldAuthority : Option Pubkey)
      (transferFeeBasisPoints : UInt16) (maximumFee : UInt64)
  | transferCheckedWithFee (amount : UInt64) (decimals : UInt8) (fee : UInt64)
  | withdrawWithheldTokensFromMint
  | withdrawWithheldTokensFromAccounts (numTokenAccounts : UInt8)
  | harvestWithheldTokensToMint
  | setTransferFee (transferFeeBasisPoints : UInt16) (maximumFee : UInt64)
deriving DecidableEq

namespace TransferFeeInstruction

/-- The arms of `unpack`, by tag. -/
def unpackFields : ℕ → Bytes → Except Fault TransferFeeInstruction
  | 0, rest => do
    let (transferFeeConfigAuthority, rest) ← unpackPubkeyOption rest
    let (withdrawWithheldAuthority, rest) ← unpackPubkeyOption rest
    let (transferFeeBasisPoints, rest) ← unpackU16 rest
    let (maximumFee, _) ← unpackU64 rest
    return initializeTransferFeeConfig transferFeeConfigAuthority withdrawWithheldAuthority
      transferFeeBasisPoints maximumFee
  | 1, rest => do
    let (amount, decimals, rest) ← unpackAmountDecimals rest
    let (fee, _) ← unpackU64 rest
    return transferCheckedWithFee amount decimals fee
  | 2, _ => return withdrawWithheldTokensFromMint
  | 3, rest => do
    let (numTokenAccounts, _) ← okOr (splitFirst rest) (TokenError.invalidInstruction : Fault)
    return withdrawWithheldTokensFromAccounts numTokenAccounts
  | 4, _ => return harvestWithheldTokensToMint
  | 5, rest => do
    let (transferFeeBasisPoints, rest) ← unpackU16 rest
    let (maximumFee, _) ← unpackU64 rest
    return setTransferFee transferFeeBasisPoints maximumFee
  | _, _ => .error TokenError.invalidInstruction

/-- `TransferFeeInstruction::unpack` (`transfer_fee/instruction.rs:157-200`). -/
def unpack (input : Bytes) : Except Fault TransferFeeInstruction := do
  let (tag, rest) ← okOr (splitFirst input) (TokenError.invalidInstruction : Fault)
  unpackFields tag.toNat rest

/-- What `pack` appends to its buffer. -/
def bytes : TransferFeeInstruction → Bytes
  | initializeTransferFeeConfig configAuthority withheldAuthority basisPoints maximumFee =>
    0 :: (packPubkeyOption configAuthority ++ (packPubkeyOption withheldAuthority ++
      (u16Bytes basisPoints ++ u64Bytes maximumFee)))
  | transferCheckedWithFee amount decimals fee =>
    1 :: (u64Bytes amount ++ decimals :: u64Bytes fee)
  | withdrawWithheldTokensFromMint => [2]
  | withdrawWithheldTokensFromAccounts numTokenAccounts => [3, numTokenAccounts]
  | harvestWithheldTokensToMint => [4]
  | setTransferFee basisPoints maximumFee => 5 :: (u16Bytes basisPoints ++ u64Bytes maximumFee)

/-- `TransferFeeInstruction::pack` (`transfer_fee/instruction.rs:204-247`). -/
def pack (i : TransferFeeInstruction) (buffer : Bytes) : Bytes := buffer ++ i.bytes

/-- `encode_instruction_data` (`transfer_fee/instruction.rs:250-254`). -/
def encodeInstructionData (i : TransferFeeInstruction) : Bytes :=
  i.pack TokenInstruction.transferFeeExtension.pack

end TransferFeeInstruction

end Wire
end BarkToken
