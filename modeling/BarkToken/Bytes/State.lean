import BarkToken.Bytes.Base
import BarkToken.Processor.Common

/-!
# Account data, byte by byte (extension/mod.rs:257-325, 460-1017)

A base state, then nothing, or zero padding up to byte 165, the account type at
byte 165 and the TLV data behind it.
-/

namespace BarkToken
open Fallible Buffered

namespace AccountType

/-- `AccountType as u8`. -/
def toU8 : AccountType → UInt8
  | uninitialized => 0
  | mint => 1
  | account => 2

/-- `AccountType::try_from`. -/
def tryFrom (x : UInt8) : Except Fault AccountType :=
  if x = 0 then .ok uninitialized
  else if x = 1 then .ok mint
  else if x = 2 then .ok account
  else .error ProgramError.invalidAccountData

end AccountType

namespace Bytes

/-! ### Checks -/

/-- `check_min_len_and_not_multisig` (`extension/mod.rs:257-263`). -/
def checkMinLenAndNotMultisig (input : Bytes) (minimumLen : ℕ) : Except Fault Unit :=
  ensure (¬ (input.length = multisigLen ∨ input.length < minimumLen))
    (ProgramError.invalidAccountData : Fault)

/-- `check_account_type` (`extension/mod.rs:265-271`). -/
def checkAccountType (S : BaseState) (accountType : AccountType) : Except Fault Unit :=
  ensure (accountType = S.accountType) (ProgramError.invalidAccountData : Fault)

/-- `type_and_tlv_indices` (`extension/mod.rs:296-314`). -/
def typeAndTlvIndices (S : BaseState) (restInput : Bytes) : Except Fault (Option (ℕ × ℕ)) :=
  if restInput = [] then .ok none
  else
    let accountTypeIndex := baseAccountLength - S.sizeOf
    let tlvStartIndex := accountTypeIndex + 1
    if restInput.length ≤ tlvStartIndex then .error ProgramError.invalidAccountData
    -- the padding is all zeroes
    else if restInput.take accountTypeIndex ≠ List.replicate accountTypeIndex 0 then
      .error ProgramError.invalidAccountData
    else .ok (some (accountTypeIndex, tlvStartIndex))

/-- `is_initialized_account` (`extension/mod.rs:316-325`). -/
def isInitializedAccount (input : Bytes) : Except Fault Bool := do
  ensure (input.length = baseAccountLength) (ProgramError.invalidAccountData : Fault)
  return byte input 108 ≠ 0

/-! ### Immutable views -/

/-- `unpack_tlv_data` (`extension/mod.rs:945-957`). -/
def unpackTlvData (S : BaseState) (rest : Bytes) : Except Fault Bytes := do
  match ← typeAndTlvIndices S rest with
  | some (accountTypeIndex, tlvStartIndex) => do
    let accountType ← AccountType.tryFrom (byte rest accountTypeIndex)
    checkAccountType S accountType
    return rest.drop tlvStartIndex
  | none => return []

/-- `PodStateWithExtensions<S>`. -/
structure PodState (S : BaseState) where
  base : Pod S
  tlvData : Bytes

/-- `PodStateWithExtensions::<S>::unpack` (`extension/mod.rs:542-552`). -/
def unpack (S : BaseState) (input : Bytes) : Except Fault (PodState S) := do
  checkMinLenAndNotMultisig input S.sizeOf
  let base := podFromBytes S (input.take S.sizeOf)
  ensure (isInitialized S base) (ProgramError.uninitializedAccount : Fault)
  let tlvData ← unpackTlvData S (input.drop S.sizeOf)
  return ⟨base, tlvData⟩

/-- `StateWithExtensions<S>` and `StateWithExtensionsOwned<S>`. -/
structure PackedState (S : BaseState) where
  base : Packed S
  tlvData : Bytes

/-- `StateWithExtensions::<S>::unpack` (`extension/mod.rs:510-516`). -/
def unpackPacked (S : BaseState) (input : Bytes) : Except Fault (PackedState S) := do
  checkMinLenAndNotMultisig input S.sizeOf
  let base ← packUnpack S (input.take S.sizeOf)
  let tlvData ← unpackTlvData S (input.drop S.sizeOf)
  return ⟨base, tlvData⟩

/-- `StateWithExtensionsOwned::<S>::unpack` (`extension/mod.rs:472-493`), which
splits the vector where the others borrow from the slice. -/
def unpackOwned (S : BaseState) (input : Bytes) : Except Fault (PackedState S) := do
  checkMinLenAndNotMultisig input S.sizeOf
  let rest := input.drop S.sizeOf
  let base ← packUnpack S (input.take S.sizeOf)
  match ← typeAndTlvIndices S rest with
  | some (accountTypeIndex, tlvStartIndex) => do
    let accountType ← AccountType.tryFrom (byte rest accountTypeIndex)
    checkAccountType S accountType
    return ⟨base, rest.drop tlvStartIndex⟩
  | none => return ⟨base, []⟩

/-! ### Mutable views -/

/-- The bytes of the account, split where `unpack_type_and_tlv_data_mut` splits
them; base state, account type and TLV data are borrowed. -/
structure PodStateMut where
  base : Bytes
  padding : Bytes
  accountType : Bytes
  tlvData : Bytes
deriving DecidableEq

/-- The account data, after the writes through the view. -/
def PodStateMut.data (s : PodStateMut) : Bytes := s.base ++ s.padding ++ s.accountType ++ s.tlvData

/-- `unpack_type_and_tlv_data_with_check_mut` (`extension/mod.rs:959-980`). -/
def unpackTypeAndTlvDataWithCheckMut (S : BaseState) (base rest : Bytes)
    (checkFn : AccountType → Except Fault Unit) : Except Fault PodStateMut := do
  match ← typeAndTlvIndices S rest with
  | some (accountTypeIndex, tlvStartIndex) => do
    let accountType ← AccountType.tryFrom (byte rest accountTypeIndex)
    checkFn accountType
    return ⟨base, rest.take accountTypeIndex, field rest accountTypeIndex 1,
      rest.drop tlvStartIndex⟩
  | none => return ⟨base, [], [], []⟩

/-- `check_account_type_matches_extension_type` (`extension/mod.rs:790-800`). -/
def checkAccountTypeMatchesExtensionType (S : BaseState) (tlvData : Bytes) :
    Except Fault Unit := do
  match ← getFirstExtensionType tlvData with
  | some t => ensure (t.accountType = S.accountType) (TokenError.extensionBaseMismatch : Fault)
  | none => return ()

/-- `PodStateWithExtensionsMut::<S>::unpack` (`extension/mod.rs:887-901`). -/
def unpackMut (S : BaseState) (input : Bytes) : Except Fault PodStateMut := do
  checkMinLenAndNotMultisig input S.sizeOf
  let base := input.take S.sizeOf
  ensure (isInitialized S (podFromBytes S base)) (ProgramError.uninitializedAccount : Fault)
  unpackTypeAndTlvDataWithCheckMut S base (input.drop S.sizeOf) (checkAccountType S)

/-- `PodStateWithExtensionsMut::<S>::unpack_uninitialized`
(`extension/mod.rs:904-924`). -/
def unpackUninitialized (S : BaseState) (input : Bytes) : Except Fault PodStateMut := do
  checkMinLenAndNotMultisig input S.sizeOf
  let base := input.take S.sizeOf
  ensure (¬ isInitialized S (podFromBytes S base)) (TokenError.alreadyInUse : Fault)
  let state ← unpackTypeAndTlvDataWithCheckMut S base (input.drop S.sizeOf) fun accountType =>
    ensure (accountType = .uninitialized) (ProgramError.invalidAccountData : Fault)
  checkAccountTypeMatchesExtensionType S state.tlvData
  return state

/-- `StateWithExtensionsMut::<S>::unpack` (`extension/mod.rs:818-831`): the
packed base state beside the bytes it came from. -/
def unpackPackedMut (S : BaseState) (input : Bytes) : Except Fault (Packed S × PodStateMut) := do
  checkMinLenAndNotMultisig input S.sizeOf
  let base := input.take S.sizeOf
  let value ← packUnpack S base
  let state ← unpackTypeAndTlvDataWithCheckMut S base (input.drop S.sizeOf) (checkAccountType S)
  return (value, state)

/-- A call on the TLV data of the view. -/
def PodStateMut.onTlv (s : PodStateMut) {α : Type} (call : TlvM α) : Except Fault PodStateMut :=
  match call.run s.tlvData with
  | (.ok _, tlvData) => .ok { s with tlvData }
  | (.error e, _) => .error e

/-! ### Account types -/

/-- `init_account_type` (`extension/mod.rs:777-790`). -/
def initAccountType (S : BaseState) (s : PodStateMut) : Except Fault PodStateMut := do
  let firstExtensionType ← getFirstExtensionType s.tlvData
  if s.accountType = [] then return s
  else do
    match firstExtensionType with
    | some t => ensure (t.accountType = S.accountType) (TokenError.extensionBaseMismatch : Fault)
    | none => pure ()
    return { s with accountType := S.accountType.toU8 :: s.accountType.tail }

/-- `set_account_type` (`extension/mod.rs:996-1017`). -/
def setAccountType (S : BaseState) (input : Bytes) : Except Fault Bytes := do
  checkMinLenAndNotMultisig input S.sizeOf
  let baseData := input.take S.sizeOf
  let rest := input.drop S.sizeOf
  let initialized ← (if S.accountType = .account then isInitializedAccount baseData else .ok true)
  ensure (initialized = true) (ProgramError.invalidAccountData : Fault)
  match ← typeAndTlvIndices S rest with
  | some (accountTypeIndex, _) => do
    let accountType ← AccountType.tryFrom (byte rest accountTypeIndex)
    if accountType = .uninitialized then
      return baseData ++ rest.set accountTypeIndex S.accountType.toU8
    else do
      checkAccountType S accountType
      return input
  | none => .error ProgramError.invalidAccountData

/-! ### Lengths -/

/-- `current_extension_len` (`extension/mod.rs:384-386`). -/
def currentExtensionLen (S : BaseState) (v : ExtensionType) (tlvData : Bytes) : ℕ :=
  match getExtensionBytes S v tlvData with
  | .ok x => addTypeAndLengthToLen x.length
  | .error _ => 0

/-- `try_get_new_account_len_for_extension_len` (`extension/mod.rs:371-391`). -/
def tryGetNewAccountLenForExtensionLen (S : BaseState) (v : ExtensionType) (tlvData : Bytes)
    (newExtensionLen : ℕ) : Except Fault ℕ := do
  let newExtensionTlvLen := addTypeAndLengthToLen newExtensionLen
  let info ← getTlvDataInfo tlvData
  let currentLen := info.usedLen + baseAccountAndTypeLength
  return adjustLenForMultisig (currentLen - currentExtensionLen S v tlvData + newExtensionTlvLen)

/-- `try_get_new_account_len_for_variable_len_extension` (`extension/mod.rs:451-460`). -/
def tryGetNewAccountLenForVariableLenExtension (S : BaseState) (v : ExtensionType)
    (tlvData : Bytes) (newExtension : VariableLenPack) : Except Fault ℕ := do
  let packedLen ← newExtension.getPackedLen
  tryGetNewAccountLenForExtensionLen S v tlvData packedLen

/-- `try_get_account_len` (`extension/mod.rs:428-439`). -/
def tryGetAccountLen (S : BaseState) (tlvData : Bytes) : Except Fault ℕ := do
  let info ← getTlvDataInfo tlvData
  if info.extensionTypes = [] then return S.sizeOf
  else return adjustLenForMultisig (info.usedLen + baseAccountAndTypeLength)

/-! ### Writes with a reallocation of the account -/

/-- `AccountInfo::realloc(new_len, false)`: grows by at most 10 KiB, with zeroes
the runtime put there, or cuts off the end. -/
def reallocAccount (data : Bytes) (newLen : ℕ) : Except Fault Bytes := do
  ensure (newLen ≤ data.length + 10240) (ProgramError.invalidRealloc : Fault)
  return data.take newLen ++ List.replicate (newLen - data.length) 0

/-- `alloc_and_serialize` (`extension/mod.rs:1394-1424`), for a type of
`default.length` bytes. -/
def allocAndSerialize (S : BaseState) (v : ExtensionType) (default newExtension : Bytes)
    (overwrite : Bool) (data : Bytes) : Except Fault Bytes := do
  let previousAccountLen := data.length
  let state ← unpack S data
  let newAccountLen ← tryGetNewAccountLenForExtensionLen S v state.tlvData default.length
  let buffer ← (if newAccountLen > previousAccountLen then reallocAccount data newAccountLen
    else .ok data)
  let buffer ← (if previousAccountLen ≤ baseAccountLength then setAccountType S buffer
    else .ok buffer)
  let state ← unpackMut S buffer
  let state ← state.onTlv do
    let extension ← initExtension S v default overwrite
    extension.assign newExtension
  return state.data

/-- `alloc_and_serialize_variable_len_extension` (`extension/mod.rs:1438-1497`). -/
def allocAndSerializeVariableLen (S : BaseState) (v : ExtensionType)
    (newExtension : VariableLenPack) (overwrite : Bool) (data : Bytes) : Except Fault Bytes := do
  let previousAccountLen := data.length
  let state ← unpack S data
  let newAccountLen ← tryGetNewAccountLenForVariableLenExtension S v state.tlvData newExtension
  let extensionAlreadyExists := (getExtensionBytes S v state.tlvData).toBool
  ensure (¬ (extensionAlreadyExists = true ∧ overwrite = false))
    (TokenError.extensionAlreadyInitialized : Fault)
  if previousAccountLen < newAccountLen then do
    -- the account grows: room first, then the entry
    let buffer ← reallocAccount data newAccountLen
    if extensionAlreadyExists then do
      let state ← unpackMut S buffer
      let state ← state.onTlv (reallocVariableLenExtension v newExtension)
      return state.data
    else do
      let buffer ← (if previousAccountLen ≤ baseAccountLength then setAccountType S buffer
        else .ok buffer)
      let state ← unpackMut S buffer
      let state ← state.onTlv (initVariableLenExtension S v newExtension false)
      return state.data
  else do
    let state ← unpackMut S data
    let state ← (if extensionAlreadyExists then
        state.onTlv (reallocVariableLenExtension v newExtension)
      else state.onTlv (initVariableLenExtension S v newExtension false))
    let removedBytes := previousAccountLen - newAccountLen
    if removedBytes > 0 then reallocAccount state.data newAccountLen
    else return state.data

/-- A type `V` with `VariableLenPack`, both ways: what is packed at the packed
length unpacks to the value again. -/
structure VariableLenType (V : Type) where
  pack : V → VariableLenPack
  unpackFromSlice : Bytes → Except Fault V
  getPackedLen_eq : ∀ x, (pack x).getPackedLen = .ok (pack x).serialized.length
  packIntoSlice_eq : ∀ x dst, dst.length = (pack x).serialized.length →
    (pack x).packIntoSlice dst = .ok (pack x).serialized
  unpack_pack : ∀ x, unpackFromSlice (pack x).serialized = .ok x

/-- `get_variable_len_extension` (`extension/mod.rs:409-414`). -/
def getVariableLenExtension {V : Type} (type : VariableLenType V) (S : BaseState)
    (v : ExtensionType) (tlvData : Bytes) : Except Fault V := do
  let data ← getExtensionBytes S v tlvData
  type.unpackFromSlice data

/-- What `process_reallocate` does to the account data (`reallocate.rs:37-114`).
The owner has been validated, and the lamports are the ledger's concern. -/
def reallocateData (minimumBalance : ℕ → UInt64) (newExtensionTypes : List ExtensionType)
    (data : Bytes) : Except Fault Bytes := do
  let account ← unpackPacked .account data
  let info ← getTlvDataInfo account.tlvData
  ensure (∀ t ∈ newExtensionTypes, t.accountType = .account) (TokenError.invalidState : Fault)
  let neededAccountLen ← ExtensionType.calculateAccountLen baseAccountLength
    (info.extensionTypes ++ newExtensionTypes)
  if neededAccountLen ≤ data.length then return data
  else do
    let data ← reallocAccount data neededAccountLen
    let data ← setAccountType .account data
    if account.base.isNative.isSome then do
      let (base, state) ← unpackPackedMut .account data
      let base := { base with isNative := some (minimumBalance neededAccountLen) }
      return { state with base := packAccount base state.base }.data
    else return data

end Bytes
end BarkToken
