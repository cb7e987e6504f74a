import BarkToken.Foundation.Buffer
import BarkToken.Foundation.Buffered
import BarkToken.State.AccountData

/-!
# The TLV area, byte by byte (extension/mod.rs:74-390, 560-735)

Entries are packed back to back in a fixed buffer: two bytes of type, two of
length, the value. Numbers are little-endian. Indices are natural numbers: a
buffer is far shorter than `usize::MAX`, so no saturating addition saturates.
A slice index out of range is a panic.
-/

namespace BarkToken
open Fallible

abbrev Bytes : Type := List UInt8

/-! ### Base states -/

/-- The types with `BaseState`: `PodMint` and `PodAccount`. -/
inductive BaseState where
  | mint
  | account
deriving DecidableEq

namespace BaseState

/-- `ACCOUNT_TYPE`. -/
def accountType : BaseState → AccountType
  | mint => .mint
  | account => .account

/-- `SIZE_OF`. -/
def sizeOf : BaseState → ℕ
  | mint => mintLen
  | account => baseAccountLength

end BaseState

/-! ### Discriminants -/

namespace ExtensionType

/-- The `u16` each type is written as. -/
def toU16 : ExtensionType → ℕ
  | transferFeeConfig => 1
  | transferFeeAmount => 2
  | mintCloseAuthority => 3
  | confidentialTransferMint => 4
  | confidentialTransferAccount => 5
  | defaultAccountState => 6
  | immutableOwner => 7
  | memoTransfer => 8
  | nonTransferable => 9
  | interestBearingConfig => 10
  | cpiGuard => 11
  | permanentDelegate => 12
  | nonTransferableAccount => 13
  | transferHook => 14
  | transferHookAccount => 15
  | confidentialTransferFeeConfig => 16
  | confidentialTransferFeeAmount => 17
  | metadataPointer => 18
  | tokenMetadata => 19
  | groupPointer => 20
  | tokenGroup => 21
  | groupMemberPointer => 22
  | tokenGroupMember => 23

/-- `TryFromPrimitive`, with `none` for `Uninitialized`. -/
def tryFromU16 : ℕ → Except Fault (Option ExtensionType)
  | 0 => .ok none
  | 1 => .ok (some transferFeeConfig)
  | 2 => .ok (some transferFeeAmount)
  | 3 => .ok (some mintCloseAuthority)
  | 4 => .ok (some confidentialTransferMint)
  | 5 => .ok (some confidentialTransferAccount)
  | 6 => .ok (some defaultAccountState)
  | 7 => .ok (some immutableOwner)
  | 8 => .ok (some memoTransfer)
  | 9 => .ok (some nonTransferable)
  | 10 => .ok (some interestBearingConfig)
  | 11 => .ok (some cpiGuard)
  | 12 => .ok (some permanentDelegate)
  | 13 => .ok (some nonTransferableAccount)
  | 14 => .ok (some transferHook)
  | 15 => .ok (some transferHookAccount)
  | 16 => .ok (some confidentialTransferFeeConfig)
  | 17 => .ok (some confidentialTransferFeeAmount)
  | 18 => .ok (some metadataPointer)
  | 19 => .ok (some tokenMetadata)
  | 20 => .ok (some groupPointer)
  | 21 => .ok (some tokenGroup)
  | 22 => .ok (some groupMemberPointer)
  | 23 => .ok (some tokenGroupMember)
  | _ => .error ProgramError.invalidAccountData

theorem tryFromU16_toU16 (t : ExtensionType) : tryFromU16 t.toU16 = .ok (some t) := by
  cases t <;> rfl

theorem toU16_lt (t : ExtensionType) : t.toU16 < 65536 := by
  cases t <;> decide

end ExtensionType

namespace Bytes

/-- `u16::to_le_bytes`. -/
def toLeBytes (n : ℕ) : Bytes := [UInt8.ofNat n, UInt8.ofNat (n / 256)]

/-- `u16::from_le_bytes`, of exactly two bytes. -/
def fromLeBytes : Bytes → Option ℕ
  | [lo, hi] => some (lo.toNat + 256 * hi.toNat)
  | _ => none

@[simp] theorem length_toLeBytes (n : ℕ) : (toLeBytes n).length = 2 := rfl

theorem fromLeBytes_toLeBytes {n : ℕ} (h : n < 65536) : fromLeBytes (toLeBytes n) = some n := by
  have hlo : (UInt8.ofNat n).toNat = n % 256 := UInt8.toNat_ofNat'
  have hhi : (UInt8.ofNat (n / 256)).toNat = n / 256 % 256 := UInt8.toNat_ofNat'
  simp only [fromLeBytes, toLeBytes, hlo, hhi, Option.some.injEq]
  omega

/-- `ExtensionType::try_from(&[u8])` (`extension/mod.rs:1106-1114`). -/
def extensionTypeTryFrom (a : Bytes) : Except Fault (Option ExtensionType) := do
  let n ← okOr (fromLeBytes a) (ProgramError.invalidAccountData : Fault)
  ExtensionType.tryFromU16 n

/-- `pod_from_bytes::<Length>`. -/
def podFromBytesLength (a : Bytes) : Except Fault ℕ :=
  okOr (fromLeBytes a) (ProgramError.invalidArgument : Fault)

/-- `Length::try_from` (`extension/mod.rs:88-95`), as the bytes it is written as. -/
def lengthTryFrom (n : ℕ) : Except Fault Bytes := do
  ensure (n < 65536) (ProgramError.accountDataTooSmall : Fault)
  return toLeBytes n

/-! ### Slices -/

/-- `b[i..j]`. -/
def slice (b : Bytes) (i j : ℕ) : Except Fault Bytes := okOr (Buffer.slice b i j) .panic

/-- `b[i..i + v.len()].copy_from_slice(v)`. -/
def write (b : Bytes) (i : ℕ) (v : Bytes) : Except Fault Bytes :=
  okOr (Buffer.write b i v) .panic

/-- `b.copy_within(i..j, k)`. -/
def copyWithin (b : Bytes) (i j k : ℕ) : Except Fault Bytes :=
  okOr (Buffer.copyWithin b i j k) .panic

/-- `b[i..j].fill(x)`. -/
def fill (b : Bytes) (i j : ℕ) (x : UInt8) : Except Fault Bytes :=
  okOr (Buffer.fill b i j x) .panic

/-! ### Reading -/

/-- `TlvIndices`. -/
structure TlvIndices where
  typeStart : ℕ
  lengthStart : ℕ
  valueStart : ℕ
deriving DecidableEq

/-- `get_tlv_indices` (`extension/mod.rs:98-106`). -/
def getTlvIndices (typeStart : ℕ) : TlvIndices :=
  ⟨typeStart, typeStart + 2, typeStart + 2 + 2⟩

/-- `add_type_and_length_to_len`. -/
def addTypeAndLengthToLen (valueLen : ℕ) : ℕ := valueLen + 2 + 2

def readType (tlvData : Bytes) (ix : TlvIndices) : Except Fault (Option ExtensionType) := do
  let a ← slice tlvData ix.typeStart ix.lengthStart
  extensionTypeTryFrom a

def readLength (tlvData : Bytes) (ix : TlvIndices) : Except Fault ℕ := do
  let a ← slice tlvData ix.lengthStart ix.valueStart
  podFromBytesLength a

/-- The loop of `get_extension_indices` (`extension/mod.rs:142-180`). -/
def getExtensionIndicesFrom (v : ExtensionType) (init : Bool) (tlvData : Bytes)
    (startIndex : ℕ) : Except Fault TlvIndices :=
  if startIndex < tlvData.length then
    if tlvData.length < (getTlvIndices startIndex).valueStart then
      .error ProgramError.invalidAccountData
    else do
      match ← readType tlvData (getTlvIndices startIndex) with
      | none =>
        -- an empty spot: nothing is written after it
        if init then .ok (getTlvIndices startIndex) else .error TokenError.extensionNotFound
      | some extensionType =>
        if extensionType = v then .ok (getTlvIndices startIndex)
        else if v.accountType ≠ extensionType.accountType then
          .error TokenError.extensionTypeMismatch
        else do
          let length ← readLength tlvData (getTlvIndices startIndex)
          getExtensionIndicesFrom v init tlvData ((getTlvIndices startIndex).valueStart + length)
  else .error ProgramError.invalidAccountData
termination_by tlvData.length - startIndex
decreasing_by simp only [getTlvIndices]; omega

def getExtensionIndices (v : ExtensionType) (tlvData : Bytes) (init : Bool) :
    Except Fault TlvIndices := getExtensionIndicesFrom v init tlvData 0

/-- `TlvDataInfo`. -/
structure TlvDataInfo where
  extensionTypes : List ExtensionType
  usedLen : ℕ
deriving DecidableEq

/-- The loop of `get_tlv_data_info` (`extension/mod.rs:197-237`). -/
def getTlvDataInfoFrom (tlvData : Bytes) (extensionTypes : List ExtensionType)
    (startIndex : ℕ) : Except Fault TlvDataInfo :=
  if startIndex < tlvData.length then
    -- the bytes left cannot hold another type
    if tlvData.length < (getTlvIndices startIndex).lengthStart then
      .ok ⟨extensionTypes, startIndex⟩
    else do
      match ← readType tlvData (getTlvIndices startIndex) with
      | none => .ok ⟨extensionTypes, startIndex⟩
      | some extensionType =>
        if tlvData.length < (getTlvIndices startIndex).valueStart then
          .error ProgramError.invalidAccountData
        else do
          let length ← readLength tlvData (getTlvIndices startIndex)
          let valueEnd := (getTlvIndices startIndex).valueStart + length
          if tlvData.length < valueEnd then .error ProgramError.invalidAccountData
          else getTlvDataInfoFrom tlvData (extensionTypes ++ [extensionType]) valueEnd
  else .ok ⟨extensionTypes, startIndex⟩
termination_by tlvData.length - startIndex
decreasing_by simp only [getTlvIndices]; omega

def getTlvDataInfo (tlvData : Bytes) : Except Fault TlvDataInfo :=
  getTlvDataInfoFrom tlvData [] 0

/-- `get_first_extension_type` (`extension/mod.rs:239-255`). -/
def getFirstExtensionType (tlvData : Bytes) : Except Fault (Option ExtensionType) :=
  if tlvData.length ≤ (getTlvIndices 0).lengthStart then .ok none
  else readType tlvData (getTlvIndices 0)

/-- `get_extension_bytes` (`extension/mod.rs:339-357`). -/
def getExtensionBytes (S : BaseState) (v : ExtensionType) (tlvData : Bytes) :
    Except Fault Bytes := do
  ensure (v.accountType = S.accountType) (ProgramError.invalidAccountData : Fault)
  let ix ← getExtensionIndices v tlvData false
  let length ← readLength tlvData ix
  let valueEnd := ix.valueStart + length
  ensure (valueEnd ≤ tlvData.length) (ProgramError.invalidAccountData : Fault)
  slice tlvData ix.valueStart valueEnd

/-! ### Writing

The functions below write through `&mut` into the TLV data. -/

open Buffered

abbrev TlvM (α : Type) : Type := Buffered Bytes Fault α

/-- `&mut tlv_data[start..stop]`. -/
structure SliceMut where
  start : ℕ
  stop : ℕ
deriving DecidableEq

/-- `&mut tlv_data[i..j]`. -/
def borrow (i j : ℕ) : TlvM SliceMut := do
  let _ ← reads (slice · i j)
  return ⟨i, j⟩

/-- A write of the whole slice; `copy_from_slice` panics where the lengths differ. -/
def SliceMut.assign (s : SliceMut) (v : Bytes) : TlvM Unit := do
  check (v.length = s.stop - s.start) .panic
  writes (write · s.start v)

/-- `alloc` (`extension/mod.rs:690-734`). -/
def alloc (S : BaseState) (v : ExtensionType) (length : ℕ) (overwrite : Bool) :
    TlvM SliceMut := do
  check (v.accountType = S.accountType) (ProgramError.invalidAccountData : Fault)
  let ix ← reads (getExtensionIndices v · true)
  let rest ← reads fun tlvData => slice tlvData ix.typeStart tlvData.length
  check (addTypeAndLengthToLen length ≤ rest.length) (ProgramError.invalidAccountData : Fault)
  let extensionType ← reads (readType · ix)
  check (extensionType = none ∨ overwrite = true) (TokenError.extensionAlreadyInitialized : Fault)
  writes (write · ix.typeStart (toLeBytes v.toU16))
  let lengthRef ← reads (readLength · ix)
  check (¬ (overwrite = true ∧ extensionType = some v ∧ lengthRef ≠ length))
    (TokenError.invalidLengthForAlloc : Fault)
  let lengthBytes ← reads fun _ => lengthTryFrom length
  writes (write · ix.lengthStart lengthBytes)
  borrow ix.valueStart (ix.valueStart + length)

/-- `realloc` (`extension/mod.rs:629-674`). -/
def realloc (v : ExtensionType) (length : ℕ) : TlvM SliceMut := do
  let ix ← reads (getExtensionIndices v · false)
  let info ← reads getTlvDataInfo
  let tlvLen := info.usedLen
  let oldLength ← reads (readLength · ix)
  -- the check comes first, so that the move below stays inside the buffer
  reads fun tlvData => ensure (oldLength < length → tlvLen + (length - oldLength) ≤ tlvData.length)
    (ProgramError.invalidAccountData : Fault)
  let lengthBytes ← reads fun _ => lengthTryFrom length
  writes (write · ix.lengthStart lengthBytes)
  let oldValueEnd := ix.valueStart + oldLength
  let newValueEnd := ix.valueStart + length
  writes (copyWithin · oldValueEnd tlvLen newValueEnd)
  writes fun tlvData =>
    match compare oldLength length with
    | .gt => fill tlvData (tlvLen - (oldLength - length)) tlvLen 0
    | .lt => fill tlvData oldValueEnd newValueEnd 0
    | .eq => .ok tlvData
  borrow ix.valueStart newValueEnd

/-- `init_extension` (`extension/mod.rs:597-606`): `V` is known by its type and
the bytes of its default value. -/
def initExtension (S : BaseState) (v : ExtensionType) (default : Bytes) (overwrite : Bool) :
    TlvM SliceMut := do
  let buffer ← alloc S v default.length overwrite
  buffer.assign default
  return buffer

/-- A value of a type with `VariableLenPack`, known by its serialized form. The
two fields after the functions state what the trait says of them. -/
structure VariableLenPack where
  serialized : Bytes
  getPackedLen : Except Fault ℕ
  packIntoSlice : Bytes → Except Fault Bytes
  packedLen_eq : ∀ n, getPackedLen = .ok n → n = serialized.length
  pack_eq : ∀ dst out, dst.length = serialized.length → packIntoSlice dst = .ok out →
    out = serialized

/-- `extension.pack_into_slice(data)`. -/
def SliceMut.pack (s : SliceMut) (extension : VariableLenPack) : TlvM Unit := do
  let packed ← reads fun tlvData => do
    let dst ← slice tlvData s.start s.stop
    extension.packIntoSlice dst
  s.assign packed

/-- `init_variable_len_extension` (`extension/mod.rs:681-688`). -/
def initVariableLenExtension (S : BaseState) (v : ExtensionType) (extension : VariableLenPack)
    (overwrite : Bool) : TlvM Unit := do
  let length ← reads fun _ => extension.getPackedLen
  let data ← alloc S v length overwrite
  data.pack extension

/-- `realloc_variable_len_extension` (`extension/mod.rs:612-618`). -/
def reallocVariableLenExtension (v : ExtensionType) (extension : VariableLenPack) :
    TlvM Unit := do
  let length ← reads fun _ => extension.getPackedLen
  let data ← realloc v length
  data.pack extension

end Bytes
end BarkToken
