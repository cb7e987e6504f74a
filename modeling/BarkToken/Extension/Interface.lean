import BarkToken.Extension.Externals
import BarkToken.Processor.Initialize

/-!
# Metadata and groups inside the mint (extension/token_metadata/processor.rs,
extension/token_group/processor.rs, extension/mod.rs:1379-1500)
-/

namespace BarkToken
open Fallible

/-! ### Reallocating writes -/

/-- `try_get_new_account_len_for_extension_len` (`extension/mod.rs:388-413`). -/
def tryGetNewAccountLen (mint : PodStateWithExtensions PodMint) (t : ExtensionType)
    (newExtensionLen : ℕ) : ℕ :=
  let currentLen := mint.tlv.usedLen + baseAccountAndTypeLength
  let currentExtensionLen := ((mint.tlv.get t).map fun v => Tlv.entryLen (t.valueLen v)).getD 0
  adjustLenForMultisig (currentLen - currentExtensionLen + Tlv.entryLen newExtensionLen)

/-- `account_info.realloc`, which grows an account by at most 10 KiB. -/
def checkRealloc (previousLen newLen : ℕ) : Except Fault Unit :=
  ensure (newLen ≤ previousLen + 10240) (ProgramError.invalidRealloc : Fault)

/-- `alloc_and_serialize` (`extension/mod.rs:1395-1424`): the account grows where
the extension needs it to. -/
def allocAndSerialize (t : ExtensionType) (v : t.Value) (overwrite : Bool) (k : Pubkey)
    (l : Ledger) : Except Fault Ledger := do
  let mint ← (l k).data.unpackMint
  let newLen := tryGetNewAccountLen mint t (t.valueLen v)
  checkRealloc mint.len newLen
  let mint ← { mint with len := max mint.len newLen }.initExtension t v overwrite
  l.writeData k (.mint mint)

/-- `realloc_variable_len_extension` (`extension/mod.rs:606-665`). -/
def reallocVariableLenExtension (mint : PodStateWithExtensions PodMint) (t : ExtensionType)
    (v : t.Value) : Except Fault (PodStateWithExtensions PodMint) := do
  let old ← mint.getExtension t
  ensure (t.valueLen v - t.valueLen old ≤ mint.freeLen) (ProgramError.invalidAccountData : Fault)
  ensure (t.valueLen v < 65536) (ProgramError.accountDataTooSmall : Fault)
  return mint.setExtension t v

/-- The entry is resized where it exists, and added where it does not. -/
def putVariableLenExtension (mint : PodStateWithExtensions PodMint) (t : ExtensionType)
    (v : t.Value) : Except Fault (PodStateWithExtensions PodMint) :=
  if mint.hasExtension t then reallocVariableLenExtension mint t v
  else mint.initExtension t v false

/-- `alloc_and_serialize_variable_len_extension` (`extension/mod.rs:1435-1500`):
the account grows ahead of the write, or shrinks after it. -/
def allocAndSerializeVariableLenExtension (t : ExtensionType) (v : t.Value) (overwrite : Bool)
    (k : Pubkey) (l : Ledger) : Except Fault Ledger := do
  let mint ← (l k).data.unpackMint
  let newLen := tryGetNewAccountLen mint t (t.valueLen v)
  ensure (¬ (mint.hasExtension t ∧ overwrite = false))
    (TokenError.extensionAlreadyInitialized : Fault)
  checkRealloc mint.len newLen
  let mint ← putVariableLenExtension { mint with len := max mint.len newLen } t v
  l.writeData k (.mint { mint with len := newLen })

/-- `check_update_authority` of both processors. -/
def checkUpdateAuthority (immutable incorrect : InterfaceError) (updateAuthorityInfo : AccountInfo)
    (expected : OptionalNonZeroPubkey) : Except Fault Unit := do
  ensure (updateAuthorityInfo.isSigner = true) (ProgramError.missingRequiredSignature : Fault)
  let updateAuthority ← okOr expected.toOption (immutable : Fault)
  ensure (updateAuthority = updateAuthorityInfo.key) (incorrect : Fault)

/-- The checks before an interface extension is added to a mint: it has to be
the mint itself, its mint authority has to sign, and its pointer has to exist. -/
def checkMintForInterface (pointer : ExtensionType) (extensionInfo mintInfo : AccountInfo)
    (mintAuthorityInfo : AccountInfo) (l : Ledger) : Except Fault Unit := do
  ensure (extensionInfo.key = mintInfo.key) (TokenError.mintMismatch : Fault)
  checkProgramAccount (l mintInfo.key).owner
  let mint ← (l mintInfo.key).data.unpackMint
  ensure (mintAuthorityInfo.isSigner = true) (ProgramError.missingRequiredSignature : Fault)
  ensure (mint.base.mintAuthority = some mintAuthorityInfo.key)
    (InterfaceError.incorrectMintAuthority : Fault)
  ensure (mint.hasExtension pointer) (TokenError.invalidExtensionCombination : Fault)

/-! ### Metadata -/

/-- `process_initialize` (`token_metadata/processor.rs:47-107`). -/
def processInitializeMetadata (name symbol uri : String) (accounts : List AccountInfo)
    (l : Ledger) : Except Fault Ledger := do
  let (metadataInfo, accounts) ← nextAccountInfo accounts
  let (updateAuthorityInfo, accounts) ← nextAccountInfo accounts
  let (mintInfo, accounts) ← nextAccountInfo accounts
  let (mintAuthorityInfo, _) ← nextAccountInfo accounts
  checkMintForInterface .metadataPointer metadataInfo mintInfo mintAuthorityInfo l
  let updateAuthority ← OptionalNonZeroPubkey.tryFrom (some updateAuthorityInfo.key)
  allocAndSerializeVariableLenExtension .tokenMetadata
    ⟨updateAuthority, mintInfo.key, name, symbol, uri, []⟩ false metadataInfo.key l

/-- The shape of the metadata updates: the stored update authority signs, and
the changed metadata is written back. -/
def updateTokenMetadata (update : TokenMetadata → Except Fault TokenMetadata)
    (accounts : List AccountInfo) (l : Ledger) : Except Fault Ledger := do
  let (metadataInfo, accounts) ← nextAccountInfo accounts
  let (updateAuthorityInfo, _) ← nextAccountInfo accounts
  let mint ← (l metadataInfo.key).data.unpackMint
  let tokenMetadata ← mint.getExtension .tokenMetadata
  checkUpdateAuthority .immutableMetadata .incorrectUpdateAuthority updateAuthorityInfo
    tokenMetadata.updateAuthority
  let tokenMetadata ← update tokenMetadata
  allocAndSerializeVariableLenExtension .tokenMetadata tokenMetadata true metadataInfo.key l

/-- `process_update_field` (`token_metadata/processor.rs:110-137`). -/
def processUpdateField (x : Externals) (field : MetadataField) (value : String)
    (accounts : List AccountInfo) (l : Ledger) : Except Fault Ledger :=
  updateTokenMetadata (fun m => pure (x.updateMetadata m field value)) accounts l

/-- `process_remove_key` (`token_metadata/processor.rs:140-164`). -/
def processRemoveKey (x : Externals) (idempotent : Bool) (key : String)
    (accounts : List AccountInfo) (l : Ledger) : Except Fault Ledger :=
  updateTokenMetadata
    (fun m => do
      let (m, removed) := x.removeKey m key
      ensure (removed = true ∨ idempotent = true) (InterfaceError.keyNotFound : Fault)
      return m)
    accounts l

/-- `process_update_authority` (`token_metadata/processor.rs:168-192`). -/
def processUpdateMetadataAuthority (newAuthority : OptionalNonZeroPubkey)
    (accounts : List AccountInfo) (l : Ledger) : Except Fault Ledger :=
  updateTokenMetadata (fun m => pure { m with updateAuthority := newAuthority }) accounts l

/-! ### Groups -/

/-- `process_initialize_group` (`token_group/processor.rs:47-94`). -/
def processInitializeGroup (updateAuthority : OptionalNonZeroPubkey) (maxSize : UInt32)
    (accounts : List AccountInfo) (l : Ledger) : Except Fault Ledger := do
  let (groupInfo, accounts) ← nextAccountInfo accounts
  let (mintInfo, accounts) ← nextAccountInfo accounts
  let (mintAuthorityInfo, _) ← nextAccountInfo accounts
  checkMintForInterface .groupPointer groupInfo mintInfo mintAuthorityInfo l
  allocAndSerialize .tokenGroup ⟨updateAuthority, mintInfo.key, 0, maxSize⟩ false groupInfo.key l

/-- The shape of the group updates. -/
def updateTokenGroup (update : TokenGroup → Except Fault TokenGroup) (accounts : List AccountInfo)
    (l : Ledger) : Except Fault Ledger := do
  let (groupInfo, accounts) ← nextAccountInfo accounts
  let (updateAuthorityInfo, _) ← nextAccountInfo accounts
  let mint ← (l groupInfo.key).data.unpackMint
  let group ← mint.getExtension .tokenGroup
  checkUpdateAuthority .immutableGroup .incorrectUpdateAuthority updateAuthorityInfo
    group.updateAuthority
  let group ← update group
  l.writeData groupInfo.key (.mint (mint.setExtension .tokenGroup group))

/-- `process_update_group_max_size` (`token_group/processor.rs:99-120`). -/
def processUpdateGroupMaxSize (x : Externals) (maxSize : UInt32) (accounts : List AccountInfo)
    (l : Ledger) : Except Fault Ledger :=
  updateTokenGroup (fun group => x.updateMaxSize group maxSize) accounts l

/-- `process_update_group_authority` (`token_group/processor.rs:125-146`). -/
def processUpdateGroupAuthority (newAuthority : OptionalNonZeroPubkey)
    (accounts : List AccountInfo) (l : Ledger) : Except Fault Ledger :=
  updateTokenGroup (fun group => pure { group with updateAuthority := newAuthority }) accounts l

/-- `process_initialize_member` (`token_group/processor.rs:150-209`). -/
def processInitializeMember (x : Externals) (accounts : List AccountInfo) (l : Ledger) :
    Except Fault Ledger := do
  let (memberInfo, accounts) ← nextAccountInfo accounts
  let (memberMintInfo, accounts) ← nextAccountInfo accounts
  let (memberMintAuthorityInfo, accounts) ← nextAccountInfo accounts
  let (groupInfo, accounts) ← nextAccountInfo accounts
  let (groupUpdateAuthorityInfo, _) ← nextAccountInfo accounts
  checkMintForInterface .groupMemberPointer memberInfo memberMintInfo memberMintAuthorityInfo l
  ensure (memberInfo.key ≠ groupInfo.key) (InterfaceError.memberAccountIsGroupAccount : Fault)
  let groupMint ← (l groupInfo.key).data.unpackMint
  let group ← groupMint.getExtension .tokenGroup
  checkUpdateAuthority .immutableGroup .incorrectUpdateAuthority groupUpdateAuthorityInfo
    group.updateAuthority
  let (group, memberNumber) ← x.incrementSize group
  let l ← l.writeData groupInfo.key (.mint (groupMint.setExtension .tokenGroup group))
  allocAndSerialize .tokenGroupMember ⟨memberMintInfo.key, groupInfo.key, memberNumber⟩ false
    memberInfo.key l

end BarkToken
