import BarkToken.Processor.Common

/-!
# Creating mints, accounts and multisigs (processor.rs:65-282, 1280-1453)
-/

namespace BarkToken
open Fallible CheckedWord

/-! ### Mints -/

/-- `check_for_invalid_mint_extension_combinations` (`extension/mod.rs:1292-1325`):
the two transfer extensions come with the confidential fee extension, which in
turn needs both. -/
def checkForInvalidMintExtensionCombinations (types : List ExtensionType) : Except Fault Unit := do
  ensure (¬ (ExtensionType.confidentialTransferFeeConfig ∈ types ∧
      ¬ (ExtensionType.transferFeeConfig ∈ types ∧ ExtensionType.confidentialTransferMint ∈ types)))
    (TokenError.invalidExtensionCombination : Fault)
  ensure (¬ (ExtensionType.transferFeeConfig ∈ types ∧
      ExtensionType.confidentialTransferMint ∈ types ∧
      ExtensionType.confidentialTransferFeeConfig ∉ types))
    (TokenError.invalidExtensionCombination : Fault)

/-- The state a `DefaultAccountState` extension asks for. -/
def defaultState (mint : PodStateWithExtensions PodMint) : Option AccountState :=
  (mint.tlv.get .defaultAccountState).map DefaultAccountState.state

/-- `_process_initialize_mint` (`processor.rs:65-105`). -/
def processInitializeMint (env : Env) (decimals : UInt8) (mintAuthority : Pubkey)
    (freezeAuthority : Option Pubkey) (rentSysvarAccount : Bool) (accounts : List AccountInfo)
    (l : Ledger) : Except Fault Ledger := do
  let (mintInfo, accounts) ← nextAccountInfo accounts
  let dataLen := (l mintInfo.key).data.len
  let _ ← takeRent rentSysvarAccount accounts
  ensure (env.isExempt (l mintInfo.key).lamports dataLen) (TokenError.notRentExempt : Fault)
  let mint ← (l mintInfo.key).data.unpackUninitializedMint
  let accountLen ← ExtensionType.calculateAccountLen mintLen mint.extensionTypes
  ensure (accountLen = dataLen) (ProgramError.invalidAccountData : Fault)
  checkForInvalidMintExtensionCombinations mint.extensionTypes
  ensure (¬ (defaultState mint = some .frozen ∧ freezeAuthority = none))
    (TokenError.mintCannotFreeze : Fault)
  let base : PodMint :=
    { mint.base with mintAuthority := some mintAuthority, decimals := decimals,
                     isInitialized := true, freezeAuthority := freezeAuthority }
  l.writeData mintInfo.key (.mint { mint with base := base })

/-- `process_create_native_mint` (`processor.rs:1379-1421`): the account is
allocated and assigned under this program's derived address. -/
def processCreateNativeMint (env : Env) (accounts : List AccountInfo) (l : Ledger) :
    Except Fault Ledger := do
  let (payerInfo, accounts) ← nextAccountInfo accounts
  let (nativeMintInfo, accounts) ← nextAccountInfo accounts
  let _ ← nextAccountInfo accounts
  ensure (nativeMintInfo.key = nativeMint) (TokenError.invalidMint : Fault)
  let newMinimumBalance := env.minimumBalance mintLen
  let lamportsDiff := saturatingSub newMinimumBalance (l nativeMintInfo.key).lamports
  let l ← systemTransfer l payerInfo nativeMintInfo.key lamportsDiff
  -- `system_instruction::allocate` and `assign` want an account of the system program without data
  ensure ((l nativeMintInfo.key).owner = systemProgram ∧ (l nativeMintInfo.key).data.len = 0)
    Fault.runtime
  let base : PodMint :=
    { (default : PodMint) with decimals := 9, isInitialized := true }
  return Function.update l nativeMintInfo.key
    { l nativeMintInfo.key with owner := programId, data := .mint ⟨base, mintLen, []⟩ }

/-- An extension allocated ahead of `InitializeMint`, then filled in. -/
def initMintExtension (t : ExtensionType) (v : Except Fault t.Value) (overwrite : Bool)
    (accounts : List AccountInfo) (l : Ledger) : Except Fault Ledger := do
  let (mintInfo, _) ← nextAccountInfo accounts
  let mint ← (l mintInfo.key).data.unpackUninitializedMint
  let mint ← mint.initExtension t default overwrite
  let v ← v
  l.writeData mintInfo.key (.zeroed mint.len (mint.setExtension t v).tlv)

/-- `OptionalNonZeroPubkey::try_from` of a `PodCOption<Pubkey>` or an
`Option<Pubkey>`: `Some` of the zero key is refused. -/
def OptionalNonZeroPubkey.tryFrom (k : Option Pubkey) : Except Fault OptionalNonZeroPubkey :=
  match k with
  | some p => do
    ensure (p ≠ default) (ProgramError.invalidArgument : Fault)
    return ⟨p⟩
  | none => return ⟨default⟩

/-- `process_initialize_mint_close_authority` (`processor.rs:1280-1295`). -/
def processInitializeMintCloseAuthority (closeAuthority : Option Pubkey)
    (accounts : List AccountInfo) (l : Ledger) : Except Fault Ledger :=
  initMintExtension .mintCloseAuthority
    (do return ⟨← OptionalNonZeroPubkey.tryFrom closeAuthority⟩) true accounts l

/-- `process_initialize_non_transferable_mint` (`processor.rs:1425-1434`). -/
def processInitializeNonTransferableMint (accounts : List AccountInfo) (l : Ledger) :
    Except Fault Ledger :=
  initMintExtension .nonTransferable (pure ⟨⟩) true accounts l

/-- `process_initialize_permanent_delegate` (`processor.rs:1438-1451`). -/
def processInitializePermanentDelegate (delegate : Pubkey) (accounts : List AccountInfo)
    (l : Ledger) : Except Fault Ledger :=
  initMintExtension .permanentDelegate
    (do return ⟨← OptionalNonZeroPubkey.tryFrom (some delegate)⟩) true accounts l

/-! ### Token accounts -/

/-- `init_account_extension_from_type` (`extension/mod.rs:733-764`), for the
types that `required_init_account_extensions` can list. -/
def initAccountExtensionFromType (account : PodStateWithExtensions PodAccount) :
    ExtensionType → Except Fault (PodStateWithExtensions PodAccount)
  | .transferFeeAmount => account.initExtension .transferFeeAmount default true
  | .immutableOwner => account.initExtension .immutableOwner default true
  | .nonTransferableAccount => account.initExtension .nonTransferableAccount default true
  | .transferHookAccount => account.initExtension .transferHookAccount default true
  | .confidentialTransferAccount => .ok account
  | t => if t.accountType = .account then .error Fault.panic else .ok account

/-- The new account's owner, an argument or the next account
(`processor.rs:138-142`). -/
def takeOwner (owner : Option Pubkey) (accounts : List AccountInfo) :
    Except Fault (Pubkey × List AccountInfo) :=
  match owner with
  | some owner => .ok (owner, accounts)
  | none => do
    let (ownerInfo, accounts) ← nextAccountInfo accounts
    return (ownerInfo.key, accounts)

/-- A native account starts with the lamports past its reserve
(`processor.rs:195-206`). -/
def initialAmount (native : Bool) (lamports reserve : UInt64) : Except Fault UInt64 :=
  if native then okOr (checkedSub lamports reserve) (TokenError.overflow : Fault) else .ok 0

/-- `_process_initialize_account` (`processor.rs:130-211`). -/
def processInitializeAccount (env : Env) (owner : Option Pubkey) (rentSysvarAccount : Bool)
    (accounts : List AccountInfo) (l : Ledger) : Except Fault Ledger := do
  let (newAccountInfo, accounts) ← nextAccountInfo accounts
  let (mintInfo, accounts) ← nextAccountInfo accounts
  let (owner, accounts) ← takeOwner owner accounts
  let _ ← takeRent rentSysvarAccount accounts
  let dataLen := (l newAccountInfo.key).data.len
  let lamports := (l newAccountInfo.key).lamports
  let account ← (l newAccountInfo.key).data.unpackUninitializedAccount
  ensure (env.isExempt lamports dataLen) (TokenError.notRentExempt : Fault)
  borrowData [newAccountInfo.key] mintInfo.key
  let mint ← mapErr (l mintInfo.key).data.unpackMint fun _ => TokenError.invalidMint
  let requiredExtensions ← getRequiredAccountExtensions (l mintInfo.key).owner mint
  let accountLen ← ExtensionType.calculateAccountLen baseAccountLength requiredExtensions
  ensure (accountLen ≤ dataLen) (ProgramError.invalidAccountData : Fault)
  let account ← loop initAccountExtensionFromType requiredExtensions account
  let reserve := env.minimumBalance dataLen
  let native := decide (mintInfo.key = nativeMint)
  let amount ← initialAmount native lamports reserve
  let base : PodAccount :=
    { mint := mintInfo.key
      owner := owner
      amount := amount
      delegate := none
      state := (defaultState mint).getD .initialized
      isNative := if native then some reserve else none
      delegatedAmount := 0
      closeAuthority := none }
  l.writeData newAccountInfo.key (.account { account with base := base })

/-- `process_initialize_immutable_owner` (`processor.rs:1325-1334`). -/
def processInitializeImmutableOwner (accounts : List AccountInfo) (l : Ledger) :
    Except Fault Ledger := do
  let (tokenAccountInfo, _) ← nextAccountInfo accounts
  let tokenAccount ← (l tokenAccountInfo.key).data.unpackUninitializedAccount
  let tokenAccount ← tokenAccount.initExtension .immutableOwner default true
  l.writeData tokenAccountInfo.key (.zeroed tokenAccount.len tokenAccount.tlv)

/-! ### Multisigs -/

/-- `is_valid_signer_index`: between `MIN_SIGNERS` and `MAX_SIGNERS`. -/
def isValidSignerIndex (index : ℕ) : Prop := 1 ≤ index ∧ index ≤ 11

instance (index : ℕ) : Decidable (isValidSignerIndex index) :=
  inferInstanceAs (Decidable (_ ∧ _))

/-- `_process_initialize_multisig` (`processor.rs:236-270`). A list of 256 or
more signers wraps around in `n`, and then writing past slot 11 panics. -/
def processInitializeMultisig (env : Env) (m : UInt8) (rentSysvarAccount : Bool)
    (accounts : List AccountInfo) (l : Ledger) : Except Fault Ledger := do
  let (multisigInfo, accounts) ← nextAccountInfo accounts
  let signerInfos ← takeRent rentSysvarAccount accounts
  let multisig ← (l multisigInfo.key).data.readMultisig
  ensure (multisig.isInitialized = false) (TokenError.alreadyInUse : Fault)
  ensure (env.isExempt (l multisigInfo.key).lamports (l multisigInfo.key).data.len)
    (TokenError.notRentExempt : Fault)
  let n := UInt8.ofNat signerInfos.length
  ensure (isValidSignerIndex n.toNat) (TokenError.invalidNumberOfProvidedSigners : Fault)
  ensure (isValidSignerIndex m.toNat) (TokenError.invalidNumberOfRequiredSigners : Fault)
  ensure (signerInfos.length ≤ 11) Fault.panic
  let signers := Vector.ofFn fun i : Fin 11 =>
    (signerInfos[i.val]?.map AccountInfo.key).getD multisig.signers[i]
  l.writeData multisigInfo.key (.multisig ⟨m, n, true, signers⟩)

end BarkToken
