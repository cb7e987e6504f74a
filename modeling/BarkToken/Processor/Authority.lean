import BarkToken.Processor.Initialize
import BarkToken.Processor.Transfer

/-!
# Delegates, authorities and freezing (processor.rs:535-904, 1200-1249)
-/

namespace BarkToken
open Fallible

/-- The mint of a checked approval has to match (`processor.rs:561-575`). -/
def checkExpectedMint (l : Ledger) (sourceKey : Pubkey) (source : PodStateWithExtensions PodAccount)
    (expectedMint : Option (AccountInfo × UInt8)) : Except Fault Unit :=
  match expectedMint with
  | some (mintInfo, decimals) => do
    ensure (source.base.mint = mintInfo.key) (TokenError.mintMismatch : Fault)
    borrowData [sourceKey] mintInfo.key
    let mint ← (l mintInfo.key).data.unpackMint
    ensure (decimals = mint.base.decimals) (TokenError.mintDecimalsMismatch : Fault)
  | none => .ok ()

/-- `process_approve` (`processor.rs:536-595`). -/
def processApprove (env : Env) (amount : UInt64) (expectedDecimals : Option UInt8)
    (accounts : List AccountInfo) (l : Ledger) : Except Fault Ledger := do
  let (sourceInfo, accounts) ← nextAccountInfo accounts
  let (expectedMint, accounts) ← takeExpectedMint expectedDecimals accounts
  let (delegateInfo, accounts) ← nextAccountInfo accounts
  let (ownerInfo, signers) ← nextAccountInfo accounts
  let source ← (l sourceInfo.key).data.unpackAccount
  ensure (¬ source.base.frozen) (TokenError.accountFrozen : Fault)
  checkExpectedMint l sourceInfo.key source expectedMint
  validateOwner l source.base.owner ownerInfo signers
  checkCpiGuard env source .cpiGuardApproveBlocked
  let base := { source.base with delegate := some delegateInfo.key, delegatedAmount := amount }
  l.writeData sourceInfo.key (.account { source with base := base })

/-- The key that `process_revoke` asks for: the delegate where it is the one
that asks, else the owner. -/
def revokeAuthority (account : PodAccount) (authorityInfo : AccountInfo) : Pubkey :=
  if account.delegate = some authorityInfo.key then authorityInfo.key else account.owner

/-- `process_revoke` (`processor.rs:598-627`). -/
def processRevoke (accounts : List AccountInfo) (l : Ledger) : Except Fault Ledger := do
  let (sourceInfo, accounts) ← nextAccountInfo accounts
  let (authorityInfo, signers) ← nextAccountInfo accounts
  let source ← (l sourceInfo.key).data.unpackAccount
  ensure (¬ source.base.frozen) (TokenError.accountFrozen : Fault)
  validateOwner l (revokeAuthority source.base authorityInfo) authorityInfo signers
  let base := { source.base with delegate := none, delegatedAmount := 0 }
  l.writeData sourceInfo.key (.account { source with base := base })

/-! ### SetAuthority -/

/-- `AuthorityType` (`instruction.rs`). -/
inductive AuthorityType where
  | mintTokens
  | freezeAccount
  | accountOwner
  | closeAccount
  | transferFeeConfig
  | withheldWithdraw
  | closeMint
  | interestRate
  | permanentDelegate
  | confidentialTransferMint
  | transferHookProgramId
  | confidentialTransferFeeConfig
  | metadataPointer
  | groupPointer
  | groupMemberPointer
deriving DecidableEq

/-- `SetAuthority` on a token account (`processor.rs:647-707`). -/
def setAccountAuthority (env : Env) (authorityType : AuthorityType) (newAuthority : Option Pubkey)
    (l : Ledger) (account : PodStateWithExtensions PodAccount) (authorityInfo : AccountInfo)
    (signers : List AccountInfo) : Except Fault PodAccount := do
  ensure (¬ account.base.frozen) (TokenError.accountFrozen : Fault)
  match authorityType with
  | .accountOwner => do
    validateOwner l account.base.owner authorityInfo signers
    ensure (¬ account.hasExtension .immutableOwner) (TokenError.immutableOwner : Fault)
    checkCpiGuard env account .cpiGuardSetAuthorityBlocked
    ensure (lockCpi account = false) (TokenError.cpiGuardOwnerChangeBlocked : Fault)
    let owner ← okOr newAuthority (TokenError.invalidInstruction : Fault)
    return { account.base with
      owner := owner
      delegate := none
      delegatedAmount := 0
      closeAuthority := if account.base.isNative.isSome then none else account.base.closeAuthority }
  | .closeAccount => do
    validateOwner l (account.base.closeAuthority.getD account.base.owner) authorityInfo signers
    ensure (¬ (lockCpi account = true ∧ env.inCpi ∧ newAuthority.isSome))
      (TokenError.cpiGuardSetAuthorityBlocked : Fault)
    return { account.base with closeAuthority := newAuthority }
  | _ => .error TokenError.authorityTypeNotSupported

/-- One arm of `SetAuthority` on a mint extension (`processor.rs:740-891`): the
stored key has to be there and to approve, and the new one replaces it. -/
def replaceExtensionAuthority (t : ExtensionType) (get : t.Value → OptionalNonZeroPubkey)
    (set : t.Value → OptionalNonZeroPubkey → t.Value) (newAuthority : Option Pubkey) (l : Ledger)
    (mint : PodStateWithExtensions PodMint) (authorityInfo : AccountInfo)
    (signers : List AccountInfo) : Except Fault (PodStateWithExtensions PodMint) := do
  let extension ← mint.getExtension t
  let authority ← okOr (get extension).toOption (TokenError.authorityTypeNotSupported : Fault)
  validateOwner l authority authorityInfo signers
  let new ← OptionalNonZeroPubkey.tryFrom newAuthority
  return mint.setExtension t (set extension new)

/-- `SetAuthority` on a mint (`processor.rs:708-895`). -/
def setMintAuthority (authorityType : AuthorityType) (newAuthority : Option Pubkey) (l : Ledger)
    (mint : PodStateWithExtensions PodMint) (authorityInfo : AccountInfo)
    (signers : List AccountInfo) : Except Fault (PodStateWithExtensions PodMint) :=
  match authorityType with
  | .mintTokens => do
    -- once a mint's supply is fixed, it cannot be undone by setting a new authority
    let mintAuthority ← okOr mint.base.mintAuthority (TokenError.fixedSupply : Fault)
    validateOwner l mintAuthority authorityInfo signers
    return { mint with base := { mint.base with mintAuthority := newAuthority } }
  | .freezeAccount => do
    let freezeAuthority ← okOr mint.base.freezeAuthority (TokenError.mintCannotFreeze : Fault)
    validateOwner l freezeAuthority authorityInfo signers
    return { mint with base := { mint.base with freezeAuthority := newAuthority } }
  | .closeMint => replaceExtensionAuthority .mintCloseAuthority MintCloseAuthority.closeAuthority
      (fun e k => { e with closeAuthority := k }) newAuthority l mint authorityInfo signers
  | .transferFeeConfig => replaceExtensionAuthority .transferFeeConfig
      TransferFeeConfig.transferFeeConfigAuthority
      (fun e k => { e with transferFeeConfigAuthority := k })
      newAuthority l mint authorityInfo signers
  | .withheldWithdraw => replaceExtensionAuthority .transferFeeConfig
      TransferFeeConfig.withdrawWithheldAuthority
      (fun e k => { e with withdrawWithheldAuthority := k })
      newAuthority l mint authorityInfo signers
  | .interestRate => replaceExtensionAuthority .interestBearingConfig
      InterestBearingConfig.rateAuthority (fun e k => { e with rateAuthority := k })
      newAuthority l mint authorityInfo signers
  | .permanentDelegate => replaceExtensionAuthority .permanentDelegate PermanentDelegate.delegate
      (fun e k => { e with delegate := k }) newAuthority l mint authorityInfo signers
  | .confidentialTransferMint => replaceExtensionAuthority .confidentialTransferMint
      ConfidentialTransferMint.authority (fun e k => { e with authority := k })
      newAuthority l mint authorityInfo signers
  | .transferHookProgramId => replaceExtensionAuthority .transferHook TransferHook.authority
      (fun e k => { e with authority := k }) newAuthority l mint authorityInfo signers
  | .confidentialTransferFeeConfig => replaceExtensionAuthority .confidentialTransferFeeConfig
      ConfidentialTransferFeeConfig.authority (fun e k => { e with authority := k })
      newAuthority l mint authorityInfo signers
  | .metadataPointer => replaceExtensionAuthority .metadataPointer MetadataPointer.authority
      (fun e k => { e with authority := k }) newAuthority l mint authorityInfo signers
  | .groupPointer => replaceExtensionAuthority .groupPointer GroupPointer.authority
      (fun e k => { e with authority := k }) newAuthority l mint authorityInfo signers
  | .groupMemberPointer => replaceExtensionAuthority .groupMemberPointer
      GroupMemberPointer.authority (fun e k => { e with authority := k })
      newAuthority l mint authorityInfo signers
  | .accountOwner => .error TokenError.authorityTypeNotSupported
  | .closeAccount => .error TokenError.authorityTypeNotSupported

/-- `process_set_authority` (`processor.rs:630-904`). -/
def processSetAuthority (env : Env) (authorityType : AuthorityType) (newAuthority : Option Pubkey)
    (accounts : List AccountInfo) (l : Ledger) : Except Fault Ledger := do
  let (accountInfo, accounts) ← nextAccountInfo accounts
  let (authorityInfo, signers) ← nextAccountInfo accounts
  match (l accountInfo.key).data.unpackAccount with
  | .ok account => do
    let base ← setAccountAuthority env authorityType newAuthority l account authorityInfo signers
    l.writeData accountInfo.key (.account { account with base := base })
  | .error _ =>
    match (l accountInfo.key).data.unpackMint with
    | .ok mint => do
      let mint ← setMintAuthority authorityType newAuthority l mint authorityInfo signers
      l.writeData accountInfo.key (.mint mint)
    | .error _ => .error ProgramError.invalidAccountData

/-! ### Freezing -/

/-- `process_toggle_freeze_account` (`processor.rs:1200-1249`). -/
def processToggleFreezeAccount (freeze : Bool) (accounts : List AccountInfo) (l : Ledger) :
    Except Fault Ledger := do
  let (sourceInfo, accounts) ← nextAccountInfo accounts
  let (mintInfo, accounts) ← nextAccountInfo accounts
  let (authorityInfo, signers) ← nextAccountInfo accounts
  let source ← (l sourceInfo.key).data.unpackAccount
  ensure (¬ (freeze = true ∧ source.base.frozen ∨ freeze = false ∧ ¬ source.base.frozen))
    (TokenError.invalidState : Fault)
  ensure (source.base.isNative = none) (TokenError.nativeNotSupported : Fault)
  ensure (mintInfo.key = source.base.mint) (TokenError.mintMismatch : Fault)
  borrowData [sourceInfo.key] mintInfo.key
  let mint ← (l mintInfo.key).data.unpackMint
  let freezeAuthority ← okOr mint.base.freezeAuthority (TokenError.mintCannotFreeze : Fault)
  validateOwner l freezeAuthority authorityInfo signers
  let base := { source.base with state := if freeze then .frozen else .initialized }
  l.writeData sourceInfo.key (.account { source with base := base })

end BarkToken
