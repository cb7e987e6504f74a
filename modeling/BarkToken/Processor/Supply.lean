import BarkToken.Processor.Authority

/-!
# Supply, closing and lamports (processor.rs:906-1198, 1251-1278, 1453-1525, reallocate.rs)
-/

namespace BarkToken
open Fallible CheckedWord

/-! ### MintTo and Burn -/

/-- The decimals that a checked variant declares. -/
def checkDecimals (expectedDecimals : Option UInt8) (mint : PodMint) : Except Fault Unit :=
  ensure (∀ d ∈ expectedDecimals, d = mint.decimals) (TokenError.mintDecimalsMismatch : Fault)

/-- `process_mint_to` (`processor.rs:908-984`). -/
def processMintTo (amount : UInt64) (expectedDecimals : Option UInt8) (accounts : List AccountInfo)
    (l : Ledger) : Except Fault Ledger := do
  let (mintInfo, accounts) ← nextAccountInfo accounts
  let (destinationInfo, accounts) ← nextAccountInfo accounts
  let (ownerInfo, signers) ← nextAccountInfo accounts
  let destination ← (l destinationInfo.key).data.unpackAccount
  ensure (¬ destination.base.frozen) (TokenError.accountFrozen : Fault)
  ensure (destination.base.isNative = none) (TokenError.nativeNotSupported : Fault)
  ensure (mintInfo.key = destination.base.mint) (TokenError.mintMismatch : Fault)
  borrowData [destinationInfo.key] mintInfo.key
  let mint ← (l mintInfo.key).data.unpackMint
  ensure (¬ (mint.hasExtension .nonTransferable ∧ ¬ destination.hasExtension .immutableOwner))
    (TokenError.nonTransferableNeedsImmutableOwnership : Fault)
  checkDecimals expectedDecimals mint.base
  let mintAuthority ← okOr mint.base.mintAuthority (TokenError.fixedSupply : Fault)
  validateOwner l mintAuthority ownerInfo signers
  checkProgramAccount (l mintInfo.key).owner
  checkProgramAccount (l destinationInfo.key).owner
  let destinationAmount ← okOr (checkedAdd destination.base.amount amount)
    (TokenError.overflow : Fault)
  let supply ← okOr (checkedAdd mint.base.supply amount) (TokenError.overflow : Fault)
  let l ← l.writeData destinationInfo.key
    (.account { destination with base := { destination.base with amount := destinationAmount } })
  l.writeData mintInfo.key (.mint { mint with base := { mint.base with supply := supply } })

/-- Burning from an account of the system program or the incinerator is open to
all (`processor.rs:1025-1083`). -/
def authorizeBurn (env : Env) (l : Ledger) (source : PodStateWithExtensions PodAccount)
    (permanentDelegate : Option Pubkey) (authorityInfo : AccountInfo) (signers : List AccountInfo)
    (amount : UInt64) : Except Fault PodAccount :=
  if source.base.ownedBySystemProgramOrIncinerator then .ok source.base
  else authorizeDebit env .cpiGuardBurnBlocked l source permanentDelegate authorityInfo signers
    amount false

/-- `process_burn` (`processor.rs:987-1101`). -/
def processBurn (env : Env) (amount : UInt64) (expectedDecimals : Option UInt8)
    (accounts : List AccountInfo) (l : Ledger) : Except Fault Ledger := do
  let (sourceInfo, accounts) ← nextAccountInfo accounts
  let (mintInfo, accounts) ← nextAccountInfo accounts
  let (authorityInfo, signers) ← nextAccountInfo accounts
  let source ← (l sourceInfo.key).data.unpackAccount
  borrowData [sourceInfo.key] mintInfo.key
  let mint ← (l mintInfo.key).data.unpackMint
  ensure (¬ source.base.frozen) (TokenError.accountFrozen : Fault)
  ensure (source.base.isNative = none) (TokenError.nativeNotSupported : Fault)
  ensure (amount ≤ source.base.amount) (TokenError.insufficientFunds : Fault)
  ensure (mintInfo.key = source.base.mint) (TokenError.mintMismatch : Fault)
  checkDecimals expectedDecimals mint.base
  let base ← authorizeBurn env l source (getPermanentDelegate mint) authorityInfo signers amount
  checkProgramAccount (l sourceInfo.key).owner
  checkProgramAccount (l mintInfo.key).owner
  let sourceAmount ← okOr (checkedSub source.base.amount amount) (TokenError.overflow : Fault)
  let supply ← okOr (checkedSub mint.base.supply amount) (TokenError.overflow : Fault)
  let l ← l.writeData sourceInfo.key
    (.account { source with base := { base with amount := sourceAmount } })
  l.writeData mintInfo.key (.mint { mint with base := { mint.base with supply := supply } })

/-! ### Closing -/

/-- `ConfidentialTransferAccount::closable` (`confidential_transfer/mod.rs`). -/
def ConfidentialTransferAccount.closable (e : ConfidentialTransferAccount) : Prop :=
  e.pendingBalanceLo = .zeroed ∧ e.pendingBalanceHi = .zeroed ∧ e.availableBalance = .zeroed

/-- `ConfidentialTransferFeeAmount::closable`. -/
def ConfidentialTransferFeeAmount.closable (e : ConfidentialTransferFeeAmount) : Prop :=
  e.withheldAmount = .zeroed

/-- `TransferFeeAmount::closable`. -/
def TransferFeeAmount.closable (e : TransferFeeAmount) : Prop := e.withheldAmount = 0

instance (e : ConfidentialTransferAccount) : Decidable e.closable :=
  inferInstanceAs (Decidable (_ ∧ _))
instance (e : ConfidentialTransferFeeAmount) : Decidable e.closable :=
  inferInstanceAs (Decidable (_ = _))
instance (e : TransferFeeAmount) : Decidable e.closable := inferInstanceAs (Decidable (_ = _))

/-- What a token account may still hold when it is closed
(`processor.rs:1149-1165`). -/
def checkClosable (account : PodStateWithExtensions PodAccount) : Except Fault Unit := do
  ensure (∀ e ∈ account.tlv.get .confidentialTransferAccount, e.closable)
    (TokenError.confidentialTransferAccountHasBalance : Fault)
  ensure (∀ e ∈ account.tlv.get .confidentialTransferFeeAmount, e.closable)
    (TokenError.confidentialTransferFeeAccountHasWithheldFee : Fault)
  ensure (∀ e ∈ account.tlv.get .transferFeeAmount, e.closable)
    (TokenError.accountHasWithheldTransferFees : Fault)

/-- Who may close a token account, and where its lamports go
(`processor.rs:1121-1147`). -/
def authorizeClose (env : Env) (l : Ledger) (source : PodStateWithExtensions PodAccount)
    (destinationKey : Pubkey) (authorityInfo : AccountInfo) (signers : List AccountInfo) :
    Except Fault Unit :=
  if ¬ source.base.ownedBySystemProgramOrIncinerator then do
    ensure (¬ (lockCpi source = true ∧ env.inCpi ∧ destinationKey ≠ source.base.owner))
      (TokenError.cpiGuardCloseAccountBlocked : Fault)
    validateOwner l (source.base.closeAuthority.getD source.base.owner) authorityInfo signers
  else
    ensure (destinationKey = incinerator) (ProgramError.invalidAccountData : Fault)

/-- Whether the account may be closed (`processor.rs:1115-1181`). -/
def checkClose (env : Env) (l : Ledger) (sourceData : AccountData) (destinationKey : Pubkey)
    (authorityInfo : AccountInfo) (signers : List AccountInfo) : Except Fault Unit :=
  match sourceData.unpackAccount with
  | .ok source => do
    ensure (¬ (source.base.isNative = none ∧ source.base.amount ≠ 0))
      (TokenError.nonNativeHasBalance : Fault)
    authorizeClose env l source destinationKey authorityInfo signers
    checkClosable source
  | .error _ =>
    match sourceData.unpackMint with
    | .ok mint => do
      let extension ← mint.getExtension .mintCloseAuthority
      let authority ← okOr extension.closeAuthority.toOption
        (TokenError.authorityTypeNotSupported : Fault)
      validateOwner l authority authorityInfo signers
      ensure (mint.base.supply = 0) (TokenError.mintHasSupply : Fault)
    | .error _ => .error ProgramError.uninitializedAccount

/-- `process_close_account` (`processor.rs:1104-1196`). -/
def processCloseAccount (env : Env) (accounts : List AccountInfo) (l : Ledger) :
    Except Fault Ledger := do
  let (sourceInfo, accounts) ← nextAccountInfo accounts
  let (destinationInfo, accounts) ← nextAccountInfo accounts
  let (authorityInfo, signers) ← nextAccountInfo accounts
  ensure (sourceInfo.key ≠ destinationInfo.key) (ProgramError.invalidAccountData : Fault)
  checkClose env l (l sourceInfo.key).data destinationInfo.key authorityInfo signers
  let destinationLamports ← okOr
    (checkedAdd (l destinationInfo.key).lamports (l sourceInfo.key).lamports)
    (TokenError.overflow : Fault)
  let l ← l.writeLamports destinationInfo.key destinationLamports
  let l ← l.writeLamports sourceInfo.key 0
  l.deleteAccount sourceInfo.key

/-! ### Lamports -/

/-- `process_sync_native` (`processor.rs:1252-1278`). -/
def processSyncNative (accounts : List AccountInfo) (l : Ledger) : Except Fault Ledger := do
  let (nativeAccountInfo, _) ← nextAccountInfo accounts
  checkProgramAccount (l nativeAccountInfo.key).owner
  let nativeAccount ← (l nativeAccountInfo.key).data.unpackAccount
  let reserve ← okOr nativeAccount.base.isNative (TokenError.nonNativeNotSupported : Fault)
  let newAmount ← okOr (checkedSub (l nativeAccountInfo.key).lamports reserve)
    (TokenError.overflow : Fault)
  ensure (nativeAccount.base.amount ≤ newAmount) (TokenError.invalidState : Fault)
  let base := { nativeAccount.base with amount := newAmount }
  l.writeData nativeAccountInfo.key (.account { nativeAccount with base := base })

end BarkToken
