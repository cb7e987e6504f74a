import BarkToken.Processor.Common
import BarkToken.TransferFee.Fee

/-!
# Transfer (processor.rs:284-533)
-/

namespace BarkToken
open Fallible CheckedWord

/-- `get_permanent_delegate` (`extension/permanent_delegate.rs`). -/
def getPermanentDelegate (mint : PodStateWithExtensions PodMint) : Option Pubkey :=
  (mint.tlv.get .permanentDelegate).bind fun e => e.delegate.toOption

/-- `transfer_hook::get_program_id` (`extension/transfer_hook/mod.rs`). -/
def getTransferHookProgramId (mint : PodStateWithExtensions PodMint) : Option Pubkey :=
  (mint.tlv.get .transferHook).bind fun e => e.programId.toOption

/-- The `lock_cpi` flag, where the account has the extension. -/
def lockCpi (account : PodStateWithExtensions PodAccount) : Bool :=
  ((account.tlv.get .cpiGuard).map CpiGuard.lockCpi).getD false

/-- `if cpi_guard.lock_cpi && in_cpi() { return Err(blocked) }`. -/
def checkCpiGuard (env : Env) (account : PodStateWithExtensions PodAccount)
    (blocked : TokenError) : Except Fault Unit :=
  ensure (¬ (lockCpi account = true ∧ env.inCpi)) (blocked : Fault)

/-- `memo_required` (`extension/memo_transfer/mod.rs:35-40`). -/
def memoRequired (account : PodStateWithExtensions PodAccount) : Bool :=
  ((account.tlv.get .memoTransfer).map MemoTransfer.requireIncomingTransferMemos).getD false

/-- `check_previous_sibling_instruction_is_memo` (`extension/memo_transfer/mod.rs:43-55`). -/
def checkPreviousSiblingInstructionIsMemo (env : Env) : Except Fault Unit :=
  ensure (∃ p ∈ env.previousSibling, p ∈ memoPrograms) (TokenError.noMemo : Fault)

/-- Memos where the destination asks for them. -/
def checkMemo (env : Env) (destination : PodStateWithExtensions PodAccount) : Except Fault Unit :=
  if memoRequired destination then checkPreviousSiblingInstructionIsMemo env else .ok ()

/-- The mint account that the checked variants of an instruction list. -/
def takeExpectedMint (expectedDecimals : Option UInt8) (accounts : List AccountInfo) :
    Except Fault (Option (AccountInfo × UInt8) × List AccountInfo) :=
  match expectedDecimals with
  | some decimals => do
    let (mintInfo, accounts) ← nextAccountInfo accounts
    return (some (mintInfo, decimals), accounts)
  | none => return (none, accounts)

/-- Who may debit an account, in `process_transfer` and `process_burn`
(`processor.rs:391-434` and `1030-1083`): the permanent delegate, the delegate
within its allowance, or the owner. The base state comes back with the
allowance used up; a self-transfer uses none. -/
def authorizeDebit (env : Env) (blocked : TokenError) (l : Ledger)
    (source : PodStateWithExtensions PodAccount) (permanentDelegate : Option Pubkey)
    (authorityInfo : AccountInfo) (signers : List AccountInfo) (amount : UInt64)
    (selfTransfer : Bool) : Except Fault PodAccount :=
  if permanentDelegate = some authorityInfo.key then do
    validateOwner l authorityInfo.key authorityInfo signers
    return source.base
  else if source.base.delegate = some authorityInfo.key then do
    validateOwner l authorityInfo.key authorityInfo signers
    ensure (amount ≤ source.base.delegatedAmount) (TokenError.insufficientFunds : Fault)
    if selfTransfer then return source.base
    else do
      let delegatedAmount ← okOr (checkedSub source.base.delegatedAmount amount)
        (TokenError.overflow : Fault)
      return { source.base with
        delegatedAmount := delegatedAmount
        delegate := if delegatedAmount = 0 then none else source.base.delegate }
  else do
    validateOwner l source.base.owner authorityInfo signers
    checkCpiGuard env source blocked
    return source.base

/-- `(fee, maybe_permanent_delegate, maybe_transfer_hook_program_id)`. -/
structure TransferTerms where
  fee : UInt64
  permanentDelegate : Option Pubkey
  transferHookProgramId : Option Pubkey

/-- The fee that the mint charges now (`processor.rs:335-342`). -/
def mintFee (env : Env) (mint : PodStateWithExtensions PodMint) (amount : UInt64) :
    Except Fault UInt64 :=
  match mint.tlv.get .transferFeeConfig with
  | some config => okOr (config.calculateEpochFee env.epoch amount) (TokenError.overflow : Fault)
  | none => .ok 0

/-- What the mint says about a transfer (`processor.rs:316-372`); without a
mint, accounts that carry one of the two markers cannot be debited. -/
def transferTerms (env : Env) (l : Ledger) (sourceKey : Pubkey)
    (source : PodStateWithExtensions PodAccount) (expectedMint : Option (AccountInfo × UInt8))
    (amount : UInt64) : Except Fault TransferTerms :=
  match expectedMint with
  | some (mintInfo, expectedDecimals) => do
    ensure (source.base.mint = mintInfo.key) (TokenError.mintMismatch : Fault)
    -- `try_borrow_data` while the source is mutably borrowed
    ensure (mintInfo.key ≠ sourceKey) (ProgramError.accountBorrowFailed : Fault)
    let mint ← (l mintInfo.key).data.unpackMint
    ensure (expectedDecimals = mint.base.decimals) (TokenError.mintDecimalsMismatch : Fault)
    let fee ← mintFee env mint amount
    return ⟨fee, getPermanentDelegate mint, getTransferHookProgramId mint⟩
  | none => do
    ensure (¬ source.hasExtension .transferHookAccount) (TokenError.mintRequiredForTransfer : Fault)
    ensure (¬ source.hasExtension .transferFeeAmount) (TokenError.mintRequiredForTransfer : Fault)
    return ⟨0, none, none⟩

/-- `set_transferring` (`extension/transfer_hook/mod.rs`). -/
def setTransferring (account : PodStateWithExtensions PodAccount) :
    Except Fault (PodStateWithExtensions PodAccount) := do
  let _ ← account.getExtension .transferHookAccount
  return account.setExtension .transferHookAccount ⟨true⟩

/-- `unset_transferring`. -/
def unsetTransferring (l : Ledger) (k : Pubkey) : Except Fault Ledger := do
  let account ← (l k).data.unpackAccount
  let _ ← account.getExtension .transferHookAccount
  l.writeData k (.account (account.setExtension .transferHookAccount ⟨false⟩))

/-- `non_confidential_transfer_allowed`, where the account has the extension. -/
def checkNonConfidentialTransferAllowed (account : PodStateWithExtensions PodAccount) :
    Except Fault Unit :=
  ensure (∀ e ∈ account.tlv.get .confidentialTransferAccount, e.allowNonConfidentialCredits = true)
    (TokenError.nonConfidentialTransfersDisabled : Fault)

/-- The destination's side of a transfer: the credit, less the withheld fee. -/
def creditDestination (destination : PodStateWithExtensions PodAccount) (amount fee : UInt64) :
    Except Fault (PodStateWithExtensions PodAccount) := do
  let creditedAmount ← okOr (checkedSub amount fee) (TokenError.overflow : Fault)
  let destinationAmount ← okOr (checkedAdd destination.base.amount creditedAmount)
    (TokenError.overflow : Fault)
  let destination := { destination with
    base := { destination.base with amount := destinationAmount } }
  if 0 < fee then
    match destination.tlv.get .transferFeeAmount with
    | some extension => do
      let newWithheldAmount ← okOr (checkedAdd extension.withheldAmount fee)
        (TokenError.overflow : Fault)
      return destination.setExtension .transferFeeAmount ⟨newWithheldAmount⟩
    -- this should never happen
    | none => .error TokenError.invalidState
  else return destination

/-- The lamports behind a native balance move with it. -/
def moveNativeLamports (l : Ledger) (isNative : Option UInt64) (sourceKey destinationKey : Pubkey)
    (amount : UInt64) : Except Fault Ledger :=
  if isNative.isSome then do
    let sourceLamports ← okOr (checkedSub (l sourceKey).lamports amount) (TokenError.overflow : Fault)
    let l ← l.writeLamports sourceKey sourceLamports
    let destinationLamports ← okOr (checkedAdd (l destinationKey).lamports amount)
      (TokenError.overflow : Fault)
    l.writeLamports destinationKey destinationLamports
  else return l

/-- `invoke_execute` of the mint's transfer hook, between the two flag updates
(`processor.rs:505-530`). -/
def invokeTransferHook (env : Env) (l : Ledger) (hookProgram : Pubkey)
    (sourceKey mintKey destinationKey : Pubkey) (source destination : PodStateWithExtensions PodAccount)
    (authorityKey : Pubkey) (additionalAccounts : List AccountInfo) (amount : UInt64) :
    Except Fault Ledger := do
  let source ← setTransferring source
  let destination ← setTransferring destination
  let l ← l.writeData sourceKey (.account source)
  let l ← l.writeData destinationKey (.account destination)
  let l ← env.invoke (.transferHook hookProgram sourceKey mintKey destinationKey authorityKey
    additionalAccounts amount) l
  let l ← unsetTransferring l sourceKey
  unsetTransferring l destinationKey

/-- `process_transfer` (`processor.rs:285-533`). -/
def processTransfer (env : Env) (amount : UInt64) (expectedDecimals : Option UInt8)
    (expectedFee : Option UInt64) (accounts : List AccountInfo) (l : Ledger) :
    Except Fault Ledger := do
  let (sourceInfo, accounts) ← nextAccountInfo accounts
  let (expectedMint, accounts) ← takeExpectedMint expectedDecimals accounts
  let (destinationInfo, accounts) ← nextAccountInfo accounts
  let (authorityInfo, signers) ← nextAccountInfo accounts
  let source ← (l sourceInfo.key).data.unpackAccount
  ensure (¬ source.base.frozen) (TokenError.accountFrozen : Fault)
  ensure (amount ≤ source.base.amount) (TokenError.insufficientFunds : Fault)
  ensure (¬ source.hasExtension .nonTransferableAccount) (TokenError.nonTransferable : Fault)
  let terms ← transferTerms env l sourceInfo.key source expectedMint amount
  ensure (∀ f ∈ expectedFee, f = terms.fee) (TokenError.feeMismatch : Fault)
  let selfTransfer := decide (sourceInfo.key = destinationInfo.key)
  let base ← authorizeDebit env .cpiGuardTransferBlocked l source terms.permanentDelegate
    authorityInfo signers amount selfTransfer
  checkProgramAccount (l sourceInfo.key).owner
  checkProgramAccount (l destinationInfo.key).owner
  if selfTransfer then return l
  else do
    let destination ← (l destinationInfo.key).data.unpackAccount
    ensure (¬ destination.base.frozen) (TokenError.accountFrozen : Fault)
    ensure (source.base.mint = destination.base.mint) (TokenError.mintMismatch : Fault)
    checkMemo env destination
    checkNonConfidentialTransferAllowed destination
    let sourceAmount ← okOr (checkedSub source.base.amount amount) (TokenError.overflow : Fault)
    let source := { source with base := { base with amount := sourceAmount } }
    let destination ← creditDestination destination amount terms.fee
    let l ← l.writeData sourceInfo.key (.account source)
    let l ← l.writeData destinationInfo.key (.account destination)
    let l ← moveNativeLamports l source.base.isNative sourceInfo.key destinationInfo.key amount
    match terms.transferHookProgramId, expectedMint with
    | some hookProgram, some (mintInfo, _) =>
      invokeTransferHook env l hookProgram sourceInfo.key mintInfo.key destinationInfo.key
        source destination authorityInfo.key signers amount
    | some _, none => .error TokenError.mintRequiredForTransfer
    | none, _ => return l

end BarkToken
