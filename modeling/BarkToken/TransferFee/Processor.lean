import BarkToken.Processor.Supply

/-!
# Transfer fee instructions (extension/transfer_fee/processor.rs)
-/

namespace BarkToken
open Fallible CheckedWord

/-- `process_initialize_transfer_fee_config` (`transfer_fee/processor.rs:28-60`). -/
def processInitializeTransferFeeConfig (env : Env)
    (transferFeeConfigAuthority withdrawWithheldAuthority : Option Pubkey)
    (transferFeeBasisPoints : UInt16) (maximumFee : UInt64) (accounts : List AccountInfo)
    (l : Ledger) : Except Fault Ledger :=
  let config : Except Fault TransferFeeConfig := do
    let transferFeeConfigAuthority ← OptionalNonZeroPubkey.tryFrom transferFeeConfigAuthority
    let withdrawWithheldAuthority ← OptionalNonZeroPubkey.tryFrom withdrawWithheldAuthority
    ensure (transferFeeBasisPoints.toNat ≤ maxFeeBasisPoints)
      (TokenError.transferFeeExceedsMaximum : Fault)
    let transferFee : TransferFee := ⟨env.epoch, maximumFee, transferFeeBasisPoints⟩
    return ⟨transferFeeConfigAuthority, withdrawWithheldAuthority, 0, transferFee, transferFee⟩
  initMintExtension .transferFeeConfig config true accounts l

/-- The fee change of `SetTransferFee`: a fee that is in force becomes the older
one, and the new one starts two epochs ahead. -/
def TransferFeeConfig.setFee (c : TransferFeeConfig) (epoch : UInt64) (maximumFee : UInt64)
    (transferFeeBasisPoints : UInt16) : TransferFeeConfig :=
  { c with
    olderTransferFee :=
      if c.newerTransferFee.epoch ≤ epoch then c.newerTransferFee else c.olderTransferFee
    newerTransferFee := ⟨saturatingAdd epoch 2, maximumFee, transferFeeBasisPoints⟩ }

/-- `process_set_transfer_fee` (`transfer_fee/processor.rs:62-111`). -/
def processSetTransferFee (env : Env) (transferFeeBasisPoints : UInt16) (maximumFee : UInt64)
    (accounts : List AccountInfo) (l : Ledger) : Except Fault Ledger := do
  let (mintInfo, accounts) ← nextAccountInfo accounts
  let (authorityInfo, signers) ← nextAccountInfo accounts
  let mint ← (l mintInfo.key).data.unpackMint
  let extension ← mint.getExtension .transferFeeConfig
  let authority ← okOr extension.transferFeeConfigAuthority.toOption
    (TokenError.noAuthorityExists : Fault)
  validateOwner l authority authorityInfo signers
  ensure (transferFeeBasisPoints.toNat ≤ maxFeeBasisPoints)
    (TokenError.transferFeeExceedsMaximum : Fault)
  l.writeData mintInfo.key (.mint (mint.setExtension .transferFeeConfig
    (extension.setFee env.epoch maximumFee transferFeeBasisPoints)))

/-- `process_withdraw_withheld_tokens_from_mint` (`transfer_fee/processor.rs:113-156`). -/
def processWithdrawWithheldTokensFromMint (accounts : List AccountInfo) (l : Ledger) :
    Except Fault Ledger := do
  let (mintInfo, accounts) ← nextAccountInfo accounts
  let (destinationInfo, accounts) ← nextAccountInfo accounts
  let (authorityInfo, signers) ← nextAccountInfo accounts
  checkProgramAccount (l mintInfo.key).owner
  let mint ← (l mintInfo.key).data.unpackMint
  let extension ← mint.getExtension .transferFeeConfig
  let authority ← okOr extension.withdrawWithheldAuthority.toOption
    (TokenError.noAuthorityExists : Fault)
  validateOwner l authority authorityInfo signers
  borrowData [mintInfo.key] destinationInfo.key
  let destination ← (l destinationInfo.key).data.unpackAccount
  ensure (destination.base.mint = mintInfo.key) (TokenError.mintMismatch : Fault)
  ensure (¬ destination.base.frozen) (TokenError.accountFrozen : Fault)
  let destinationAmount ← okOr (checkedAdd destination.base.amount extension.withheldAmount)
    (TokenError.overflow : Fault)
  let l ← l.writeData mintInfo.key
    (.mint (mint.setExtension .transferFeeConfig { extension with withheldAmount := 0 }))
  l.writeData destinationInfo.key
    (.account { destination with base := { destination.base with amount := destinationAmount } })

/-! ### Harvesting -/

/-- `harvest_from_account` (`transfer_fee/processor.rs:158-177`): the withheld
amount and the ledger without it. -/
def harvestFromAccount (l : Ledger) (mintKey k : Pubkey) : Except Fault (UInt64 × Ledger) := do
  let account ← mapErr (l k).data.unpackAccount fun _ => TokenError.invalidState
  ensure (account.base.mint = mintKey) (TokenError.mintMismatch : Fault)
  mapErr (checkProgramAccount (l k).owner) fun _ => TokenError.invalidState
  let extension ← mapErr (account.getExtension .transferFeeAmount) fun _ => TokenError.invalidState
  let l ← l.writeData k (.account (account.setExtension .transferFeeAmount ⟨0⟩))
  return (extension.withheldAmount, l)

/-- One pass of the harvest loop; an account that cannot be harvested is only
logged. Listing the mint itself borrows its data twice. -/
def harvestToMint (mintKey : Pubkey) (s : UInt64 × Ledger) (info : AccountInfo) :
    Except Fault (UInt64 × Ledger) := do
  borrowData [mintKey] info.key
  match harvestFromAccount s.2 mintKey info.key with
  | .ok (amount, l) => do
    let withheldAmount ← okOr (checkedAdd s.1 amount) (TokenError.overflow : Fault)
    return (withheldAmount, l)
  | .error _ => return s

/-- `process_harvest_withheld_tokens_to_mint` (`transfer_fee/processor.rs:179-206`). -/
def processHarvestWithheldTokensToMint (accounts : List AccountInfo) (l : Ledger) :
    Except Fault Ledger := do
  let (mintInfo, tokenAccountInfos) ← nextAccountInfo accounts
  let mint ← (l mintInfo.key).data.unpackMint
  let extension ← mint.getExtension .transferFeeConfig
  let (withheldAmount, l) ← loop (harvestToMint mintInfo.key) tokenAccountInfos
    (extension.withheldAmount, l)
  l.writeData mintInfo.key
    (.mint (mint.setExtension .transferFeeConfig { extension with withheldAmount := withheldAmount }))

/-- The destination's own withheld fees, when it is listed as a source: its data
is already borrowed and is updated in place. -/
def selfHarvest (destination : PodStateWithExtensions PodAccount) :
    Except Fault (PodStateWithExtensions PodAccount) := do
  let extension ← mapErr (destination.getExtension .transferFeeAmount)
    fun _ => TokenError.invalidState
  let amount ← okOr (checkedAdd destination.base.amount extension.withheldAmount)
    (TokenError.overflow : Fault)
  let destination := destination.setExtension .transferFeeAmount ⟨0⟩
  return { destination with base := { destination.base with amount := amount } }

/-- One pass of the withdrawal loop (`transfer_fee/processor.rs:246-273`). -/
def withdrawFromAccount (mintKey destinationKey : Pubkey)
    (s : PodStateWithExtensions PodAccount × Ledger) (info : AccountInfo) :
    Except Fault (PodStateWithExtensions PodAccount × Ledger) :=
  if info.key = destinationKey then do
    let destination ← selfHarvest s.1
    return (destination, s.2)
  else do
    borrowData [mintKey] info.key
    match harvestFromAccount s.2 mintKey info.key with
    | .ok (amount, l) => do
      let amount ← okOr (checkedAdd s.1.base.amount amount) (TokenError.overflow : Fault)
      return ({ s.1 with base := { s.1.base with amount := amount } }, l)
    | .error _ => return s

/-- `process_withdraw_withheld_tokens_from_accounts`
(`transfer_fee/processor.rs:208-276`). -/
def processWithdrawWithheldTokensFromAccounts (numTokenAccounts : UInt8)
    (accounts : List AccountInfo) (l : Ledger) : Except Fault Ledger := do
  let (mintInfo, accounts) ← nextAccountInfo accounts
  let (destinationInfo, accounts) ← nextAccountInfo accounts
  let (authorityInfo, accountInfos) ← nextAccountInfo accounts
  let numSigners := accountInfos.length - numTokenAccounts.toNat
  checkProgramAccount (l mintInfo.key).owner
  let mint ← (l mintInfo.key).data.unpackMint
  let extension ← mint.getExtension .transferFeeConfig
  let authority ← okOr extension.withdrawWithheldAuthority.toOption
    (TokenError.noAuthorityExists : Fault)
  validateOwner l authority authorityInfo (accountInfos.take numSigners)
  borrowData [mintInfo.key] destinationInfo.key
  let destination ← (l destinationInfo.key).data.unpackAccount
  ensure (destination.base.mint = mintInfo.key) (TokenError.mintMismatch : Fault)
  ensure (¬ destination.base.frozen) (TokenError.accountFrozen : Fault)
  let (destination, l) ← loop (withdrawFromAccount mintInfo.key destinationInfo.key)
    (accountInfos.drop numSigners) (destination, l)
  l.writeData destinationInfo.key (.account destination)

end BarkToken
