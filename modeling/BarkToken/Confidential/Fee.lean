import BarkToken.Confidential.Account
import BarkToken.Extension.Mint

/-!
# Confidential withheld fees (extension/confidential_transfer_fee/processor.rs)
-/

namespace BarkToken
open Fallible

/-- `process_initialize_confidential_transfer_fee_config`
(`confidential_transfer_fee/processor.rs:48-66`). -/
def processInitializeConfidentialTransferFeeConfig (authority : OptionalNonZeroPubkey)
    (withdrawWithheldAuthorityElgamalPubkey : ElGamalPubkey) (accounts : List AccountInfo)
    (l : Ledger) : Except Fault Ledger :=
  initMintExtension .confidentialTransferFeeConfig
    (pure ⟨authority, withdrawWithheldAuthorityElgamalPubkey, true, .zeroed⟩) true accounts l

/-! ### Withdrawals -/

/-- The destination's extension with the withheld amount paid into its available
balance, re-encrypted under its own key (`processor.rs:134-166` and `297-332`). -/
def ConfidentialTransferAccount.paidWithheld (e : ConfidentialTransferAccount) (zk : ZkOps)
    (proofContext : CiphertextCiphertextEqualityProofContext)
    (feeConfig : ConfidentialTransferFeeConfig) (withheldAmount : ElGamalCiphertext)
    (newDecryptableAvailableBalance : AeCiphertext) : Except Fault ConfidentialTransferAccount := do
  ensure (proofContext.sourcePubkey = feeConfig.withdrawWithheldAuthorityElgamalPubkey)
    (TokenError.confidentialTransferElGamalPubkeyMismatch : Fault)
  ensure (proofContext.destinationPubkey = e.elgamalPubkey)
    (TokenError.confidentialTransferElGamalPubkeyMismatch : Fault)
  ensure (proofContext.sourceCiphertext = withheldAmount)
    (TokenError.confidentialTransferBalanceMismatch : Fault)
  let availableBalance ← okOr (zk.add e.availableBalance proofContext.destinationCiphertext)
    (ProgramError.invalidInstructionData : Fault)
  return { e with
    availableBalance := availableBalance
    decryptableAvailableBalance := newDecryptableAvailableBalance }

/-- The withdraw withheld authority of the mint's fee configuration approves. -/
def validateWithheldAuthority (l : Ledger) (mint : PodStateWithExtensions PodMint)
    (authorityInfo : AccountInfo) (signers : List AccountInfo) : Except Fault Unit := do
  let transferFeeConfig ← mint.getExtension .transferFeeConfig
  let withdrawWithheldAuthority ← okOr transferFeeConfig.withdrawWithheldAuthority.toOption
    (TokenError.noAuthorityExists : Fault)
  validateOwner l withdrawWithheldAuthority authorityInfo signers

/-- The account that withheld fees are paid into. -/
def withheldDestination (l : Ledger) (mintKey destinationKey : Pubkey) :
    Except Fault (PodStateWithExtensions PodAccount) := do
  borrowData [mintKey] destinationKey
  let destination ← (l destinationKey).data.unpackAccount
  ensure (destination.base.mint = mintKey) (TokenError.mintMismatch : Fault)
  ensure (¬ destination.base.frozen) (TokenError.accountFrozen : Fault)
  return destination

/-- `process_withdraw_withheld_tokens_from_mint`
(`confidential_transfer_fee/processor.rs:70-172`). -/
def processConfidentialWithdrawFromMint (zk : ZkOps) (env : Env)
    (newDecryptableAvailableBalance : AeCiphertext) (proofInstructionOffset : Int64)
    (accounts : List AccountInfo) (l : Ledger) : Except Fault Ledger := do
  let (mintInfo, accounts) ← nextAccountInfo accounts
  let (destinationInfo, accounts) ← nextAccountInfo accounts
  let (proofContext, accounts) ← verifyCiphertextCiphertextEqualityProof env l
    proofInstructionOffset accounts
  let (authorityInfo, signers) ← nextAccountInfo accounts
  checkProgramAccount (l mintInfo.key).owner
  let mint ← (l mintInfo.key).data.unpackMint
  validateWithheldAuthority l mint authorityInfo signers
  let feeConfig ← mint.getExtension .confidentialTransferFeeConfig
  let destination ← withheldDestination l mintInfo.key destinationInfo.key
  let extension ← destination.getExtension .confidentialTransferAccount
  extension.validAsDestination
  let extension ← extension.paidWithheld zk proofContext feeConfig feeConfig.withheldAmount
    newDecryptableAvailableBalance
  let l ← l.writeData destinationInfo.key
    (.account (destination.setExtension .confidentialTransferAccount extension))
  l.writeData mintInfo.key (.mint (mint.setExtension .confidentialTransferFeeConfig
    { feeConfig with withheldAmount := .zeroed }))

/-! ### Harvesting -/

/-- `harvest_from_account` (`confidential_transfer_fee/processor.rs:338-359`): the
withheld amount and the ledger without it. -/
def harvestConfidential (l : Ledger) (mintKey k : Pubkey) :
    Except Fault (ElGamalCiphertext × Ledger) := do
  let account ← mapErr (l k).data.unpackAccount fun _ => TokenError.invalidState
  ensure (account.base.mint = mintKey) (TokenError.mintMismatch : Fault)
  mapErr (checkProgramAccount (l k).owner) fun _ => TokenError.invalidState
  let extension ← mapErr (account.getExtension .confidentialTransferFeeAmount)
    fun _ => TokenError.invalidState
  let l ← l.writeData k (.account (account.setExtension .confidentialTransferFeeAmount ⟨.zeroed⟩))
  return (extension.withheldAmount, l)

/-- One account of a harvest, added to the amount gathered so far; an account
that cannot be harvested is only logged. -/
def harvestConfidentialInto (zk : ZkOps) (mintKey : Pubkey) (s : ElGamalCiphertext × Ledger)
    (info : AccountInfo) : Except Fault (ElGamalCiphertext × Ledger) := do
  borrowData [mintKey] info.key
  match harvestConfidential s.2 mintKey info.key with
  | .ok (amount, l) => do
    let withheldAmount ← okOr (zk.add s.1 amount) (ProgramError.invalidInstructionData : Fault)
    return (withheldAmount, l)
  | .error _ => return s

/-- The destination of a withdrawal, the amount gathered and the ledger. -/
structure ConfidentialWithdrawal where
  destination : PodStateWithExtensions PodAccount
  withheldAmount : ElGamalCiphertext
  ledger : Ledger

/-- The destination's own withheld amount, when it is listed as a source. -/
def selfHarvestConfidential (zk : ZkOps) (s : ConfidentialWithdrawal) :
    Except Fault ConfidentialWithdrawal := do
  let extension ← mapErr (s.destination.getExtension .confidentialTransferFeeAmount)
    fun _ => TokenError.invalidState
  let withheldAmount ← okOr (zk.add s.withheldAmount extension.withheldAmount)
    (ProgramError.invalidInstructionData : Fault)
  return { s with
    destination := s.destination.setExtension .confidentialTransferFeeAmount ⟨.zeroed⟩
    withheldAmount := withheldAmount }

/-- One pass of the withdrawal loop (`processor.rs:264-291`). -/
def gatherConfidential (zk : ZkOps) (mintKey destinationKey : Pubkey) (s : ConfidentialWithdrawal)
    (info : AccountInfo) : Except Fault ConfidentialWithdrawal :=
  if info.key = destinationKey then selfHarvestConfidential zk s
  else do
    let (withheldAmount, l) ← harvestConfidentialInto zk mintKey (s.withheldAmount, s.ledger) info
    return { s with withheldAmount := withheldAmount, ledger := l }

/-- `process_withdraw_withheld_tokens_from_accounts`
(`confidential_transfer_fee/processor.rs:209-335`). -/
def processConfidentialWithdrawFromAccounts (zk : ZkOps) (env : Env) (numTokenAccounts : UInt8)
    (newDecryptableAvailableBalance : AeCiphertext) (proofInstructionOffset : Int64)
    (accounts : List AccountInfo) (l : Ledger) : Except Fault Ledger := do
  let (mintInfo, accounts) ← nextAccountInfo accounts
  let (destinationInfo, accounts) ← nextAccountInfo accounts
  let (proofContext, accounts) ← verifyCiphertextCiphertextEqualityProof env l
    proofInstructionOffset accounts
  let (authorityInfo, accountInfos) ← nextAccountInfo accounts
  let numSigners := accountInfos.length - numTokenAccounts.toNat
  checkProgramAccount (l mintInfo.key).owner
  let mint ← (l mintInfo.key).data.unpackMint
  validateWithheldAuthority l mint authorityInfo (accountInfos.take numSigners)
  let destination ← withheldDestination l mintInfo.key destinationInfo.key
  let gathered ← loop (gatherConfidential zk mintInfo.key destinationInfo.key)
    (accountInfos.drop numSigners) ⟨destination, .zeroed, l⟩
  let extension ← gathered.destination.getExtension .confidentialTransferAccount
  extension.validAsDestination
  let feeConfig ← mint.getExtension .confidentialTransferFeeConfig
  let extension ← extension.paidWithheld zk proofContext feeConfig gathered.withheldAmount
    newDecryptableAvailableBalance
  gathered.ledger.writeData destinationInfo.key
    (.account (gathered.destination.setExtension .confidentialTransferAccount extension))

/-- `process_harvest_withheld_tokens_to_mint`
(`confidential_transfer_fee/processor.rs:363-398`). -/
def processConfidentialHarvestToMint (zk : ZkOps) (accounts : List AccountInfo) (l : Ledger) :
    Except Fault Ledger := do
  let (mintInfo, tokenAccountInfos) ← nextAccountInfo accounts
  let mint ← (l mintInfo.key).data.unpackMint
  let _ ← mint.getExtension .transferFeeConfig
  let feeConfig ← mint.getExtension .confidentialTransferFeeConfig
  ensure (feeConfig.harvestToMintEnabled = true) (TokenError.harvestToMintDisabled : Fault)
  let (withheldAmount, l) ← loop (harvestConfidentialInto zk mintInfo.key) tokenAccountInfos
    (feeConfig.withheldAmount, l)
  l.writeData mintInfo.key (.mint (mint.setExtension .confidentialTransferFeeConfig
    { feeConfig with withheldAmount := withheldAmount }))

/-- `process_enable_harvest_to_mint` and `process_disable_harvest_to_mint`
(`confidential_transfer_fee/processor.rs:401-458`). -/
def processToggleHarvestToMint (enable : Bool) (accounts : List AccountInfo) (l : Ledger) :
    Except Fault Ledger := do
  let (mintInfo, _) ← nextAccountInfo accounts
  checkProgramAccount (l mintInfo.key).owner
  updateMintExtension .confidentialTransferFeeConfig ConfidentialTransferFeeConfig.authority
    (fun extension => pure { extension with harvestToMintEnabled := enable }) accounts l

end BarkToken
