import BarkToken.Confidential.Account
import BarkToken.Processor.Transfer

/-!
# Confidential transfers (extension/confidential_transfer/processor.rs:432-958)
-/

namespace BarkToken
open Fallible

/-! ### What both kinds of transfer take from their context -/

/-- The keys and ciphertexts that `TransferProofContextInfo` and
`TransferWithFeeProofContextInfo` have in common. -/
structure TransferParts where
  source : ElGamalPubkey
  destination : ElGamalPubkey
  auditor : ElGamalPubkey
  ciphertextLo : TransferAmountCiphertext
  ciphertextHi : TransferAmountCiphertext
  newSourceCiphertext : ElGamalCiphertext
deriving DecidableEq

def TransferProofContextInfo.parts (c : TransferProofContextInfo) : TransferParts :=
  ⟨c.transferPubkeys.source, c.transferPubkeys.destination, c.transferPubkeys.auditor,
    c.ciphertextLo, c.ciphertextHi, c.newSourceCiphertext⟩

def TransferWithFeeProofContextInfo.parts (c : TransferWithFeeProofContextInfo) : TransferParts :=
  ⟨c.transferWithFeePubkeys.source, c.transferWithFeePubkeys.destination,
    c.transferWithFeePubkeys.auditor, c.ciphertextLo, c.ciphertextHi, c.newSourceCiphertext⟩

/-! ### The source -/

/-- The source's extension after the transfer: the balance that remains is the
one the proof has been made for. -/
def ConfidentialTransferAccount.debited (e : ConfidentialTransferAccount) (zk : ZkOps)
    (p : TransferParts) (newDecryptableAvailableBalance : AeCiphertext) :
    Except Fault ConfidentialTransferAccount := do
  ensure (p.source = e.elgamalPubkey) (TokenError.confidentialTransferElGamalPubkeyMismatch : Fault)
  let availableBalance ← okOr
    (zk.subtractWithLoHi e.availableBalance (transferAmountSourceCiphertext p.ciphertextLo)
      (transferAmountSourceCiphertext p.ciphertextHi))
    (TokenError.ciphertextArithmeticFailed : Fault)
  ensure (availableBalance = p.newSourceCiphertext)
    (TokenError.confidentialTransferBalanceMismatch : Fault)
  return { e with
    availableBalance := availableBalance
    decryptableAvailableBalance := newDecryptableAvailableBalance }

/-- The body of `process_source_for_transfer` and
`process_source_for_transfer_with_fee`. The mint's data is borrowed all along. -/
def sourceForTransfer (zk : ZkOps) (l : Ledger) (sourceInfo mintInfo authorityInfo : AccountInfo)
    (signers : List AccountInfo) (parts : Option TransferParts)
    (newDecryptableAvailableBalance : AeCiphertext) : Except Fault Ledger := do
  checkProgramAccount (l sourceInfo.key).owner
  borrowData [mintInfo.key] authorityInfo.key
  borrowData [mintInfo.key] sourceInfo.key
  let tokenAccount ← (l sourceInfo.key).data.unpackAccount
  validateOwner l tokenAccount.base.owner authorityInfo signers
  ensure (¬ tokenAccount.base.frozen) (TokenError.accountFrozen : Fault)
  ensure (tokenAccount.base.mint = mintInfo.key) (TokenError.mintMismatch : Fault)
  let extension ← tokenAccount.getExtension .confidentialTransferAccount
  extension.validAsSource
  match parts with
  | some p => do
    let extension ← extension.debited zk p newDecryptableAvailableBalance
    l.writeData sourceInfo.key
      (.account (tokenAccount.setExtension .confidentialTransferAccount extension))
  | none => .ok l

/-- `process_source_for_transfer` (`confidential_transfer/processor.rs:667-732`). -/
def processSourceForTransfer (zk : ZkOps) (l : Ledger)
    (sourceInfo mintInfo authorityInfo : AccountInfo) (signers : List AccountInfo)
    (context : Option TransferProofContextInfo) (newDecryptableAvailableBalance : AeCiphertext) :
    Except Fault Ledger :=
  sourceForTransfer zk l sourceInfo mintInfo authorityInfo signers
    (context.map TransferProofContextInfo.parts) newDecryptableAvailableBalance

/-- `process_source_for_transfer_with_fee`
(`confidential_transfer/processor.rs:793-860`). -/
def processSourceForTransferWithFee (zk : ZkOps) (l : Ledger)
    (sourceInfo mintInfo authorityInfo : AccountInfo) (signers : List AccountInfo)
    (context : Option TransferWithFeeProofContextInfo)
    (newDecryptableAvailableBalance : AeCiphertext) : Except Fault Ledger :=
  sourceForTransfer zk l sourceInfo mintInfo authorityInfo signers
    (context.map TransferWithFeeProofContextInfo.parts) newDecryptableAvailableBalance

/-! ### The destination -/

/-- The destination's extension with the amount added to its pending balances. -/
def ConfidentialTransferAccount.credited (e : ConfidentialTransferAccount) (zk : ZkOps)
    (p : TransferParts) : Except Fault ConfidentialTransferAccount := do
  ensure (p.destination = e.elgamalPubkey)
    (TokenError.confidentialTransferElGamalPubkeyMismatch : Fault)
  let pendingBalanceLo ← okOr
    (zk.add e.pendingBalanceLo (transferAmountDestinationCiphertext p.ciphertextLo))
    (TokenError.ciphertextArithmeticFailed : Fault)
  let pendingBalanceHi ← okOr
    (zk.add e.pendingBalanceHi (transferAmountDestinationCiphertext p.ciphertextHi))
    (TokenError.ciphertextArithmeticFailed : Fault)
  { e with
    pendingBalanceLo := pendingBalanceLo
    pendingBalanceHi := pendingBalanceHi }.incrementPendingBalanceCreditCounter

/-- The destination's extension with the fee taken out of its pending balances. -/
def ConfidentialTransferAccount.charged (e : ConfidentialTransferAccount) (zk : ZkOps)
    (feeLo feeHi : FeeEncryption) : Except Fault ConfidentialTransferAccount := do
  let pendingBalanceLo ← okOr
    (zk.subtract e.pendingBalanceLo (feeAmountDestinationCiphertext feeLo))
    (TokenError.ciphertextArithmeticFailed : Fault)
  let pendingBalanceHi ← okOr
    (zk.subtract e.pendingBalanceHi (feeAmountDestinationCiphertext feeHi))
    (TokenError.ciphertextArithmeticFailed : Fault)
  return { e with pendingBalanceLo := pendingBalanceLo, pendingBalanceHi := pendingBalanceHi }

/-- The withheld amount with the fee added to it. -/
def ConfidentialTransferFeeAmount.withheld (e : ConfidentialTransferFeeAmount) (zk : ZkOps)
    (feeLo feeHi : FeeEncryption) : Except Fault ConfidentialTransferFeeAmount := do
  let withheldAmount ← okOr
    (zk.addWithLoHi e.withheldAmount (feeAmountWithdrawWithheldAuthorityCiphertext feeLo)
      (feeAmountWithdrawWithheldAuthorityCiphertext feeHi))
    (TokenError.ciphertextArithmeticFailed : Fault)
  return ⟨withheldAmount⟩

/-- The checks on a destination that do not depend on the context. -/
def checkConfidentialDestination (env : Env) (l : Ledger) (destinationInfo mintInfo : AccountInfo) :
    Except Fault (PodStateWithExtensions PodAccount × ConfidentialTransferAccount) := do
  checkProgramAccount (l destinationInfo.key).owner
  borrowData [mintInfo.key] destinationInfo.key
  let tokenAccount ← (l destinationInfo.key).data.unpackAccount
  ensure (¬ tokenAccount.base.frozen) (TokenError.accountFrozen : Fault)
  ensure (tokenAccount.base.mint = mintInfo.key) (TokenError.mintMismatch : Fault)
  checkMemo env tokenAccount
  let extension ← tokenAccount.getExtension .confidentialTransferAccount
  extension.validAsDestination
  return (tokenAccount, extension)

/-- `process_destination_for_transfer`
(`confidential_transfer/processor.rs:735-789`). -/
def processDestinationForTransfer (zk : ZkOps) (env : Env) (l : Ledger)
    (destinationInfo mintInfo : AccountInfo) (context : Option TransferProofContextInfo) :
    Except Fault Ledger := do
  let (tokenAccount, extension) ← checkConfidentialDestination env l destinationInfo mintInfo
  match context with
  | some c => do
    let extension ← extension.credited zk c.parts
    l.writeData destinationInfo.key
      (.account (tokenAccount.setExtension .confidentialTransferAccount extension))
  | none => .ok l

/-- The fee moves from the destination's pending balances to its withheld amount
(`confidential_transfer/processor.rs:916-953`). -/
def withholdFee (zk : ZkOps) (tokenAccount : PodStateWithExtensions PodAccount)
    (extension : ConfidentialTransferAccount) (feeLo feeHi : FeeEncryption) :
    Except Fault (PodStateWithExtensions PodAccount) := do
  let extension ← extension.charged zk feeLo feeHi
  let tokenAccount := tokenAccount.setExtension .confidentialTransferAccount extension
  let feeAmount ← tokenAccount.getExtension .confidentialTransferFeeAmount
  let feeAmount ← feeAmount.withheld zk feeLo feeHi
  return tokenAccount.setExtension .confidentialTransferFeeAmount feeAmount

/-- The destination with its credited extension, and the fee withheld unless it
is the source as well. -/
def settleFee (zk : ZkOps) (tokenAccount : PodStateWithExtensions PodAccount)
    (extension : ConfidentialTransferAccount) (c : TransferWithFeeProofContextInfo)
    (isSelfTransfer : Bool) : Except Fault (PodStateWithExtensions PodAccount) :=
  if isSelfTransfer then .ok (tokenAccount.setExtension .confidentialTransferAccount extension)
  else withholdFee zk tokenAccount extension c.feeCiphertextLo c.feeCiphertextHi

/-- `process_destination_for_transfer_with_fee`
(`confidential_transfer/processor.rs:863-958`): a self-transfer pays no fee. -/
def processDestinationForTransferWithFee (zk : ZkOps) (env : Env) (l : Ledger)
    (destinationInfo mintInfo : AccountInfo) (context : Option TransferWithFeeProofContextInfo)
    (isSelfTransfer : Bool) : Except Fault Ledger := do
  let (tokenAccount, extension) ← checkConfidentialDestination env l destinationInfo mintInfo
  match context with
  | some c => do
    let extension ← extension.credited zk c.parts
    let tokenAccount ← settleFee zk tokenAccount extension c isSelfTransfer
    l.writeData destinationInfo.key (.account tokenAccount)
  | none => .ok l

/-! ### The instruction -/

/-- With closing requested but no context to close, the three accounts of the
closing are passed over. -/
def skipCloseAccounts {α : Type} (flags : SplitFlags) (context : Option α)
    (accounts : List AccountInfo) : Except Fault (List AccountInfo) :=
  if flags.closeSplitContextStateOnExecution = true ∧ context.isNone then do
    let (_, accounts) ← nextAccountInfo accounts
    let (_, accounts) ← nextAccountInfo accounts
    let (_, accounts) ← nextAccountInfo accounts
    return accounts
  else .ok accounts

/-- The source, mint and destination of a confidential transfer. -/
structure TransferInfos where
  source : AccountInfo
  mint : AccountInfo
  destination : AccountInfo

/-- What is left once the balances have moved: the authority, the accounts after
it and the ledger. -/
structure ExecutedTransfer where
  authority : AccountInfo
  signers : List AccountInfo
  ledger : Ledger

/-- The data of a confidential transfer's instruction. -/
structure ConfidentialTransferData where
  newSourceDecryptableAvailableBalance : AeCiphertext
  proofInstructionOffset : Int64
  flags : SplitFlags
  sourceDecryptHandles : SourceDecryptHandles
deriving DecidableEq

/-- `process_transfer`, the mint not extended for fees
(`confidential_transfer/processor.rs:470-531`). -/
def executeTransfer (zk : ZkOps) (env : Env) (data : ConfidentialTransferData)
    (infos : TransferInfos) (confidentialTransferMint : ConfidentialTransferMint)
    (accounts : List AccountInfo) (l : Ledger) : Except Fault ExecutedTransfer := do
  let verified ← verifyTransferProof env infos.mint.key data.proofInstructionOffset data.flags
    data.sourceDecryptHandles accounts l
  let accounts ← skipCloseAccounts data.flags verified.context verified.accounts
  let (authorityInfo, signers) ← nextAccountInfo accounts
  ensure (∀ c ∈ verified.context,
      confidentialTransferMint.auditorElgamalPubkey.key = c.transferPubkeys.auditor)
    (TokenError.confidentialTransferElGamalPubkeyMismatch : Fault)
  let l ← processSourceForTransfer zk verified.ledger infos.source infos.mint authorityInfo signers
    verified.context data.newSourceDecryptableAvailableBalance
  let l ← processDestinationForTransfer zk env l infos.destination infos.mint verified.context
  return ⟨authorityInfo, signers, l⟩

/-- `process_transfer`, the mint extended for fees
(`confidential_transfer/processor.rs:532-624`). -/
def executeTransferWithFee (zk : ZkOps) (env : Env) (data : ConfidentialTransferData)
    (infos : TransferInfos) (mint : PodStateWithExtensions PodMint)
    (confidentialTransferMint : ConfidentialTransferMint) (transferFeeConfig : TransferFeeConfig)
    (accounts : List AccountInfo) (l : Ledger) : Except Fault ExecutedTransfer := do
  let verified ← verifyTransferWithFeeProof zk env infos.mint.key data.proofInstructionOffset
    data.flags data.sourceDecryptHandles (transferFeeConfig.getEpochFee env.epoch) accounts l
  let accounts ← skipCloseAccounts data.flags verified.context verified.accounts
  let (authorityInfo, signers) ← nextAccountInfo accounts
  ensure (∀ c ∈ verified.context,
      confidentialTransferMint.auditorElgamalPubkey.key = c.transferWithFeePubkeys.auditor)
    (TokenError.confidentialTransferElGamalPubkeyMismatch : Fault)
  let feeConfig ← mint.getExtension .confidentialTransferFeeConfig
  ensure (∀ c ∈ verified.context, c.transferWithFeePubkeys.withdrawWithheldAuthority =
      feeConfig.withdrawWithheldAuthorityElgamalPubkey)
    (TokenError.confidentialTransferElGamalPubkeyMismatch : Fault)
  let l ← processSourceForTransferWithFee zk verified.ledger infos.source infos.mint authorityInfo
    signers verified.context data.newSourceDecryptableAvailableBalance
  let l ← processDestinationForTransferWithFee zk env l infos.destination infos.mint
    verified.context (decide (infos.source.key = infos.destination.key))
  return ⟨authorityInfo, signers, l⟩

/-- Which of the two kinds the mint asks for. -/
def executeForMint (zk : ZkOps) (env : Env) (data : ConfidentialTransferData)
    (infos : TransferInfos) (mint : PodStateWithExtensions PodMint)
    (confidentialTransferMint : ConfidentialTransferMint) (accounts : List AccountInfo)
    (l : Ledger) : Except Fault ExecutedTransfer :=
  match mint.tlv.get .transferFeeConfig with
  | none => executeTransfer zk env data infos confidentialTransferMint accounts l
  | some transferFeeConfig => executeTransferWithFee zk env data infos mint
      confidentialTransferMint transferFeeConfig accounts l

/-- Unpacks an account and raises its transferring flag
(`confidential_transfer/processor.rs:629-641`). -/
def setTransferringAt (l : Ledger) (k : Pubkey) : Except Fault Ledger := do
  let account ← (l k).data.unpackAccount
  let account ← setTransferring account
  l.writeData k (.account account)

/-- The mint's transfer hook is told an amount of `u64::MAX`, the real one being
unknown (`confidential_transfer/processor.rs:627-662`). -/
def invokeConfidentialHook (env : Env) (infos : TransferInfos)
    (mint : PodStateWithExtensions PodMint) (executed : ExecutedTransfer) :
    Except Fault Ledger :=
  match getTransferHookProgramId mint with
  | some hookProgram => do
    let l ← setTransferringAt executed.ledger infos.source.key
    let l ← setTransferringAt l infos.destination.key
    let l ← env.invoke (.transferHook hookProgram infos.source.key infos.mint.key
      infos.destination.key executed.authority.key executed.signers
      (UInt64.ofNat (2 ^ 64 - 1))) l
    let l ← unsetTransferring l infos.source.key
    unsetTransferring l infos.destination.key
  | none => .ok executed.ledger

/-- `process_transfer` (`confidential_transfer/processor.rs:432-665`). -/
def processConfidentialTransfer (zk : ZkOps) (env : Env) (data : ConfidentialTransferData)
    (accounts : List AccountInfo) (l : Ledger) : Except Fault Ledger := do
  let (sourceInfo, accounts) ← nextAccountInfo accounts
  let (mintInfo, accounts) ← nextAccountInfo accounts
  let (destinationInfo, accounts) ← nextAccountInfo accounts
  let infos : TransferInfos := ⟨sourceInfo, mintInfo, destinationInfo⟩
  checkProgramAccount (l mintInfo.key).owner
  let mint ← (l mintInfo.key).data.unpackMint
  ensure (¬ mint.hasExtension .nonTransferable) (TokenError.nonTransferable : Fault)
  let confidentialTransferMint ← mint.getExtension .confidentialTransferMint
  let executed ← executeForMint zk env data infos mint confidentialTransferMint accounts l
  invokeConfidentialHook env infos mint executed

end BarkToken
