import BarkToken.Confidential.Proof
import BarkToken.Processor.Supply

/-!
# Confidential accounts (extension/confidential_transfer/processor.rs:40-429, 960-1075,
extension/confidential_transfer/mod.rs)
-/

namespace BarkToken
open Fallible CheckedWord

/-! ### The account extension -/

namespace ConfidentialTransferAccount

/-- `approved`, and so `valid_as_source`. -/
def validAsSource (e : ConfidentialTransferAccount) : Except Fault Unit :=
  ensure (e.approved = true) (TokenError.confidentialTransferAccountNotApproved : Fault)

/-- `valid_as_destination` (`confidential_transfer/mod.rs`). -/
def validAsDestination (e : ConfidentialTransferAccount) : Except Fault Unit := do
  ensure (e.approved = true) (TokenError.confidentialTransferAccountNotApproved : Fault)
  ensure (e.allowConfidentialCredits = true)
    (TokenError.confidentialTransferDepositsAndTransfersDisabled : Fault)
  let newCounter ← okOr (checkedAdd e.pendingBalanceCreditCounter 1) (TokenError.overflow : Fault)
  ensure (newCounter ≤ e.maximumPendingBalanceCreditCounter)
    (TokenError.maximumPendingBalanceCreditCounterExceeded : Fault)

/-- `increment_pending_balance_credit_counter`. -/
def incrementPendingBalanceCreditCounter (e : ConfidentialTransferAccount) :
    Except Fault ConfidentialTransferAccount := do
  let counter ← okOr (checkedAdd e.pendingBalanceCreditCounter 1) (TokenError.overflow : Fault)
  return { e with pendingBalanceCreditCounter := counter }

end ConfidentialTransferAccount

/-! ### Mints -/

/-- `process_initialize_mint` (`confidential_transfer/processor.rs:40-61`). -/
def processInitializeConfidentialTransferMint (authority : OptionalNonZeroPubkey)
    (autoApproveNewAccounts : Bool) (auditorElgamalPubkey : OptionalNonZeroElGamalPubkey)
    (accounts : List AccountInfo) (l : Ledger) : Except Fault Ledger := do
  let (mintInfo, _) ← nextAccountInfo accounts
  checkProgramAccount (l mintInfo.key).owner
  initMintExtension .confidentialTransferMint
    (pure ⟨authority, autoApproveNewAccounts, auditorElgamalPubkey⟩) true accounts l

/-- `process_update_mint` (`confidential_transfer/processor.rs:64-95`): the
authority has to sign by itself, multisigs are not supported. -/
def processUpdateConfidentialTransferMint (autoApproveNewAccounts : Bool)
    (auditorElgamalPubkey : OptionalNonZeroElGamalPubkey) (accounts : List AccountInfo)
    (l : Ledger) : Except Fault Ledger := do
  let (mintInfo, accounts) ← nextAccountInfo accounts
  let (authorityInfo, _) ← nextAccountInfo accounts
  checkProgramAccount (l mintInfo.key).owner
  let mint ← (l mintInfo.key).data.unpackMint
  let extension ← mint.getExtension .confidentialTransferMint
  let authority ← okOr extension.authority.toOption (TokenError.noAuthorityExists : Fault)
  ensure (authorityInfo.isSigner = true) (ProgramError.missingRequiredSignature : Fault)
  ensure (authority = authorityInfo.key) (TokenError.ownerMismatch : Fault)
  l.writeData mintInfo.key (.mint (mint.setExtension .confidentialTransferMint
    { extension with
      autoApproveNewAccounts := autoApproveNewAccounts
      auditorElgamalPubkey := auditorElgamalPubkey }))

/-! ### Configuring and approving accounts -/

/-- A fee mint's accounts carry an encrypted withheld amount as well
(`confidential_transfer/processor.rs:150-156`). -/
def initConfidentialTransferFeeAmount (mint : PodStateWithExtensions PodMint)
    (account : PodStateWithExtensions PodAccount) :
    Except Fault (PodStateWithExtensions PodAccount) :=
  if mint.hasExtension .transferFeeConfig then
    account.initExtension .confidentialTransferFeeAmount ⟨.zeroed⟩ false
  else .ok account

/-- `process_configure_account` (`confidential_transfer/processor.rs:98-159`). -/
def processConfigureAccount (env : Env) (decryptableZeroBalance : AeCiphertext)
    (maximumPendingBalanceCreditCounter : UInt64) (proofInstructionOffset : Int64)
    (accounts : List AccountInfo) (l : Ledger) : Except Fault Ledger := do
  let (tokenAccountInfo, accounts) ← nextAccountInfo accounts
  let (mintInfo, accounts) ← nextAccountInfo accounts
  let (proofContext, accounts) ← verifyConfigureAccountProof env l proofInstructionOffset accounts
  let (authorityInfo, signers) ← nextAccountInfo accounts
  checkProgramAccount (l tokenAccountInfo.key).owner
  let tokenAccount ← (l tokenAccountInfo.key).data.unpackAccount
  ensure (tokenAccount.base.mint = mintInfo.key) (TokenError.mintMismatch : Fault)
  validateOwner l tokenAccount.base.owner authorityInfo signers
  checkProgramAccount (l mintInfo.key).owner
  borrowData [tokenAccountInfo.key] mintInfo.key
  let mint ← (l mintInfo.key).data.unpackMint
  let confidentialTransferMint ← mint.getExtension .confidentialTransferMint
  let confidentialTransferAccount : ConfidentialTransferAccount :=
    { approved := confidentialTransferMint.autoApproveNewAccounts
      elgamalPubkey := proofContext.pubkey
      pendingBalanceLo := .zeroed
      pendingBalanceHi := .zeroed
      availableBalance := .zeroed
      decryptableAvailableBalance := decryptableZeroBalance
      allowConfidentialCredits := true
      allowNonConfidentialCredits := true
      pendingBalanceCreditCounter := 0
      maximumPendingBalanceCreditCounter := maximumPendingBalanceCreditCounter
      expectedPendingBalanceCreditCounter := 0
      actualPendingBalanceCreditCounter := 0 }
  let tokenAccount ← tokenAccount.initExtension .confidentialTransferAccount
    confidentialTransferAccount false
  let tokenAccount ← initConfidentialTransferFeeAmount mint tokenAccount
  l.writeData tokenAccountInfo.key (.account tokenAccount)

/-- `process_approve_account` (`confidential_transfer/processor.rs:162-198`). -/
def processApproveAccount (accounts : List AccountInfo) (l : Ledger) : Except Fault Ledger := do
  let (tokenAccountInfo, accounts) ← nextAccountInfo accounts
  let (mintInfo, accounts) ← nextAccountInfo accounts
  let (authorityInfo, _) ← nextAccountInfo accounts
  checkProgramAccount (l tokenAccountInfo.key).owner
  let tokenAccount ← (l tokenAccountInfo.key).data.unpackAccount
  ensure (mintInfo.key = tokenAccount.base.mint) (TokenError.mintMismatch : Fault)
  checkProgramAccount (l mintInfo.key).owner
  borrowData [tokenAccountInfo.key] mintInfo.key
  let mint ← (l mintInfo.key).data.unpackMint
  let confidentialTransferMint ← mint.getExtension .confidentialTransferMint
  let authority ← okOr confidentialTransferMint.authority.toOption
    (TokenError.noAuthorityExists : Fault)
  ensure (authorityInfo.isSigner = true ∧ authorityInfo.key = authority)
    (ProgramError.missingRequiredSignature : Fault)
  let extension ← tokenAccount.getExtension .confidentialTransferAccount
  l.writeData tokenAccountInfo.key (.account (tokenAccount.setExtension
    .confidentialTransferAccount { extension with approved := true }))

/-- An instruction of the account's owner on its confidential extension: the
shape of `process_apply_pending_balance` and of the credit toggles. -/
def updateConfidentialTransferAccount
    (update : ConfidentialTransferAccount → Except Fault ConfidentialTransferAccount)
    (tokenAccountInfo authorityInfo : AccountInfo) (signers : List AccountInfo) (l : Ledger) :
    Except Fault Ledger := do
  checkProgramAccount (l tokenAccountInfo.key).owner
  let tokenAccount ← (l tokenAccountInfo.key).data.unpackAccount
  validateOwner l tokenAccount.base.owner authorityInfo signers
  let extension ← tokenAccount.getExtension .confidentialTransferAccount
  let extension ← update extension
  l.writeData tokenAccountInfo.key
    (.account (tokenAccount.setExtension .confidentialTransferAccount extension))

/-- What `EmptyAccount` does to the extension: the proof is about its key and
its balance, and nothing but zero ciphertexts remains. -/
def ConfidentialTransferAccount.emptied (e : ConfidentialTransferAccount)
    (proofContext : ZeroBalanceProofContext) : Except Fault ConfidentialTransferAccount := do
  ensure (e.elgamalPubkey = proofContext.pubkey)
    (TokenError.confidentialTransferElGamalPubkeyMismatch : Fault)
  ensure (e.availableBalance = proofContext.ciphertext)
    (ProgramError.invalidInstructionData : Fault)
  let e := { e with availableBalance := .zeroed }
  ensure e.closable (TokenError.confidentialTransferAccountHasBalance : Fault)
  return e

/-- `process_empty_account` (`confidential_transfer/processor.rs:201-248`). -/
def processEmptyAccount (env : Env) (proofInstructionOffset : Int64) (accounts : List AccountInfo)
    (l : Ledger) : Except Fault Ledger := do
  let (tokenAccountInfo, accounts) ← nextAccountInfo accounts
  let (proofContext, accounts) ← verifyEmptyAccountProof env l proofInstructionOffset accounts
  let (authorityInfo, signers) ← nextAccountInfo accounts
  updateConfidentialTransferAccount (fun e => e.emptied proofContext) tokenAccountInfo
    authorityInfo signers l

/-- The extension after `ApplyPendingBalance`. -/
def ConfidentialTransferAccount.applied (e : ConfidentialTransferAccount) (zk : ZkOps)
    (expectedPendingBalanceCreditCounter : UInt64) (newDecryptableAvailableBalance : AeCiphertext) :
    Except Fault ConfidentialTransferAccount := do
  let availableBalance ← okOr
    (zk.addWithLoHi e.availableBalance e.pendingBalanceLo e.pendingBalanceHi)
    (TokenError.ciphertextArithmeticFailed : Fault)
  return { e with
    availableBalance := availableBalance
    actualPendingBalanceCreditCounter := e.pendingBalanceCreditCounter
    expectedPendingBalanceCreditCounter := expectedPendingBalanceCreditCounter
    decryptableAvailableBalance := newDecryptableAvailableBalance
    pendingBalanceCreditCounter := 0
    pendingBalanceLo := .zeroed
    pendingBalanceHi := .zeroed }

/-- `process_apply_pending_balance` (`confidential_transfer/processor.rs:962-1008`). -/
def processApplyPendingBalance (zk : ZkOps) (expectedPendingBalanceCreditCounter : UInt64)
    (newDecryptableAvailableBalance : AeCiphertext) (accounts : List AccountInfo) (l : Ledger) :
    Except Fault Ledger := do
  let (tokenAccountInfo, accounts) ← nextAccountInfo accounts
  let (authorityInfo, signers) ← nextAccountInfo accounts
  updateConfidentialTransferAccount
    (fun e => e.applied zk expectedPendingBalanceCreditCounter newDecryptableAvailableBalance)
    tokenAccountInfo authorityInfo signers l

/-- `process_allow_confidential_credits` (`confidential_transfer/processor.rs:1012-1039`). -/
def processAllowConfidentialCredits (allow : Bool) (accounts : List AccountInfo) (l : Ledger) :
    Except Fault Ledger := do
  let (tokenAccountInfo, accounts) ← nextAccountInfo accounts
  let (authorityInfo, signers) ← nextAccountInfo accounts
  updateConfidentialTransferAccount (fun e => pure { e with allowConfidentialCredits := allow })
    tokenAccountInfo authorityInfo signers l

/-- `process_allow_non_confidential_credits`
(`confidential_transfer/processor.rs:1043-1071`). -/
def processAllowNonConfidentialCredits (allow : Bool) (accounts : List AccountInfo) (l : Ledger) :
    Except Fault Ledger := do
  let (tokenAccountInfo, accounts) ← nextAccountInfo accounts
  let (authorityInfo, signers) ← nextAccountInfo accounts
  updateConfidentialTransferAccount (fun e => pure { e with allowNonConfidentialCredits := allow })
    tokenAccountInfo authorityInfo signers l

/-! ### Deposits and withdrawals -/

/-- `verify_and_split_deposit_amount` (`confidential_transfer/processor.rs:323-332`):
the low 16 bits and the next 32 of a 48-bit amount. -/
def verifyAndSplitDepositAmount (amount : UInt64) : Except Fault (UInt64 × UInt64) := do
  ensure (amount ≤ 281474976710655) (TokenError.maximumDepositAmountExceeded : Fault)
  return (amount &&& 65535, amount >>> 16)

/-- Ciphertext arithmetic with a plain amount, skipped for zero. -/
def shiftCiphertext (op : ElGamalCiphertext → UInt64 → Option ElGamalCiphertext)
    (c : ElGamalCiphertext) (amount : UInt64) : Except Fault ElGamalCiphertext :=
  if 0 < amount then okOr (op c amount) (TokenError.ciphertextArithmeticFailed : Fault) else .ok c

/-- The extension after a deposit of `amount`. -/
def ConfidentialTransferAccount.deposited (e : ConfidentialTransferAccount) (zk : ZkOps)
    (amount : UInt64) : Except Fault ConfidentialTransferAccount := do
  e.validAsDestination
  let (amountLo, amountHi) ← verifyAndSplitDepositAmount amount
  let pendingBalanceLo ← shiftCiphertext zk.addTo e.pendingBalanceLo amountLo
  let pendingBalanceHi ← shiftCiphertext zk.addTo e.pendingBalanceHi amountHi
  { e with
    pendingBalanceLo := pendingBalanceLo
    pendingBalanceHi := pendingBalanceHi }.incrementPendingBalanceCreditCounter

/-- The checks that `process_deposit` and `process_withdraw` make on the mint and
the account. -/
def checkConfidentialMove (l : Ledger) (tokenAccountInfo mintInfo authorityInfo : AccountInfo)
    (signers : List AccountInfo) (expectedDecimals : UInt8) :
    Except Fault (PodStateWithExtensions PodAccount) := do
  checkProgramAccount (l mintInfo.key).owner
  let mint ← (l mintInfo.key).data.unpackMint
  ensure (expectedDecimals = mint.base.decimals) (TokenError.mintDecimalsMismatch : Fault)
  ensure (¬ mint.hasExtension .nonTransferable) (TokenError.nonTransferable : Fault)
  checkProgramAccount (l tokenAccountInfo.key).owner
  borrowData [mintInfo.key] tokenAccountInfo.key
  let tokenAccount ← (l tokenAccountInfo.key).data.unpackAccount
  validateOwner l tokenAccount.base.owner authorityInfo signers
  ensure (¬ tokenAccount.base.frozen) (TokenError.accountFrozen : Fault)
  ensure (tokenAccount.base.mint = mintInfo.key) (TokenError.mintMismatch : Fault)
  -- wrapped lamports cannot be vanished or apparated
  ensure (tokenAccount.base.isNative = none) Fault.panic
  return tokenAccount

/-- `process_deposit` (`confidential_transfer/processor.rs:252-319`). -/
def processDeposit (zk : ZkOps) (amount : UInt64) (expectedDecimals : UInt8)
    (accounts : List AccountInfo) (l : Ledger) : Except Fault Ledger := do
  let (tokenAccountInfo, accounts) ← nextAccountInfo accounts
  let (mintInfo, accounts) ← nextAccountInfo accounts
  let (authorityInfo, signers) ← nextAccountInfo accounts
  let tokenAccount ← checkConfidentialMove l tokenAccountInfo mintInfo authorityInfo signers
    expectedDecimals
  let newAmount ← okOr (checkedSub tokenAccount.base.amount amount) (TokenError.overflow : Fault)
  let extension ← tokenAccount.getExtension .confidentialTransferAccount
  let extension ← extension.deposited zk amount
  let tokenAccount := tokenAccount.setExtension .confidentialTransferAccount extension
  l.writeData tokenAccountInfo.key
    (.account { tokenAccount with base := { tokenAccount.base with amount := newAmount } })

/-- The extension after a withdrawal of `amount`; the proof has been made for
the balance that remains. -/
def ConfidentialTransferAccount.withdrawn (e : ConfidentialTransferAccount) (zk : ZkOps)
    (amount : UInt64) (proofContext : WithdrawProofContext)
    (newDecryptableAvailableBalance : AeCiphertext) : Except Fault ConfidentialTransferAccount := do
  e.validAsSource
  ensure (e.elgamalPubkey = proofContext.pubkey)
    (TokenError.confidentialTransferElGamalPubkeyMismatch : Fault)
  let availableBalance ← shiftCiphertext zk.subtractFrom e.availableBalance amount
  ensure (availableBalance = proofContext.finalCiphertext)
    (TokenError.confidentialTransferBalanceMismatch : Fault)
  return { e with
    availableBalance := availableBalance
    decryptableAvailableBalance := newDecryptableAvailableBalance }

/-- `process_withdraw` (`confidential_transfer/processor.rs:336-429`). -/
def processWithdraw (zk : ZkOps) (env : Env) (amount : UInt64) (expectedDecimals : UInt8)
    (newDecryptableAvailableBalance : AeCiphertext) (proofInstructionOffset : Int64)
    (accounts : List AccountInfo) (l : Ledger) : Except Fault Ledger := do
  let (tokenAccountInfo, accounts) ← nextAccountInfo accounts
  let (mintInfo, accounts) ← nextAccountInfo accounts
  let (proofContext, accounts) ← verifyWithdrawProof env l proofInstructionOffset accounts
  let (authorityInfo, signers) ← nextAccountInfo accounts
  let tokenAccount ← checkConfidentialMove l tokenAccountInfo mintInfo authorityInfo signers
    expectedDecimals
  let extension ← tokenAccount.getExtension .confidentialTransferAccount
  let extension ← extension.withdrawn zk amount proofContext newDecryptableAvailableBalance
  let newAmount ← okOr (checkedAdd tokenAccount.base.amount amount) (TokenError.overflow : Fault)
  let tokenAccount := tokenAccount.setExtension .confidentialTransferAccount extension
  l.writeData tokenAccountInfo.key
    (.account { tokenAccount with base := { tokenAccount.base with amount := newAmount } })

end BarkToken
