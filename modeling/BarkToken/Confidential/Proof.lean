import BarkToken.Confidential.Extraction
import BarkToken.Processor.Common

/-!
# Proof contexts of an instruction (extension/confidential_transfer/verify_proof.rs, proof.rs)
-/

namespace BarkToken
open Fallible

/-! ### One context -/

namespace ProofContext

def zeroBalance? : ProofContext → Option ZeroBalanceProofContext
  | zeroBalance c => some c
  | _ => none

def withdraw? : ProofContext → Option WithdrawProofContext
  | withdraw c => some c
  | _ => none

def pubkeyValidity? : ProofContext → Option PubkeyValidityProofContext
  | pubkeyValidity c => some c
  | _ => none

def transfer? : ProofContext → Option TransferProofContext
  | transfer c => some c
  | _ => none

def transferWithFee? : ProofContext → Option TransferWithFeeProofContext
  | transferWithFee c => some c
  | _ => none

def ciphertextCommitmentEquality? :
    ProofContext → Option CiphertextCommitmentEqualityProofContext
  | ciphertextCommitmentEquality c => some c
  | _ => none

def ciphertextCiphertextEquality? :
    ProofContext → Option CiphertextCiphertextEqualityProofContext
  | ciphertextCiphertextEquality c => some c
  | _ => none

def batchedGroupedCiphertext2HandlesValidity? :
    ProofContext → Option BatchedGroupedCiphertext2HandlesValidityProofContext
  | batchedGroupedCiphertext2HandlesValidity c => some c
  | _ => none

def batchedRangeProofU128? : ProofContext → Option BatchedRangeProofContext
  | batchedRangeProofU128 c => some c
  | _ => none

def batchedRangeProofU256? : ProofContext → Option BatchedRangeProofContext
  | batchedRangeProofU256 c => some c
  | _ => none

def feeSigma? : ProofContext → Option FeeSigmaProofContext
  | feeSigma c => some c
  | _ => none

end ProofContext

/-- `ProofContextState` of a context state account: an authority and a proof
type, then `contextLen` bytes of the context. -/
def readProofContext {α : Type} (select : ProofContext → Option α) (contextLen : ℕ) (l : Ledger)
    (k : Pubkey) : Except Fault α := do
  checkZkTokenProofProgramAccount (l k).owner
  ensure ((l k).data.len = 33 + contextLen) (ProgramError.invalidArgument : Fault)
  match (l k).data with
  | .proofContext _ c => okOr (select c) (ProgramError.invalidInstructionData : Fault)
  | _ => .error ProgramError.invalidInstructionData

/-- `get_instruction_relative` and `decode_proof_instruction_context`
(`proof.rs:15-32`). -/
def siblingProofContext {α : Type} (select : ProofContext → Option α) (env : Env)
    (offset : Int64) (k : Pubkey) : Except Fault α := do
  ensure (k = instructionsSysvar) (ProgramError.unsupportedSysvar : Fault)
  let c ← okOr (env.siblingProof offset) (ProgramError.invalidInstructionData : Fault)
  okOr (select c) (ProgramError.invalidInstructionData : Fault)

/-- At offset zero the account holds the context, elsewhere it is the
instructions sysvar. -/
def proofContextAt {α : Type} (select : ProofContext → Option α) (contextLen : ℕ) (env : Env)
    (l : Ledger) (offset : Int64) (k : Pubkey) : Except Fault α :=
  if offset = 0 then readProofContext select contextLen l k
  else siblingProofContext select env offset k

/-- The shape all the `verify_*_proof` functions share. -/
def verifyProof {α : Type} (select : ProofContext → Option α) (contextLen : ℕ) (env : Env)
    (l : Ledger) (offset : Int64) (accounts : List AccountInfo) :
    Except Fault (α × List AccountInfo) := do
  let (info, accounts) ← nextAccountInfo accounts
  let context ← proofContextAt select contextLen env l offset info.key
  return (context, accounts)

/-- `verify_configure_account_proof` (`verify_proof.rs:22-55`). -/
def verifyConfigureAccountProof := verifyProof ProofContext.pubkeyValidity? 32

/-- `verify_empty_account_proof` (`verify_proof.rs:57-90`). -/
def verifyEmptyAccountProof := verifyProof ProofContext.zeroBalance? 96

/-- `verify_withdraw_proof` (`verify_proof.rs:92-123`). -/
def verifyWithdrawProof := verifyProof ProofContext.withdraw? 96

/-- `verify_ciphertext_ciphertext_equality_proof`
(`confidential_transfer_fee/processor.rs`). -/
def verifyCiphertextCiphertextEqualityProof :=
  verifyProof ProofContext.ciphertextCiphertextEquality? 192

/-! ### Transfers -/

/-- The flags of a confidential transfer's instruction data. -/
structure SplitFlags where
  splitProofContextStateAccounts : Bool
  noOpOnUninitializedSplitContextState : Bool
  closeSplitContextStateOnExecution : Bool
deriving DecidableEq

/-- `close_context_state` for each of the split contexts
(`verify_proof.rs:180-232` and `332-421`). The call refuses the mint, whose data
is borrowed all along. -/
def closeContextStates (env : Env) (mintKey : Pubkey) (contexts : List AccountInfo)
    (accounts : List AccountInfo) (l : Ledger) : Except Fault (List AccountInfo × Ledger) := do
  let (lamportDestinationInfo, accounts) ← nextAccountInfo accounts
  let (authorityInfo, accounts) ← nextAccountInfo accounts
  let (_, accounts) ← nextAccountInfo accounts
  ensure (mintKey ≠ lamportDestinationInfo.key ∧ mintKey ≠ authorityInfo.key)
    (ProgramError.accountBorrowFailed : Fault)
  let l ← loop (fun l context => env.invoke
    (.closeContextState context.key lamportDestinationInfo.key authorityInfo.key) l) contexts l
  return (accounts, l)

/-- Where the instruction asks for it, the contexts are closed after use. -/
def finishContexts (env : Env) (mintKey : Pubkey) (flags : SplitFlags)
    (contexts accounts : List AccountInfo) (l : Ledger) :
    Except Fault (List AccountInfo × Ledger) :=
  if flags.closeSplitContextStateOnExecution then
    closeContextStates env mintKey contexts accounts l
  else .ok (accounts, l)

/-- A context account that is still the system program's turns the instruction
into a no-op, where it asks for that. -/
def noOpContext (l : Ledger) (flags : SplitFlags) (contexts : List AccountInfo) : Bool :=
  flags.noOpOnUninitializedSplitContextState &&
    contexts.any fun c => decide ((l c.key).owner = systemProgram)

/-- What a verified transfer proof leaves: the context, if the transfer is to be
executed, the accounts that follow and the ledger. -/
structure VerifiedTransfer (α : Type) where
  context : Option α
  accounts : List AccountInfo
  ledger : Ledger

/-- The split branch of `verify_transfer_proof` (`verify_proof.rs:141-234`). -/
def verifySplitTransferProof (env : Env) (mintKey : Pubkey) (flags : SplitFlags)
    (handles : SourceDecryptHandles) (accounts : List AccountInfo) (l : Ledger) :
    Except Fault (VerifiedTransfer TransferProofContextInfo) := do
  let (equalityInfo, accounts) ← nextAccountInfo accounts
  let (validityInfo, accounts) ← nextAccountInfo accounts
  let (rangeInfo, accounts) ← nextAccountInfo accounts
  let contexts := [equalityInfo, validityInfo, rangeInfo]
  if noOpContext l flags contexts then return ⟨none, accounts, l⟩
  else do
    let equality ← readProofContext ProofContext.ciphertextCommitmentEquality? 128 l
      equalityInfo.key
    let validity ← readProofContext ProofContext.batchedGroupedCiphertext2HandlesValidity? 256 l
      validityInfo.key
    let range ← readProofContext ProofContext.batchedRangeProofU128? 264 l rangeInfo.key
    let context ← TransferProofContextInfo.verifyAndExtract equality validity range handles
    let (accounts, l) ← finishContexts env mintKey flags contexts accounts l
    return ⟨some context, accounts, l⟩

/-- `verify_transfer_proof` (`verify_proof.rs:133-270`). -/
def verifyTransferProof (env : Env) (mintKey : Pubkey) (offset : Int64) (flags : SplitFlags)
    (handles : SourceDecryptHandles) (accounts : List AccountInfo) (l : Ledger) :
    Except Fault (VerifiedTransfer TransferProofContextInfo) :=
  if offset = 0 ∧ flags.splitProofContextStateAccounts = true then
    verifySplitTransferProof env mintKey flags handles accounts l
  else do
    let (context, accounts) ← verifyProof ProofContext.transfer? 416 env l offset accounts
    return ⟨some (TransferProofContextInfo.ofContext context), accounts, l⟩

/-- The split branch of `verify_transfer_with_fee_proof` (`verify_proof.rs:284-424`). -/
def verifySplitTransferWithFeeProof (zk : ZkOps) (env : Env) (mintKey : Pubkey)
    (flags : SplitFlags) (handles : SourceDecryptHandles) (feeParameters : TransferFee)
    (accounts : List AccountInfo) (l : Ledger) :
    Except Fault (VerifiedTransfer TransferWithFeeProofContextInfo) := do
  let (equalityInfo, accounts) ← nextAccountInfo accounts
  let (validityInfo, accounts) ← nextAccountInfo accounts
  let (feeSigmaInfo, accounts) ← nextAccountInfo accounts
  let (feeValidityInfo, accounts) ← nextAccountInfo accounts
  let (rangeInfo, accounts) ← nextAccountInfo accounts
  let contexts := [equalityInfo, validityInfo, feeSigmaInfo, feeValidityInfo, rangeInfo]
  if noOpContext l flags contexts then return ⟨none, accounts, l⟩
  else do
    let equality ← readProofContext ProofContext.ciphertextCommitmentEquality? 128 l
      equalityInfo.key
    let validity ← readProofContext ProofContext.batchedGroupedCiphertext2HandlesValidity? 256 l
      validityInfo.key
    let feeSigma ← readProofContext ProofContext.feeSigma? 104 l feeSigmaInfo.key
    let feeValidity ← readProofContext ProofContext.batchedGroupedCiphertext2HandlesValidity? 256
      l feeValidityInfo.key
    let range ← readProofContext ProofContext.batchedRangeProofU256? 264 l rangeInfo.key
    let context ← TransferWithFeeProofContextInfo.verifyAndExtract zk equality validity feeSigma
      feeValidity range handles feeParameters
    let (accounts, l) ← finishContexts env mintKey flags contexts accounts l
    return ⟨some context, accounts, l⟩

/-- `verify_transfer_with_fee_proof` (`verify_proof.rs:275-505`): a single context
names the fee parameters it was made for, and they have to be the mint's. -/
def verifyTransferWithFeeProof (zk : ZkOps) (env : Env) (mintKey : Pubkey) (offset : Int64)
    (flags : SplitFlags) (handles : SourceDecryptHandles) (feeParameters : TransferFee)
    (accounts : List AccountInfo) (l : Ledger) :
    Except Fault (VerifiedTransfer TransferWithFeeProofContextInfo) :=
  if offset = 0 ∧ flags.splitProofContextStateAccounts = true then
    verifySplitTransferWithFeeProof zk env mintKey flags handles feeParameters accounts l
  else do
    let (context, accounts) ← verifyProof ProofContext.transferWithFee? 650 env l offset accounts
    ensure (feeParameters.transferFeeBasisPoints = context.feeParameters.feeRateBasisPoints ∧
        feeParameters.maximumFee = context.feeParameters.maximumFee)
      (TokenError.feeParametersMismatch : Fault)
    return ⟨some (TransferWithFeeProofContextInfo.ofContext context), accounts, l⟩

end BarkToken
