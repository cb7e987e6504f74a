import BarkToken.Confidential.Fee
import BarkToken.Confidential.Transfer
import BarkToken.Extension.Account
import BarkToken.Extension.Interface
import BarkToken.Extension.Mint
import BarkToken.Processor.Lamports
import BarkToken.TransferFee.Processor

/-!
# Instructions and their dispatch (instruction.rs, processor.rs:1527-1789,
extension/*/processor.rs)

The decoded instructions that can change an account. Where the source has a
pair or a triple of variants with one handler, the optional argument that the
shorter variants lack is the parameter here.
-/

namespace BarkToken
open Fallible

inductive TokenInstruction where
  /-- `InitializeMint` with the rent sysvar, `InitializeMint2` without. -/
  | initializeMint (decimals : UInt8) (mintAuthority : Pubkey) (freezeAuthority : Option Pubkey)
      (rentSysvarAccount : Bool)
  | initializeAccount
  | initializeAccount2 (owner : Pubkey)
  | initializeAccount3 (owner : Pubkey)
  /-- `InitializeMultisig` with the rent sysvar, `InitializeMultisig2` without. -/
  | initializeMultisig (m : UInt8) (rentSysvarAccount : Bool)
  | transfer (amount : UInt64)
  | transferChecked (amount : UInt64) (decimals : UInt8)
  | transferCheckedWithFee (amount : UInt64) (decimals : UInt8) (fee : UInt64)
  /-- `Approve`, or `ApproveChecked` with decimals. -/
  | approve (amount : UInt64) (decimals : Option UInt8)
  | revoke
  | setAuthority (authorityType : AuthorityType) (newAuthority : Option Pubkey)
  /-- `MintTo`, or `MintToChecked` with decimals. -/
  | mintTo (amount : UInt64) (decimals : Option UInt8)
  /-- `Burn`, or `BurnChecked` with decimals. -/
  | burn (amount : UInt64) (decimals : Option UInt8)
  | closeAccount
  /-- `FreezeAccount` and `ThawAccount`. -/
  | toggleFreezeAccount (freeze : Bool)
  | syncNative
  | getAccountDataSize (extensionTypes : List ExtensionType)
  | initializeMintCloseAuthority (closeAuthority : Option Pubkey)
  | initializeImmutableOwner
  | reallocate (extensionTypes : List ExtensionType)
  | createNativeMint
  | initializeNonTransferableMint
  | initializePermanentDelegate (delegate : Pubkey)
  | withdrawExcessLamports
  | initializeTransferFeeConfig (transferFeeConfigAuthority withdrawWithheldAuthority : Option Pubkey)
      (transferFeeBasisPoints : UInt16) (maximumFee : UInt64)
  | setTransferFee (transferFeeBasisPoints : UInt16) (maximumFee : UInt64)
  | withdrawWithheldTokensFromMint
  | withdrawWithheldTokensFromAccounts (numTokenAccounts : UInt8)
  | harvestWithheldTokensToMint
  | initializeDefaultAccountState (state : AccountState)
  | updateDefaultAccountState (state : AccountState)
  | toggleRequiredMemoTransfers (enable : Bool)
  | toggleCpiGuard (enable : Bool)
  | initializeInterestBearingMint (rateAuthority : OptionalNonZeroPubkey) (rate : Int16)
  | updateRate (rate : Int16)
  | initializeTransferHook (authority hookProgram : OptionalNonZeroPubkey)
  | updateTransferHook (hookProgram : OptionalNonZeroPubkey)
  | initializeMetadataPointer (authority metadataAddress : OptionalNonZeroPubkey)
  | updateMetadataPointer (metadataAddress : OptionalNonZeroPubkey)
  | initializeGroupPointer (authority groupAddress : OptionalNonZeroPubkey)
  | updateGroupPointer (groupAddress : OptionalNonZeroPubkey)
  | initializeGroupMemberPointer (authority memberAddress : OptionalNonZeroPubkey)
  | updateGroupMemberPointer (memberAddress : OptionalNonZeroPubkey)
  | initializeMetadata (name symbol uri : String)
  | updateField (field : MetadataField) (value : String)
  | removeKey (idempotent : Bool) (key : String)
  | updateMetadataAuthority (newAuthority : OptionalNonZeroPubkey)
  | initializeGroup (updateAuthority : OptionalNonZeroPubkey) (maxSize : UInt32)
  | updateGroupMaxSize (maxSize : UInt32)
  | updateGroupAuthority (newAuthority : OptionalNonZeroPubkey)
  | initializeMember
  | initializeConfidentialTransferMint (authority : OptionalNonZeroPubkey)
      (autoApproveNewAccounts : Bool) (auditorElgamalPubkey : OptionalNonZeroElGamalPubkey)
  | updateConfidentialTransferMint (autoApproveNewAccounts : Bool)
      (auditorElgamalPubkey : OptionalNonZeroElGamalPubkey)
  | configureAccount (decryptableZeroBalance : AeCiphertext)
      (maximumPendingBalanceCreditCounter : UInt64) (proofInstructionOffset : Int8)
  | approveAccount
  | emptyAccount (proofInstructionOffset : Int8)
  | deposit (amount : UInt64) (decimals : UInt8)
  | withdraw (amount : UInt64) (decimals : UInt8) (newDecryptableAvailableBalance : AeCiphertext)
      (proofInstructionOffset : Int8)
  | confidentialTransfer (newSourceDecryptableAvailableBalance : AeCiphertext)
      (proofInstructionOffset : Int8)
  | confidentialTransferWithSplitProofs (newSourceDecryptableAvailableBalance : AeCiphertext)
      (noOpOnUninitializedSplitContextState closeSplitContextStateOnExecution : Bool)
      (sourceDecryptHandles : SourceDecryptHandles)
  | applyPendingBalance (expectedPendingBalanceCreditCounter : UInt64)
      (newDecryptableAvailableBalance : AeCiphertext)
  /-- `EnableConfidentialCredits` and `DisableConfidentialCredits`. -/
  | allowConfidentialCredits (allow : Bool)
  /-- `EnableNonConfidentialCredits` and `DisableNonConfidentialCredits`. -/
  | allowNonConfidentialCredits (allow : Bool)
  | initializeConfidentialTransferFeeConfig (authority : OptionalNonZeroPubkey)
      (withdrawWithheldAuthorityElgamalPubkey : ElGamalPubkey)
  | confidentialWithdrawFromMint (newDecryptableAvailableBalance : AeCiphertext)
      (proofInstructionOffset : Int8)
  | confidentialWithdrawFromAccounts (numTokenAccounts : UInt8)
      (newDecryptableAvailableBalance : AeCiphertext) (proofInstructionOffset : Int8)
  | confidentialHarvestToMint
  /-- `EnableHarvestToMint` and `DisableHarvestToMint`. -/
  | toggleHarvestToMint (enable : Bool)

/-- The arguments that `Transfer` and `TransferWithSplitProofs` give to
`process_transfer` (`confidential_transfer/processor.rs:1148-1215`). -/
def ConfidentialTransferData.single (newSourceDecryptableAvailableBalance : AeCiphertext)
    (proofInstructionOffset : Int8) : ConfidentialTransferData :=
  ⟨newSourceDecryptableAvailableBalance, proofInstructionOffset.toInt64, ⟨false, false, false⟩,
    default⟩

@[inherit_doc ConfidentialTransferData.single]
def ConfidentialTransferData.split (newSourceDecryptableAvailableBalance : AeCiphertext)
    (noOpOnUninitializedSplitContextState closeSplitContextStateOnExecution : Bool)
    (sourceDecryptHandles : SourceDecryptHandles) : ConfidentialTransferData :=
  ⟨newSourceDecryptableAvailableBalance, 0,
    ⟨true, noOpOnUninitializedSplitContextState, closeSplitContextStateOnExecution⟩,
    sourceDecryptHandles⟩

/-- `Processor::process` (`processor.rs:1528-1789`). -/
def process (x : Externals) (env : Env) (ix : TokenInstruction) (accounts : List AccountInfo)
    (l : Ledger) : Except Fault Ledger :=
  match ix with
  | .initializeMint decimals mintAuthority freezeAuthority rentSysvarAccount =>
    processInitializeMint env decimals mintAuthority freezeAuthority rentSysvarAccount accounts l
  | .initializeAccount => processInitializeAccount env none true accounts l
  | .initializeAccount2 owner => processInitializeAccount env (some owner) true accounts l
  | .initializeAccount3 owner => processInitializeAccount env (some owner) false accounts l
  | .initializeMultisig m rentSysvarAccount =>
    processInitializeMultisig env m rentSysvarAccount accounts l
  | .transfer amount => processTransfer env amount none none accounts l
  | .transferChecked amount decimals => processTransfer env amount (some decimals) none accounts l
  | .transferCheckedWithFee amount decimals fee =>
    processTransfer env amount (some decimals) (some fee) accounts l
  | .approve amount decimals => processApprove env amount decimals accounts l
  | .revoke => processRevoke accounts l
  | .setAuthority authorityType newAuthority =>
    processSetAuthority env authorityType newAuthority accounts l
  | .mintTo amount decimals => processMintTo amount decimals accounts l
  | .burn amount decimals => processBurn env amount decimals accounts l
  | .closeAccount => processCloseAccount env accounts l
  | .toggleFreezeAccount freeze => processToggleFreezeAccount freeze accounts l
  | .syncNative => processSyncNative accounts l
  | .getAccountDataSize extensionTypes => do
    -- the length is the return data; no account changes
    let _ ← processGetAccountDataSize extensionTypes accounts l
    return l
  | .initializeMintCloseAuthority closeAuthority =>
    processInitializeMintCloseAuthority closeAuthority accounts l
  | .initializeImmutableOwner => processInitializeImmutableOwner accounts l
  | .reallocate extensionTypes => processReallocate env extensionTypes accounts l
  | .createNativeMint => processCreateNativeMint env accounts l
  | .initializeNonTransferableMint => processInitializeNonTransferableMint accounts l
  | .initializePermanentDelegate delegate => processInitializePermanentDelegate delegate accounts l
  | .withdrawExcessLamports => processWithdrawExcessLamports env accounts l
  | .initializeTransferFeeConfig configAuthority withheldAuthority basisPoints maximumFee =>
    processInitializeTransferFeeConfig env configAuthority withheldAuthority basisPoints maximumFee
      accounts l
  | .setTransferFee basisPoints maximumFee =>
    processSetTransferFee env basisPoints maximumFee accounts l
  | .withdrawWithheldTokensFromMint => processWithdrawWithheldTokensFromMint accounts l
  | .withdrawWithheldTokensFromAccounts numTokenAccounts =>
    processWithdrawWithheldTokensFromAccounts numTokenAccounts accounts l
  | .harvestWithheldTokensToMint => processHarvestWithheldTokensToMint accounts l
  | .initializeDefaultAccountState state => processInitializeDefaultAccountState state accounts l
  | .updateDefaultAccountState state => processUpdateDefaultAccountState state accounts l
  | .toggleRequiredMemoTransfers enable => processToggleRequiredMemoTransfers enable accounts l
  | .toggleCpiGuard enable => processToggleCpiGuard env enable accounts l
  | .initializeInterestBearingMint rateAuthority rate =>
    processInitializeInterestBearingMint env rateAuthority rate accounts l
  | .updateRate rate => processUpdateRate env rate accounts l
  | .initializeTransferHook authority hookProgram =>
    processInitializeTransferHook authority hookProgram accounts l
  | .updateTransferHook hookProgram => processUpdateTransferHook hookProgram accounts l
  | .initializeMetadataPointer authority metadataAddress =>
    processInitializeMetadataPointer authority metadataAddress accounts l
  | .updateMetadataPointer metadataAddress => processUpdateMetadataPointer metadataAddress accounts l
  | .initializeGroupPointer authority groupAddress =>
    processInitializeGroupPointer authority groupAddress accounts l
  | .updateGroupPointer groupAddress => processUpdateGroupPointer groupAddress accounts l
  | .initializeGroupMemberPointer authority memberAddress =>
    processInitializeGroupMemberPointer authority memberAddress accounts l
  | .updateGroupMemberPointer memberAddress =>
    processUpdateGroupMemberPointer memberAddress accounts l
  | .initializeMetadata name symbol uri => processInitializeMetadata name symbol uri accounts l
  | .updateField field value => processUpdateField x field value accounts l
  | .removeKey idempotent key => processRemoveKey x idempotent key accounts l
  | .updateMetadataAuthority newAuthority => processUpdateMetadataAuthority newAuthority accounts l
  | .initializeGroup updateAuthority maxSize =>
    processInitializeGroup updateAuthority maxSize accounts l
  | .updateGroupMaxSize maxSize => processUpdateGroupMaxSize x maxSize accounts l
  | .updateGroupAuthority newAuthority => processUpdateGroupAuthority newAuthority accounts l
  | .initializeMember => processInitializeMember x accounts l
  | .initializeConfidentialTransferMint authority autoApprove auditor =>
    processInitializeConfidentialTransferMint authority autoApprove auditor accounts l
  | .updateConfidentialTransferMint autoApprove auditor =>
    processUpdateConfidentialTransferMint autoApprove auditor accounts l
  | .configureAccount decryptableZeroBalance maximumCounter offset =>
    processConfigureAccount env decryptableZeroBalance maximumCounter offset.toInt64 accounts l
  | .approveAccount => processApproveAccount accounts l
  | .emptyAccount offset => processEmptyAccount env offset.toInt64 accounts l
  | .deposit amount decimals => processDeposit x.zk amount decimals accounts l
  | .withdraw amount decimals newBalance offset =>
    processWithdraw x.zk env amount decimals newBalance offset.toInt64 accounts l
  | .confidentialTransfer newBalance offset =>
    processConfidentialTransfer x.zk env (.single newBalance offset) accounts l
  | .confidentialTransferWithSplitProofs newBalance noOp close handles =>
    processConfidentialTransfer x.zk env (.split newBalance noOp close handles) accounts l
  | .applyPendingBalance expectedCounter newBalance =>
    processApplyPendingBalance x.zk expectedCounter newBalance accounts l
  | .allowConfidentialCredits allow => processAllowConfidentialCredits allow accounts l
  | .allowNonConfidentialCredits allow => processAllowNonConfidentialCredits allow accounts l
  | .initializeConfidentialTransferFeeConfig authority elgamalPubkey =>
    processInitializeConfidentialTransferFeeConfig authority elgamalPubkey accounts l
  | .confidentialWithdrawFromMint newBalance offset =>
    processConfidentialWithdrawFromMint x.zk env newBalance offset.toInt64 accounts l
  | .confidentialWithdrawFromAccounts numTokenAccounts newBalance offset =>
    processConfidentialWithdrawFromAccounts x.zk env numTokenAccounts newBalance offset.toInt64
      accounts l
  | .confidentialHarvestToMint => processConfidentialHarvestToMint x.zk accounts l
  | .toggleHarvestToMint enable => processToggleHarvestToMint enable accounts l

/-- The runtime keeps what a successful instruction leaves and rolls back a
failed one. -/
def execute (x : Externals) (env : Env) (ix : TokenInstruction) (accounts : List AccountInfo)
    (l : Ledger) : Ledger :=
  match process x env ix accounts l with
  | .ok l' => l'
  | .error _ => l

/-! ### Who authorises an instruction -/

/-- The account at `k` is a mint with a transfer fee. -/
def isFeeMint (l : Ledger) (k : Pubkey) : Bool :=
  match (l k).data.unpackMint with
  | .ok mint => decide (mint.hasExtension .transferFeeConfig)
  | .error _ => false

/-- How many accounts precede the authority of a confidential transfer: source,
mint and destination, the proof's, and those for closing the contexts. -/
def ConfidentialTransferData.authorityIndex (data : ConfidentialTransferData) (l : Ledger)
    (mintKey : Pubkey) : ℕ :=
  if data.proofInstructionOffset = 0 ∧ data.flags.splitProofContextStateAccounts = true then
    3 + (if isFeeMint l mintKey then 5 else 3) +
      if data.flags.closeSplitContextStateOnExecution then 3 else 0
  else 4

namespace TokenInstruction

/-- The position of the authority in the account list (`instruction.rs`, the
accounts of each instruction), for the instructions that move, delegate, close
or reconfigure what a token account holds. -/
def authorityIndex (ix : TokenInstruction) (l : Ledger) (accounts : List AccountInfo) : Option ℕ :=
  match ix with
  | transfer _ => some 2
  | transferChecked _ _ => some 3
  | transferCheckedWithFee _ _ _ => some 3
  | approve _ decimals => some (if decimals.isSome then 3 else 2)
  | revoke => some 1
  | setAuthority _ _ => some 1
  | mintTo _ _ => some 2
  | burn _ _ => some 2
  | closeAccount => some 2
  | toggleFreezeAccount _ => some 2
  | reallocate _ => some 3
  | withdrawExcessLamports => some 2
  | toggleRequiredMemoTransfers _ => some 1
  | toggleCpiGuard _ => some 1
  | setTransferFee _ _ => some 1
  | withdrawWithheldTokensFromMint => some 2
  | withdrawWithheldTokensFromAccounts _ => some 2
  | configureAccount _ _ _ => some 3
  | emptyAccount _ => some 2
  | deposit _ _ => some 2
  | withdraw _ _ _ _ => some 3
  | confidentialTransfer newBalance offset =>
    accounts[1]?.map fun mint =>
      (ConfidentialTransferData.single newBalance offset).authorityIndex l mint.key
  | confidentialTransferWithSplitProofs newBalance noOp close handles =>
    accounts[1]?.map fun mint =>
      (ConfidentialTransferData.split newBalance noOp close handles).authorityIndex l mint.key
  | applyPendingBalance _ _ => some 1
  | allowConfidentialCredits _ => some 1
  | allowNonConfidentialCredits _ => some 1
  | confidentialWithdrawFromMint _ _ => some 3
  | confidentialWithdrawFromAccounts _ _ _ => some 3
  | _ => none

/-- The trailing accounts that are not signers. -/
def numTokenAccounts : TokenInstruction → ℕ
  | withdrawWithheldTokensFromAccounts n => n.toNat
  | confidentialWithdrawFromAccounts n _ _ => n.toNat
  | _ => 0

/-- The authority of an instruction, and the signers it brings if it is a
multisig. -/
def authority (ix : TokenInstruction) (l : Ledger) (accounts : List AccountInfo) :
    Option (AccountInfo × List AccountInfo) := do
  let i ← ix.authorityIndex l accounts
  let info ← accounts[i]?
  let rest := accounts.drop (i + 1)
  return (info, rest.take (rest.length - ix.numTokenAccounts))

theorem authority_eq {ix : TokenInstruction} {l : Ledger} {accounts rest : List AccountInfo}
    {i : ℕ} {info : AccountInfo} (hindex : ix.authorityIndex l accounts = some i)
    (hdrop : accounts.drop i = info :: rest) :
    ix.authority l accounts = some (info, rest.take (rest.length - ix.numTokenAccounts)) := by
  have hget : accounts[i]? = some info := by
    rw [← List.head?_drop, hdrop]
    rfl
  have hrest : accounts.drop (i + 1) = rest := by
    rw [← List.tail_drop, hdrop]
    rfl
  simp only [authority, hindex, hget, hrest, Option.bind_eq_bind, Option.bind_some]
  rfl

/-- The same for an instruction that lists no token accounts after its signers. -/
theorem authority_eq_rest {ix : TokenInstruction} {l : Ledger} {accounts rest : List AccountInfo}
    {i : ℕ} {info : AccountInfo} (hindex : ix.authorityIndex l accounts = some i)
    (hdrop : accounts.drop i = info :: rest) (hnum : ix.numTokenAccounts = 0) :
    ix.authority l accounts = some (info, rest) := by
  rw [authority_eq hindex hdrop, hnum, Nat.sub_zero, List.take_length]

/-- In this instruction `validate_owner` succeeds for `key`. -/
def AuthorisedBy (ix : TokenInstruction) (l : Ledger) (accounts : List AccountInfo)
    (key : Pubkey) : Prop :=
  ∃ info signers, ix.authority l accounts = some (info, signers) ∧
    validateOwner l key info signers = .ok ()

/-- The instruction names `key` as its authority. -/
def NamesAuthority (ix : TokenInstruction) (l : Ledger) (accounts : List AccountInfo)
    (key : Pubkey) : Prop :=
  ∃ info signers, ix.authority l accounts = some (info, signers) ∧ info.key = key

theorem AuthorisedBy.names {ix : TokenInstruction} {l : Ledger} {accounts : List AccountInfo}
    {key : Pubkey} (h : ix.AuthorisedBy l accounts key) : ix.NamesAuthority l accounts key := by
  obtain ⟨info, signers, hauth, hv⟩ := h
  exact ⟨info, signers, hauth, (validateOwner_key hv).symm⟩

/-- An instruction has one authority. -/
theorem NamesAuthority.unique {ix : TokenInstruction} {l : Ledger} {accounts : List AccountInfo}
    {key key' : Pubkey} (h : ix.NamesAuthority l accounts key)
    (h' : ix.NamesAuthority l accounts key') : key = key' := by
  obtain ⟨info, signers, hauth, rfl⟩ := h
  obtain ⟨info', signers', hauth', rfl⟩ := h'
  have := Option.some.inj (hauth.symm.trans hauth')
  rw [(Prod.mk.inj this).1]

end TokenInstruction

end BarkToken
