import BarkToken.Step.ConfidentialFee
import BarkToken.Step.ConfidentialTransfer
import BarkToken.Step.Fee
import BarkToken.Step.Initialize
import BarkToken.Step.Interface

/-!
# What a successful instruction has done

Every instruction either moves no tokens, moves them within one account, or is
one of the handlers that move them between accounts. Its records change
accordingly.
-/

namespace BarkToken
open Fallible

namespace TokenInstruction

/-- The instructions of the confidential extensions on token accounts. -/
def isConfidential : TokenInstruction → Bool
  | configureAccount _ _ _ | approveAccount | emptyAccount _ | deposit _ _ | withdraw _ _ _ _
  | confidentialTransfer _ _ | confidentialTransferWithSplitProofs _ _ _ _
  | applyPendingBalance _ _ | allowConfidentialCredits _ | allowNonConfidentialCredits _
  | confidentialWithdrawFromMint _ _ | confidentialWithdrawFromAccounts _ _ _
  | confidentialHarvestToMint => true
  | _ => false

/-- `process_transfer` of the processor itself, in its three variants. -/
def isTransfer : TokenInstruction → Bool
  | transfer _ | transferChecked _ _ | transferCheckedWithFee _ _ _ => true
  | _ => false

end TokenInstruction

/-- A successful instruction, by what it may have moved. -/
inductive Outcome (c : Call) (l' : Ledger) : Prop
  | neutral (h : ∀ k, NeutralStep c k (c.ledger k) (l' k))
  | confidential (hix : c.ix.isConfidential = true) (h : ∀ k, LocalStep c k (c.ledger k) (l' k))
  | transfer {amount decimals fee} (hix : c.ix.isTransfer = true)
      (hindex : c.ix.authorityIndex c.ledger c.accounts = some (if decimals.isSome then 3 else 2))
      (h : processTransfer c.env amount decimals fee c.accounts c.ledger = .ok l')
  | mintTo {amount decimals} (hix : c.ix = .mintTo amount decimals)
      (h : processMintTo amount decimals c.accounts c.ledger = .ok l')
  | burn {amount decimals} (hix : c.ix = .burn amount decimals)
      (h : processBurn c.env amount decimals c.accounts c.ledger = .ok l')
  | close (hix : c.ix = .closeAccount) (h : processCloseAccount c.env c.accounts c.ledger = .ok l')
  | withdrawFromMint (hix : c.ix = .withdrawWithheldTokensFromMint)
      (h : processWithdrawWithheldTokensFromMint c.accounts c.ledger = .ok l')
  | withdrawFromAccounts {n} (hix : c.ix = .withdrawWithheldTokensFromAccounts n)
      (h : processWithdrawWithheldTokensFromAccounts n c.accounts c.ledger = .ok l')
  | harvest (hix : c.ix = .harvestWithheldTokensToMint)
      (h : processHarvestWithheldTokensToMint c.accounts c.ledger = .ok l')
  | confidentialTransfer {data} (hix : IsConfidentialTransfer c.ix data)
      (h : processConfidentialTransfer c.x.zk c.env data c.accounts c.ledger = .ok l')
  | confidentialWithdrawFromMint {balance offset}
      (hix : c.ix = .confidentialWithdrawFromMint balance offset)
      (h : processConfidentialWithdrawFromMint c.x.zk c.env balance offset.toInt64 c.accounts
        c.ledger = .ok l')
  | confidentialWithdrawFromAccounts {n balance offset}
      (hix : c.ix = .confidentialWithdrawFromAccounts n balance offset)
      (h : processConfidentialWithdrawFromAccounts c.x.zk c.env n balance offset.toInt64 c.accounts
        c.ledger = .ok l')
  | confidentialHarvest (hix : c.ix = .confidentialHarvestToMint)
      (h : processConfidentialHarvestToMint c.x.zk c.accounts c.ledger = .ok l')

theorem Outcome.of_process {c : Call} {l' : Ledger} (hcoherent : Coherent c.ledger)
    (h : c.process = .ok l') : Outcome c l' := by
  obtain ⟨x, env, ix, accounts, l⟩ := c
  have hfixed := hcoherent.fixed
  dsimp only at hcoherent hfixed
  unfold Call.process process at h
  cases ix with
  | initializeMint => exact .neutral (processInitializeMint_step h)
  | initializeAccount => exact .neutral (processInitializeAccount_step rfl h)
  | initializeAccount2 => exact .neutral (processInitializeAccount_step rfl h)
  | initializeAccount3 => exact .neutral (processInitializeAccount_step rfl h)
  | initializeMultisig => exact .neutral (processInitializeMultisig_step h)
  | transfer => exact .transfer rfl rfl h
  | transferChecked => exact .transfer rfl rfl h
  | transferCheckedWithFee => exact .transfer rfl rfl h
  | approve => exact .neutral (processApprove_step h)
  | revoke => exact .neutral (processRevoke_step h)
  | setAuthority => exact .neutral (processSetAuthority_step hfixed h)
  | mintTo => exact .mintTo rfl h
  | burn => exact .burn rfl h
  | closeAccount => exact .close rfl h
  | toggleFreezeAccount => exact .neutral (processToggleFreezeAccount_step h)
  | syncNative => exact .neutral (processSyncNative_step h)
  | getAccountDataSize =>
    simp only [bind_eq_ok, pure_eq_ok] at h
    obtain ⟨n, -, rfl⟩ := h
    exact .neutral fun k => .refl _ k _
  | initializeMintCloseAuthority =>
    exact .neutral (initMintExtension_step (t := .mintCloseAuthority) rfl (fun _ _ => trivial) (by simp)
      (by simp) h)
  | initializeImmutableOwner => exact .neutral (processInitializeImmutableOwner_step h)
  | reallocate => exact .neutral (processReallocate_step h)
  | createNativeMint => exact .neutral (processCreateNativeMint_step h)
  | initializeNonTransferableMint =>
    exact .neutral (initMintExtension_step (t := .nonTransferable) rfl (fun _ _ => trivial) (by simp)
      (by simp) h)
  | initializePermanentDelegate =>
    exact .neutral (initMintExtension_step (t := .permanentDelegate) rfl (fun _ _ => trivial) (by simp)
      (by simp) h)
  | withdrawExcessLamports => exact .neutral (processWithdrawExcessLamports_step h)
  | initializeTransferFeeConfig => exact .neutral (processInitializeTransferFeeConfig_step rfl h)
  | setTransferFee => exact .neutral (processSetTransferFee_step hfixed h)
  | withdrawWithheldTokensFromMint => exact .withdrawFromMint rfl h
  | withdrawWithheldTokensFromAccounts => exact .withdrawFromAccounts rfl h
  | harvestWithheldTokensToMint => exact .harvest rfl h
  | initializeDefaultAccountState => exact .neutral (processInitializeDefaultAccountState_step h)
  | updateDefaultAccountState => exact .neutral (processUpdateDefaultAccountState_step hfixed h)
  | toggleRequiredMemoTransfers => exact .neutral (processToggleRequiredMemoTransfers_step h)
  | toggleCpiGuard => exact .neutral (processToggleCpiGuard_step h)
  | initializeInterestBearingMint =>
    exact .neutral (initMintExtension_step (t := .interestBearingConfig) rfl (fun _ _ => trivial) (by simp)
      (fun _ => rfl) h)
  | updateRate => exact .neutral (processUpdateRate_step hfixed rfl h)
  | initializeTransferHook =>
    exact .neutral (initMintExtension_step (t := .transferHook) rfl (fun _ _ => trivial) (by simp)
      (by simp) h)
  | updateTransferHook => exact .neutral (processUpdateTransferHook_step hfixed h)
  | initializeMetadataPointer =>
    exact .neutral (initMintExtension_step (t := .metadataPointer) rfl (fun _ _ => trivial) (by simp)
      (by simp) h)
  | updateMetadataPointer => exact .neutral (processUpdateMetadataPointer_step hfixed h)
  | initializeGroupPointer => exact .neutral (processInitializeGroupPointer_step h)
  | updateGroupPointer => exact .neutral (processUpdateGroupPointer_step hfixed h)
  | initializeGroupMemberPointer => exact .neutral (processInitializeGroupMemberPointer_step h)
  | updateGroupMemberPointer => exact .neutral (processUpdateGroupMemberPointer_step hfixed h)
  | initializeMetadata => exact .neutral (processInitializeMetadata_step hfixed h)
  | updateField => exact .neutral (updateTokenMetadata_step hfixed h)
  | removeKey => exact .neutral (updateTokenMetadata_step hfixed h)
  | updateMetadataAuthority => exact .neutral (updateTokenMetadata_step hfixed h)
  | initializeGroup => exact .neutral (processInitializeGroup_step hfixed rfl h)
  | updateGroupMaxSize => exact .neutral (updateTokenGroup_step hfixed rfl h)
  | updateGroupAuthority => exact .neutral (updateTokenGroup_step hfixed rfl h)
  | initializeMember => exact .neutral (processInitializeMember_step hfixed h)
  | initializeConfidentialTransferMint =>
    exact .neutral (processInitializeConfidentialTransferMint_step h)
  | updateConfidentialTransferMint =>
    exact .neutral (processUpdateConfidentialTransferMint_step hfixed h)
  | configureAccount => exact .confidential rfl (processConfigureAccount_step h)
  | approveAccount => exact .confidential rfl (processApproveAccount_step h)
  | emptyAccount => exact .confidential rfl (processEmptyAccount_step h)
  | deposit => exact .confidential rfl (processDeposit_step h)
  | withdraw => exact .confidential rfl (processWithdraw_step h)
  | confidentialTransfer => exact .confidentialTransfer .single h
  | confidentialTransferWithSplitProofs => exact .confidentialTransfer .split h
  | applyPendingBalance => exact .confidential rfl (processApplyPendingBalance_step h)
  | allowConfidentialCredits => exact .confidential rfl (processAllowConfidentialCredits_step h)
  | allowNonConfidentialCredits =>
    exact .confidential rfl (processAllowNonConfidentialCredits_step h)
  | initializeConfidentialTransferFeeConfig =>
    exact .neutral (processInitializeConfidentialTransferFeeConfig_step h)
  | confidentialWithdrawFromMint => exact .confidentialWithdrawFromMint rfl h
  | confidentialWithdrawFromAccounts => exact .confidentialWithdrawFromAccounts rfl h
  | confidentialHarvestToMint => exact .confidentialHarvest rfl h
  | toggleHarvestToMint => exact .neutral (processToggleHarvestToMint_step hfixed h)

theorem TokenInstruction.isTransferOrBurn_of_isTransfer {ix : TokenInstruction}
    (h : ix.isTransfer = true) : ix.isTransferOrBurn = true ∧ ix.numTokenAccounts = 0 := by
  cases ix with
  | transfer => exact ⟨rfl, rfl⟩
  | transferChecked => exact ⟨rfl, rfl⟩
  | transferCheckedWithFee => exact ⟨rfl, rfl⟩
  | _ => simp [isTransfer] at h

/-- Every record changes in one of the listed ways. -/
theorem Outcome.recordStep {c : Call} {l' : Ledger} (hcoherent : Coherent c.ledger)
    (h : Outcome c l') (k : Pubkey) : RecordStep c k (c.ledger k) (l' k) := by
  obtain ⟨x, env, ix, accounts, l⟩ := c
  cases h with
  | neutral h => exact .locally (.neutral (h k))
  | confidential _ h => exact .locally (h k)
  | transfer hix hindex h =>
    obtain ⟨hkind, hnum⟩ := TokenInstruction.isTransferOrBurn_of_isTransfer hix
    exact processTransfer_step hcoherent hindex hnum hkind h k
  | mintTo hix h =>
    obtain rfl := hix
    exact processMintTo_step hcoherent h k
  | burn hix h =>
    obtain rfl := hix
    exact processBurn_step hcoherent h k
  | close hix h =>
    obtain rfl := hix
    exact processCloseAccount_step h k
  | withdrawFromMint _ h => exact processWithdrawWithheldTokensFromMint_step hcoherent h k
  | withdrawFromAccounts _ h => exact processWithdrawWithheldTokensFromAccounts_step hcoherent h k
  | harvest _ h => exact processHarvestWithheldTokensToMint_step hcoherent h k
  | confidentialTransfer hix h =>
    exact processConfidentialTransfer_step hix h k
  | confidentialWithdrawFromMint _ h =>
    exact processConfidentialWithdrawFromMint_step hcoherent.fixed h k
  | confidentialWithdrawFromAccounts _ h =>
    exact processConfidentialWithdrawFromAccounts_step h k
  | confidentialHarvest _ h => exact processConfidentialHarvestToMint_step hcoherent.fixed h k

end BarkToken
