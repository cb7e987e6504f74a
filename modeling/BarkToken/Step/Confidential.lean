import BarkToken.Step.Write

/-!
# Confidential accounts, step by step (Confidential/Account)
-/

namespace BarkToken
open Fallible CheckedWord AccountData

variable {x : Externals} {env : Env} {ix : TokenInstruction} {accounts : List AccountInfo}
  {l l' : Ledger}

/-! ### Contexts -/

section Contexts

variable {α : Type} {select : ProofContext → Option α} {contextLen : ℕ} {a : α}

theorem readProofContext_eq_ok {k : Pubkey}
    (h : readProofContext select contextLen l k = .ok a) :
    ∃ len p, (l k).owner = zkTokenProofProgram ∧ (l k).data = .proofContext len p ∧
      select p = some a := by
  simp only [readProofContext, checkZkTokenProofProgramAccount, bind_eq_ok, exists_unit,
    ensure_eq_ok] at h
  obtain ⟨howner, -, h⟩ := h
  split at h
  case h_1 len p hdata => exact ⟨len, p, howner, hdata, okOr_eq_ok.mp h⟩
  case h_2 => simp at h

/-- A context read by an instruction is one that it provides. -/
theorem Call.provides_of_read {make : α → ProofContext} {k : Pubkey}
    (hmake : ∀ {p}, select p = some a → p = make a)
    (h : readProofContext select contextLen l k = .ok a) :
    (Call.mk x env ix accounts l).Provides (make a) := by
  obtain ⟨len, p, howner, hdata, hselect⟩ := readProofContext_eq_ok h
  exact Or.inl ⟨k, len, howner, hmake hselect ▸ hdata⟩

theorem Call.provides_of_context {make : α → ProofContext} {offset : Int64} {k : Pubkey}
    (hmake : ∀ {p}, select p = some a → p = make a)
    (h : proofContextAt select contextLen env l offset k = .ok a) :
    (Call.mk x env ix accounts l).Provides (make a) := by
  unfold proofContextAt at h
  split at h
  case isTrue => exact Call.provides_of_read hmake h
  case isFalse =>
    simp only [siblingProofContext, bind_eq_ok, exists_unit, ensure_eq_ok, okOr_eq_ok] at h
    obtain ⟨-, p, hp, hselect⟩ := h
    exact Or.inr ⟨offset, hmake hselect ▸ hp⟩

/-- `verify_*_proof` takes one account, which leads to the context. -/
theorem verifyProof_eq_ok {offset : Int64} {rest infos : List AccountInfo}
    (h : verifyProof select contextLen env l offset infos = .ok (a, rest)) :
    ∃ info, infos = info :: rest ∧
      proofContextAt select contextLen env l offset info.key = .ok a := by
  simp only [verifyProof, bind_eq_ok, Prod.exists, nextAccountInfo_eq_ok, pure_eq_ok,
    Prod.mk.injEq] at h
  obtain ⟨info, rest', rfl, context, hcontext, rfl, rfl⟩ := h
  exact ⟨info, rfl, hcontext⟩

end Contexts

namespace ProofContext

variable {p : ProofContext}

theorem zeroBalance?_eq_some {a} (h : p.zeroBalance? = some a) : p = .zeroBalance a := by
  cases p <;> simp_all [zeroBalance?]

theorem withdraw?_eq_some {a} (h : p.withdraw? = some a) : p = .withdraw a := by
  cases p <;> simp_all [withdraw?]

theorem transfer?_eq_some {a} (h : p.transfer? = some a) : p = .transfer a := by
  cases p <;> simp_all [transfer?]

theorem transferWithFee?_eq_some {a} (h : p.transferWithFee? = some a) :
    p = .transferWithFee a := by
  cases p <;> simp_all [transferWithFee?]

theorem ciphertextCommitmentEquality?_eq_some {a} (h : p.ciphertextCommitmentEquality? = some a) :
    p = .ciphertextCommitmentEquality a := by
  cases p <;> simp_all [ciphertextCommitmentEquality?]

theorem ciphertextCiphertextEquality?_eq_some {a} (h : p.ciphertextCiphertextEquality? = some a) :
    p = .ciphertextCiphertextEquality a := by
  cases p <;> simp_all [ciphertextCiphertextEquality?]

theorem batchedGroupedCiphertext2HandlesValidity?_eq_some {a}
    (h : p.batchedGroupedCiphertext2HandlesValidity? = some a) :
    p = .batchedGroupedCiphertext2HandlesValidity a := by
  cases p <;> simp_all [batchedGroupedCiphertext2HandlesValidity?]

theorem batchedRangeProofU128?_eq_some {a} (h : p.batchedRangeProofU128? = some a) :
    p = .batchedRangeProofU128 a := by
  cases p <;> simp_all [batchedRangeProofU128?]

theorem batchedRangeProofU256?_eq_some {a} (h : p.batchedRangeProofU256? = some a) :
    p = .batchedRangeProofU256 a := by
  cases p <;> simp_all [batchedRangeProofU256?]

theorem feeSigma?_eq_some {a} (h : p.feeSigma? = some a) : p = .feeSigma a := by
  cases p <;> simp_all [feeSigma?]

end ProofContext

/-! ### Writing one account's extension -/

/-- An update of the confidential extension written to an unpacked account. -/
theorem localStep_of_update {c : Call} {k : Pubkey} {s : PodStateWithExtensions PodAccount}
    {e e' : ConfidentialTransferAccount} {newAmount : UInt64}
    (hdata : (l k).data.unpackAccount = .ok s)
    (hget : s.tlv.get .confidentialTransferAccount = some e)
    (h : ConfidentialUpdate c s.base e e' newAmount)
    (hwrite : l.writeData k (.account { s.setExtension .confidentialTransferAccount e' with
      base := { s.base with amount := newAmount } }) = .ok l') (j : Pubkey) :
    LocalStep c j (l j) (l' j) :=
  forall_of_writeData (LocalStep.refl c) hwrite
    (fun howner => .confidential howner howner (unpackAccount_eq_ok.mp hdata).1 rfl
      (UInt64.le_refl _) (.update hget h rfl)) j

theorem updateConfidentialTransferAccount_step {c : Call}
    {update : ConfidentialTransferAccount → Except Fault ConfidentialTransferAccount}
    {tokenAccountInfo authorityInfo : AccountInfo} {signers : List AccountInfo}
    (hupdate : ∀ (s : PodStateWithExtensions PodAccount) (e e' : ConfidentialTransferAccount),
      validateOwner l s.base.owner authorityInfo signers = .ok () → update e = .ok e' →
      ConfidentialUpdate c s.base e e' s.base.amount)
    (h : updateConfidentialTransferAccount update tokenAccountInfo authorityInfo signers l = .ok l')
    (k : Pubkey) : LocalStep c k (l k) (l' k) := by
  simp only [updateConfidentialTransferAccount, bind_eq_ok, exists_unit] at h
  obtain ⟨-, s, hs, howner, e, he, e', he', hwrite⟩ := h
  exact localStep_of_update hs (PodStateWithExtensions.getExtension_eq_ok.mp he)
    (hupdate s e e' howner he') hwrite k

/-! ### The instructions -/

theorem processConfigureAccount_step {balance : AeCiphertext} {maximumCounter : UInt64}
    {offset : Int8}
    (h : processConfigureAccount env balance maximumCounter offset.toInt64 accounts l = .ok l')
    (k : Pubkey) :
    LocalStep ⟨x, env, .configureAccount balance maximumCounter offset, accounts, l⟩ k (l k)
      (l' k) := by
  simp only [processConfigureAccount, bind_eq_ok, Prod.exists, exists_unit, nextAccountInfo_eq_ok,
    ensure_eq_ok] at h
  obtain ⟨tokenAccountInfo, rest, rfl, mintInfo, rest', rfl, context, rest'', hcontext,
    authorityInfo, signers, rfl, -, s, hs, hkey, howner, hprogram, -, mint, hmint, mintExtension,
    hextension, s₁, hinit, s₂, hfee, hwrite⟩ := h
  obtain ⟨proofInfo, rfl, -⟩ := verifyProof_eq_ok hcontext
  have hmint : (Call.mk x env (.configureAccount balance maximumCounter offset)
      (tokenAccountInfo :: mintInfo :: proofInfo :: authorityInfo :: signers)
      l).FindsConfidentialMint s.base.mint mintExtension := by
    rw [hkey]
    exact ⟨checkProgramAccount_eq_ok.mp hprogram, mint, hmint,
      PodStateWithExtensions.getExtension_eq_ok.mp hextension⟩
  obtain ⟨rfl, hnone⟩ := PodStateWithExtensions.initExtension_eq_ok hinit
  refine forall_of_writeData (LocalStep.refl _) hwrite (fun howned => ?_) k
  have hauth : (Call.mk x env (.configureAccount balance maximumCounter offset)
      (tokenAccountInfo :: mintInfo :: proofInfo :: authorityInfo :: signers) l).AuthorisedBy
      s.base.owner := Call.authorisedBy rfl rfl rfl howner
  refine .confidential howned howned (unpackAccount_eq_ok.mp hs).1 rfl (UInt64.le_refl _) ?_
  unfold initConfidentialTransferFeeAmount at hfee
  split at hfee
  case isTrue =>
    obtain ⟨rfl, hnoFee⟩ := PodStateWithExtensions.initExtension_eq_ok hfee
    have hnoFee := hnoFee rfl
    rw [PodStateWithExtensions.setExtension_tlv, TypedStore.get_put_of_ne _ _ (by decide)] at hnoFee
    refine .configure hauth (hnone rfl) rfl rfl
      ((TypedStore.get_put_of_ne _ _ (by decide)).trans (TypedStore.get_put_self _ _ _))
      (fun happroved => ⟨mintExtension, hmint, happroved⟩) ⟨rfl, rfl, rfl⟩ ⟨rfl, rfl, rfl⟩ (Or.inr ⟨hnoFee, ?_⟩) ?_
      ⟨balance, maximumCounter, offset, rfl⟩
    · rw [PodStateWithExtensions.setExtension_tlv, TypedStore.get_put_self]
    · exact (Tlv.ChangesOnly.put (t := .confidentialTransferAccount) _ _ (by simp)).trans
        (Tlv.ChangesOnly.put (t := .confidentialTransferFeeAmount) _ _ (by simp))
  case isFalse =>
    obtain rfl := Except.ok.inj hfee
    refine .configure hauth (hnone rfl) rfl rfl (TypedStore.get_put_self _ _ _)
      (fun happroved => ⟨mintExtension, hmint, happroved⟩) ⟨rfl, rfl, rfl⟩ ⟨rfl, rfl, rfl⟩
      (Or.inl ?_) ?_ ⟨balance, maximumCounter, offset, rfl⟩
    · rw [PodStateWithExtensions.setExtension_tlv, TypedStore.get_put_of_ne _ _ (by decide)]
    · exact Tlv.ChangesOnly.put (t := .confidentialTransferAccount) _ _ (by simp)

theorem processApproveAccount_step (h : processApproveAccount accounts l = .ok l') (k : Pubkey) :
    LocalStep ⟨x, env, .approveAccount, accounts, l⟩ k (l k) (l' k) := by
  simp only [processApproveAccount, bind_eq_ok, Prod.exists, exists_unit, nextAccountInfo_eq_ok,
    ensure_eq_ok, okOr_eq_ok] at h
  obtain ⟨tokenAccountInfo, rest, rfl, mintInfo, rest', rfl, authorityInfo, signers, rfl, -, s, hs,
    hkey, hprogram, -, mint, hmint, mintExtension, hextension, authority, hauthority, ⟨hsigner, rfl⟩,
    e, he, hwrite⟩ := h
  refine localStep_of_update hs (PodStateWithExtensions.getExtension_eq_ok.mp he)
    (.approved (v := mintExtension) ⟨?_, mint, ?_, PodStateWithExtensions.getExtension_eq_ok.mp
      hextension⟩ hauthority ⟨authorityInfo, by simp, rfl, hsigner⟩ rfl) hwrite k
  · rw [← hkey]
    exact checkProgramAccount_eq_ok.mp hprogram
  · rw [← hkey]
    exact hmint

theorem processEmptyAccount_step {offset : Int8}
    (h : processEmptyAccount env offset.toInt64 accounts l = .ok l') (k : Pubkey) :
    LocalStep ⟨x, env, .emptyAccount offset, accounts, l⟩ k (l k) (l' k) := by
  simp only [processEmptyAccount, bind_eq_ok, Prod.exists, nextAccountInfo_eq_ok] at h
  obtain ⟨tokenAccountInfo, rest, rfl, context, rest', hcontext, authorityInfo, signers, rfl, h⟩ := h
  obtain ⟨proofInfo, rfl, hread⟩ := verifyProof_eq_ok hcontext
  exact updateConfidentialTransferAccount_step (fun s e e' howner he' =>
    .emptied (Call.provides_of_context ProofContext.zeroBalance?_eq_some hread)
      (Call.authorisedBy rfl rfl rfl howner) he') h k

theorem processApplyPendingBalance_step {counter : UInt64} {balance : AeCiphertext}
    (h : processApplyPendingBalance x.zk counter balance accounts l = .ok l') (k : Pubkey) :
    LocalStep ⟨x, env, .applyPendingBalance counter balance, accounts, l⟩ k (l k) (l' k) := by
  simp only [processApplyPendingBalance, bind_eq_ok, Prod.exists, nextAccountInfo_eq_ok] at h
  obtain ⟨tokenAccountInfo, rest, rfl, authorityInfo, signers, rfl, h⟩ := h
  exact updateConfidentialTransferAccount_step (fun s e e' howner he' =>
    .applied rfl (Call.authorisedBy rfl rfl rfl howner) he') h k

theorem processAllowConfidentialCredits_step {allow : Bool}
    (h : processAllowConfidentialCredits allow accounts l = .ok l') (k : Pubkey) :
    LocalStep ⟨x, env, .allowConfidentialCredits allow, accounts, l⟩ k (l k) (l' k) := by
  simp only [processAllowConfidentialCredits, bind_eq_ok, Prod.exists, nextAccountInfo_eq_ok] at h
  obtain ⟨tokenAccountInfo, rest, rfl, authorityInfo, signers, rfl, h⟩ := h
  refine updateConfidentialTransferAccount_step (fun s e e' howner he' => ?_) h k
  obtain rfl := pure_eq_ok.mp he'
  exact .allowConfidentialCredits (Call.authorisedBy rfl rfl rfl howner)

theorem processAllowNonConfidentialCredits_step {allow : Bool}
    (h : processAllowNonConfidentialCredits allow accounts l = .ok l') (k : Pubkey) :
    LocalStep ⟨x, env, .allowNonConfidentialCredits allow, accounts, l⟩ k (l k) (l' k) := by
  simp only [processAllowNonConfidentialCredits, bind_eq_ok, Prod.exists,
    nextAccountInfo_eq_ok] at h
  obtain ⟨tokenAccountInfo, rest, rfl, authorityInfo, signers, rfl, h⟩ := h
  refine updateConfidentialTransferAccount_step (fun s e e' howner he' => ?_) h k
  obtain rfl := pure_eq_ok.mp he'
  exact .allowNonConfidentialCredits (Call.authorisedBy rfl rfl rfl howner)

/-! ### Deposits and withdrawals -/

theorem checkConfidentialMove_eq_ok {tokenAccountInfo mintInfo authorityInfo : AccountInfo}
    {signers : List AccountInfo} {decimals : UInt8} {s : PodStateWithExtensions PodAccount}
    (h : checkConfidentialMove l tokenAccountInfo mintInfo authorityInfo signers decimals = .ok s) :
    (l tokenAccountInfo.key).data.unpackAccount = .ok s ∧
      validateOwner l s.base.owner authorityInfo signers = .ok () ∧ ¬ s.base.frozen ∧
      s.base.isNative = none ∧ s.base.mint = mintInfo.key ∧
      ∃ mint, (l mintInfo.key).data.unpackMint = .ok mint ∧ ¬ mint.hasExtension .nonTransferable := by
  simp only [checkConfidentialMove, bind_eq_ok, exists_unit, ensure_eq_ok, pure_eq_ok] at h
  obtain ⟨-, mint, hunpack, -, hmarker, -, -, s, hs, howner, hfrozen, hmint, hnative, rfl⟩ := h
  exact ⟨hs, howner, hfrozen, hnative, hmint, mint, hunpack, hmarker⟩

theorem processDeposit_step {amount : UInt64} {decimals : UInt8}
    (h : processDeposit x.zk amount decimals accounts l = .ok l') (k : Pubkey) :
    LocalStep ⟨x, env, .deposit amount decimals, accounts, l⟩ k (l k) (l' k) := by
  simp only [processDeposit, bind_eq_ok, Prod.exists, nextAccountInfo_eq_ok, okOr_eq_ok] at h
  obtain ⟨tokenAccountInfo, rest, rfl, mintInfo, rest', rfl, authorityInfo, signers, rfl, s, hcheck,
    newAmount, hamount, e, he, e', he', hwrite⟩ := h
  obtain ⟨hs, howner, hfrozen, hnative, hkey, hmint⟩ := checkConfidentialMove_eq_ok hcheck
  exact localStep_of_update hs (PodStateWithExtensions.getExtension_eq_ok.mp he)
    (.deposited rfl (Call.authorisedBy rfl rfl rfl howner) hfrozen hnative (hkey ▸ hmint)
      (checkedSub_eq_some.mp hamount) he') hwrite k

theorem processWithdraw_step {amount : UInt64} {decimals : UInt8} {balance : AeCiphertext}
    {offset : Int8}
    (h : processWithdraw x.zk env amount decimals balance offset.toInt64 accounts l = .ok l')
    (k : Pubkey) :
    LocalStep ⟨x, env, .withdraw amount decimals balance offset, accounts, l⟩ k (l k) (l' k) := by
  simp only [processWithdraw, bind_eq_ok, Prod.exists, nextAccountInfo_eq_ok, okOr_eq_ok] at h
  obtain ⟨tokenAccountInfo, rest, rfl, mintInfo, rest', rfl, context, rest'', hcontext,
    authorityInfo, signers, rfl, s, hcheck, e, he, e', he', newAmount, hamount, hwrite⟩ := h
  obtain ⟨proofInfo, rfl, hread⟩ := verifyProof_eq_ok hcontext
  obtain ⟨hs, howner, hfrozen, hnative, hkey, hmint⟩ := checkConfidentialMove_eq_ok hcheck
  exact localStep_of_update hs (PodStateWithExtensions.getExtension_eq_ok.mp he)
    (.withdrawn (Call.provides_of_context ProofContext.withdraw?_eq_some hread)
      (Call.authorisedBy rfl rfl rfl howner) hfrozen hnative (hkey ▸ hmint)
      (checkedAdd_eq_some.mp hamount) he') hwrite k

end BarkToken
