import BarkToken.Invariant.Markers

/-!
# Who changes a confidential balance

Only the confidential instructions that name an account in the right place change its
confidential extension, each of them in its own way.
-/

namespace BarkToken
open Fallible CheckedWord AccountData

/-! ### Accounts that keep their extension -/

/-- A token account stays one, with the confidential extension it had. -/
def KeepsConfidential (r r' : AccountRecord) : Prop :=
  ∀ s : PodStateWithExtensions PodAccount, r.owner = programId → r.data = .account s →
    ∃ s' : PodStateWithExtensions PodAccount, r'.owner = programId ∧ r'.data = .account s' ∧
      s'.tlv.get .confidentialTransferAccount = s.tlv.get .confidentialTransferAccount

section Keeps

variable {r r' r'' : AccountRecord} {c : Call} {k : Pubkey} {l l' : Ledger}

theorem KeepsConfidential.refl (r : AccountRecord) : KeepsConfidential r r :=
  fun s howner hdata => ⟨s, howner, hdata, rfl⟩

theorem KeepsConfidential.of_eq (h : r' = r) : KeepsConfidential r r' := h ▸ .refl r

theorem KeepsConfidential.trans (h : KeepsConfidential r r') (h' : KeepsConfidential r' r'') :
    KeepsConfidential r r'' := by
  intro s howner hdata
  obtain ⟨s', howner', hdata', hget'⟩ := h s howner hdata
  obtain ⟨s'', howner'', hdata'', hget''⟩ := h' s' howner' hdata'
  exact ⟨s'', howner'', hdata'', hget''.trans hget'⟩

/-- A record that is no token account has no extension to lose. -/
theorem KeepsConfidential.of_data (h : ∀ s, r.data ≠ .account s) : KeepsConfidential r r' :=
  fun s _ hdata => absurd hdata (h s)

theorem KeepsConfidential.of_account {s s' : PodStateWithExtensions PodAccount}
    (howner : r'.owner = programId) (hdata : r.data = .account s) (hdata' : r'.data = .account s')
    (hget : s'.tlv.get .confidentialTransferAccount = s.tlv.get .confidentialTransferAccount) :
    KeepsConfidential r r' := by
  intro t _ ht
  obtain rfl := AccountData.account.inj (hdata.symm.trans ht)
  exact ⟨s', howner, hdata', hget⟩

theorem KeptRecord.keepsConfidential {ts : List ExtensionType} (h : KeptRecord ts k r r')
    (hts : .confidentialTransferAccount ∉ ts) : KeepsConfidential r r' := by
  intro s howner hdata
  obtain ⟨howner', -, s', hdata', -, -, htlv⟩ := h.account howner hdata
  exact ⟨s', howner', hdata', htlv.get _ hts⟩

theorem NeutralStep.keepsConfidential (h : NeutralStep c k r r') (hnative : r.owner = programId) :
    KeepsConfidential r r' := by
  cases h with
  | foreign h =>
    have hkept : KeptRecord [] k r r' := Or.inl h
    exact hkept.keepsConfidential (by simp)
  | account _ howner' hdata hdata' _ h =>
    exact .of_account howner' hdata hdata' (h.changesOnly.get _ (by simp))
  | sync _ howner' hdata hdata' => exact .of_account howner' hdata hdata' rfl
  | mint _ _ hdata => exact .of_data fun s => by simp [hdata]
  | extend _ _ hdata => exact .of_data fun s => by simp [hdata]
  | initMint _ _ _ _ hdata => exact .of_data fun s => by simp [hdata]
  | createNativeMint _ howner =>
    exact absurd (hnative.symm.trans howner) programId_ne_systemProgram
  | initAccount _ _ hdata => exact .of_data fun s => by simp [hdata]
  | initMultisig _ _ _ _ hdata =>
    rcases hdata with ⟨tlv, hdata⟩ | ⟨m, hdata, -⟩ <;> exact .of_data fun s => by simp [hdata]
  | withdrawExcess _ howner' hdata =>
    exact fun s _ hs => ⟨s, howner', hdata.trans hs, rfl⟩

/-- A write of the record at `k` that keeps its extension. -/
theorem KeepsConfidential.of_setData {d : AccountData} (j : Pubkey)
    (h : KeepsConfidential (l k) { l k with data := d }) :
    KeepsConfidential (l j) ((l.setData k d) j) := by
  by_cases hj : j = k
  · subst hj
    rw [Ledger.setData_self]
    exact h
  · rw [Ledger.setData_of_ne hj]
    exact .refl _

theorem KeepsConfidential.of_writeData {d : AccountData} (j : Pubkey)
    (hwrite : l.writeData k d = .ok l')
    (h : (l k).owner = programId → KeepsConfidential (l k) { l k with data := d }) :
    KeepsConfidential (l j) (l' j) :=
  forall_of_writeData (R := fun _ => KeepsConfidential) (fun _ => .refl) hwrite h j

/-- A write to a mint. -/
theorem KeepsConfidential.of_setMint {m : PodStateWithExtensions PodMint} {d : AccountData}
    (j : Pubkey) (hdata : (l k).data = .mint m) : KeepsConfidential (l j) ((l.setData k d) j) :=
  .of_setData j (.of_data fun s => by simp [hdata])

end Keeps

/-! ### Public instructions -/

section Public

variable {env : Env} {accounts : List AccountInfo} {l l' l₁ : Ledger} {k : Pubkey}

theorem HarvestStep.keepsConfidential {mintKey : Pubkey} (h : HarvestStep mintKey l l') (j : Pubkey) :
    KeepsConfidential (l j) (l' j) := by
  cases h j with
  | kept hsame => exact .of_eq hsame
  | emptied howner hdata _ _ hemptied =>
    rw [hemptied]
    exact .of_account howner hdata rfl (TypedStore.get_put_of_ne _ _ (by decide))

theorem Transferred.keepsConfidential {c : Call} {source destination : Pubkey}
    {s d s' d' : PodStateWithExtensions PodAccount} {amount fee : UInt64}
    (h : Transferred c l' source destination s d s' d' amount fee) (j : Pubkey) :
    KeepsConfidential (c.ledger j) (l' j) := by
  by_cases hs : j = source
  · subst hs
    obtain ⟨base, -, hs'⟩ := h.authority
    exact .of_account ((h.owner j).trans h.sourceOwner) h.sourceData h.sourceData' (by rw [hs'])
  by_cases hd : j = destination
  · subst hd
    exact .of_account ((h.owner j).trans h.destinationOwner) h.destinationData h.destinationData'
      (h.credited.changesOnly.get _ (by simp))
  · exact .of_eq (h.others j hs hd)

theorem SupplyChanged.keepsConfidential {mintKey : Pubkey} {s s' : PodStateWithExtensions PodAccount}
    {m m' : PodStateWithExtensions PodMint} (h : SupplyChanged l l' k mintKey s s' m m') (j : Pubkey) :
    KeepsConfidential (l j) (l' j) := by
  have hwrite : KeepsConfidential (l j) ((l.setData k (.account s')) j) :=
    .of_setData j (.of_account h.owner h.data rfl (by rw [h.tlv]))
  rw [h.ledger]
  refine hwrite.trans (.of_setMint j (m := m) ?_)
  rw [Ledger.setData_of_ne (Ne.symm h.ne)]
  exact h.mintData

theorem Closed.keepsConfidential {source destination : Pubkey} {authorityInfo : AccountInfo}
    {signers : List AccountInfo} (h : Closed env l l' source destination authorityInfo signers)
    {j : Pubkey} (hj : j ≠ source) : KeepsConfidential (l j) (l' j) := by
  by_cases hd : j = destination
  · subst hd
    intro s howner hdata
    exact ⟨s, h.destinationOwner.trans howner, h.destinationData.trans hdata, rfl⟩
  · exact .of_eq (h.others j hj hd)

theorem processHarvestWithheldTokensToMint_keepsConfidential
    (h : processHarvestWithheldTokensToMint accounts l = .ok l') (j : Pubkey) :
    KeepsConfidential (l j) (l' j) := by
  obtain ⟨mintKey, infos, m, v, n, l₁, hharvested⟩ := processHarvestWithheldTokensToMint_eq_ok h
  obtain ⟨hkept, hmint⟩ := harvestLoop_step hharvested.loop
  obtain ⟨-, rfl⟩ := Ledger.writeData_eq_ok.mp hharvested.write
  refine (hkept.keepsConfidential j).trans (.of_setMint j (m := m) ?_)
  rw [hmint]
  exact (unpackMint_eq_ok.mp hharvested.mintData).1

theorem processWithdrawWithheldTokensFromMint_keepsConfidential
    (h : processWithdrawWithheldTokensFromMint accounts l = .ok l') (j : Pubkey) :
    KeepsConfidential (l j) (l' j) := by
  obtain ⟨mintKey, destination, m, v, d, newAmount, hpaid⟩ :=
    processWithdrawWithheldTokensFromMint_eq_ok h
  refine KeepsConfidential.trans (.of_setMint j (unpackMint_eq_ok.mp hpaid.mintData).1)
    (.of_writeData j hpaid.write fun howner => ?_)
  have hdata (data : AccountData) : ((l.setData mintKey data) destination).data = .account d := by
    rw [Ledger.setData_of_ne hpaid.ne]
    exact hpaid.data
  exact .of_account howner (hdata _) rfl rfl

theorem processWithdrawWithheldTokensFromAccounts_keepsConfidential {numTokenAccounts : UInt8}
    (h : processWithdrawWithheldTokensFromAccounts numTokenAccounts accounts l = .ok l') (j : Pubkey) :
    KeepsConfidential (l j) (l' j) := by
  obtain ⟨mintKey, destination, infos, d, d', l₁, hpaid⟩ :=
    processWithdrawWithheldTokensFromAccounts_eq_ok h
  obtain ⟨hcollected, hkept, hsame⟩ := withdrawLoop hpaid.loop
  refine (hkept.keepsConfidential j).trans
    (.of_writeData j hpaid.write fun howner => ?_)
  refine .of_account howner ?_ rfl (hcollected.changesOnly.get _ (by simp))
  rw [hsame]
  exact hpaid.data

theorem processConfidentialHarvestToMint_keepsConfidential {zk : ZkOps}
    (h : processConfidentialHarvestToMint zk accounts l = .ok l') (j : Pubkey) :
    KeepsConfidential (l j) (l' j) := by
  obtain ⟨mintKey, infos, m, v, n, l₁, hharvested⟩ := processConfidentialHarvestToMint_eq_ok h
  obtain ⟨hkept, hmint⟩ := confidentialHarvestLoop_kept hharvested.loop
  obtain ⟨-, rfl⟩ := Ledger.writeData_eq_ok.mp hharvested.write
  refine ((hkept j).keepsConfidential (by simp)).trans (.of_setMint j (m := m) ?_)
  rw [hmint]
  exact (unpackMint_eq_ok.mp hharvested.mintData).1

end Public

/-! ### What changes an extension -/

/-- The two withdrawals of encrypted withheld fees. -/
def TokenInstruction.paysWithheld : TokenInstruction → Bool
  | confidentialWithdrawFromMint _ _ | confidentialWithdrawFromAccounts _ _ _ => true
  | _ => false

/-- The proof whose ciphertext a withdrawal of withheld fees pays into `k`. -/
def Call.withheldPayment (c : Call) (k : Pubkey) : Option CiphertextCiphertextEqualityProofContext :=
  if c.key 1 = some k then
    match c.ix with
    | .confidentialWithdrawFromMint _ offset | .confidentialWithdrawFromAccounts _ _ offset =>
      ((verifyCiphertextCiphertextEqualityProof c.env c.ledger offset.toInt64
        (c.accounts.drop 2)).toOption).map Prod.fst
    | _ => none
  else none

/-- The confidential extension of the account `k`, and its amount, before and after. -/
inductive ConfidentialEffect (c : Call) (k : Pubkey) (e : ConfidentialTransferAccount)
    (amount : UInt64) : ConfidentialTransferAccount → UInt64 → Prop
  | kept {newAmount} (hnone : c.withheldPayment k = none) : ConfidentialEffect c k e amount e newAmount
  | approved (hix : c.ix = .approveAccount) :
      ConfidentialEffect c k e amount { e with approved := true } amount
  | allowConfidentialCredits {allow} (hix : c.ix = .allowConfidentialCredits allow) :
      ConfidentialEffect c k e amount { e with allowConfidentialCredits := allow } amount
  | allowNonConfidentialCredits {allow} (hix : c.ix = .allowNonConfidentialCredits allow) :
      ConfidentialEffect c k e amount { e with allowNonConfidentialCredits := allow } amount
  | emptied {offset p e'} (hix : c.ix = .emptyAccount offset) (hkey : c.key 0 = some k)
      (hproof : c.Provides (.zeroBalance p)) (h : e.emptied p = .ok e') :
      ConfidentialEffect c k e amount e' amount
  | applied {counter balance e'} (hix : c.ix = .applyPendingBalance counter balance)
      (hkey : c.key 0 = some k) (h : e.applied c.x.zk counter balance = .ok e') :
      ConfidentialEffect c k e amount e' amount
  | deposited {n decimals newAmount e'} (hix : c.ix = .deposit n decimals) (hkey : c.key 0 = some k)
      (hamount : newAmount.toNat + n.toNat = amount.toNat) (h : e.deposited c.x.zk n = .ok e') :
      ConfidentialEffect c k e amount e' newAmount
  | withdrawn {n decimals balance offset p newAmount e'}
      (hix : c.ix = .withdraw n decimals balance offset) (hkey : c.key 0 = some k)
      (hamount : newAmount.toNat = amount.toNat + n.toNat)
      (h : e.withdrawn c.x.zk n p balance = .ok e') : ConfidentialEffect c k e amount e' newAmount
  | debited {data p fee balance e'} (hix : IsConfidentialTransfer c.ix data)
      (hkey : c.key 0 = some k) (hother : c.key 2 ≠ some k) (hexecutes : c.Executes p fee)
      (h : e.debited c.x.zk p balance = .ok e') : ConfidentialEffect c k e amount e' amount
  | credited {data p e'} (hix : IsConfidentialTransfer c.ix data) (hkey : c.key 2 = some k)
      (hother : c.key 0 ≠ some k) (hexecutes : c.Executes p none)
      (h : e.credited c.x.zk p = .ok e') : ConfidentialEffect c k e amount e' amount
  | charged {data p q e₁ e'} (hix : IsConfidentialTransfer c.ix data) (hkey : c.key 2 = some k)
      (hother : c.key 0 ≠ some k) (hexecutes : c.Executes p (some q))
      (h : e.credited c.x.zk p = .ok e₁) (hcharged : e₁.charged c.x.zk q.lo q.hi = .ok e') :
      ConfidentialEffect c k e amount e' amount
  | selfTransferred {data p fee balance e₁ e'} (hix : IsConfidentialTransfer c.ix data)
      (hkey : c.key 0 = some k) (hsame : c.key 2 = some k) (hexecutes : c.Executes p fee)
      (h : e.debited c.x.zk p balance = .ok e₁) (hcredited : e₁.credited c.x.zk p = .ok e') :
      ConfidentialEffect c k e amount e' amount
  | paidWithheld {p feeConfig withheldAmount balance e'} (hpays : c.withheldPayment k = some p)
      (h : e.paidWithheld c.x.zk p feeConfig withheldAmount balance = .ok e') :
      ConfidentialEffect c k e amount e' amount

/-- A token account stays one, and its extension changes in one of these ways. -/
def ConfidentialRecord (c : Call) (k : Pubkey) (r r' : AccountRecord) : Prop :=
  ∀ (s : PodStateWithExtensions PodAccount) (e : ConfidentialTransferAccount),
    r.owner = programId → r.data = .account s → s.tlv.get .confidentialTransferAccount = some e →
    ∃ (s' : PodStateWithExtensions PodAccount) (e' : ConfidentialTransferAccount),
      r'.owner = programId ∧ r'.data = .account s' ∧
      s'.tlv.get .confidentialTransferAccount = some e' ∧
      ConfidentialEffect c k e s.base.amount e' s'.base.amount

section Effects

variable {c : Call} {k : Pubkey} {r r' : AccountRecord} {l l' : Ledger}

theorem KeepsConfidential.record (h : KeepsConfidential r r') (hnone : c.withheldPayment k = none) :
    ConfidentialRecord c k r r' := by
  intro s e howner hdata he
  obtain ⟨s', howner', hdata', hget⟩ := h s howner hdata
  exact ⟨s', e, howner', hdata', hget.trans he, .kept hnone⟩

/-- Only withdrawals of withheld fees pay them. -/
theorem Call.withheldPayment_eq_none (h : c.ix.paysWithheld = false) (k : Pubkey) :
    c.withheldPayment k = none := by
  obtain ⟨x, env, ix, accounts, l⟩ := c
  cases ix with
  | confidentialWithdrawFromMint => simp [TokenInstruction.paysWithheld] at h
  | confidentialWithdrawFromAccounts => simp [TokenInstruction.paysWithheld] at h
  | _ => simp [Call.withheldPayment]

theorem ConfidentialRecord.refl (h : c.ix.paysWithheld = false) (r : AccountRecord) :
    ConfidentialRecord c k r r := (KeepsConfidential.refl r).record (c.withheldPayment_eq_none h k)

/-- One account's extension is replaced, perhaps with its amount. -/
theorem ConfidentialRecord.of_account {s s' : PodStateWithExtensions PodAccount}
    {e e' : ConfidentialTransferAccount} (howner : r'.owner = programId) (hdata : r.data = .account s)
    (hdata' : r'.data = .account s') (he : s.tlv.get .confidentialTransferAccount = some e)
    (he' : s'.tlv.get .confidentialTransferAccount = some e')
    (h : ConfidentialEffect c k e s.base.amount e' s'.base.amount) : ConfidentialRecord c k r r' := by
  intro t f _ ht hf
  obtain rfl := AccountData.account.inj (hdata.symm.trans ht)
  obtain rfl := Option.some.inj (he.symm.trans hf)
  exact ⟨s', e', howner, hdata', he', h⟩

theorem ConfidentialRecord.of_setData {s s' : PodStateWithExtensions PodAccount}
    {e e' : ConfidentialTransferAccount} (hdata : (l k).data = .account s)
    (he : s.tlv.get .confidentialTransferAccount = some e)
    (he' : s'.tlv.get .confidentialTransferAccount = some e')
    (h : ConfidentialEffect c k e s.base.amount e' s'.base.amount) :
    ConfidentialRecord c k (l k) ((l.setData k (.account s')) k) := by
  rw [Ledger.setData_self]
  intro t f howner
  have hrecord : ConfidentialRecord c k (l k) { l k with data := .account s' } :=
    .of_account howner hdata rfl he he' h
  exact hrecord t f howner

/-- A write of the account in first place. -/
theorem ConfidentialRecord.of_write {s s' : PodStateWithExtensions PodAccount}
    {e e' : ConfidentialTransferAccount} {info : AccountInfo} (hix : c.ix.paysWithheld = false)
    (hunpack : (l info.key).data.unpackAccount = .ok s)
    (he : s.getExtension .confidentialTransferAccount = .ok e)
    (he' : s'.tlv.get .confidentialTransferAccount = some e')
    (hwrite : l.writeData info.key (.account s') = .ok l')
    (h : ConfidentialEffect c info.key e s.base.amount e' s'.base.amount) (k : Pubkey) :
    ConfidentialRecord c k (l k) (l' k) := by
  refine forall_of_writeData (R := ConfidentialRecord c) (fun _ => .refl hix) hwrite
    (fun howner => ?_) k
  exact .of_account howner (unpackAccount_eq_ok.mp hunpack).1 rfl
    (PodStateWithExtensions.getExtension_eq_ok.mp he) he' h

theorem updateConfidentialTransferAccount_record
    {update : ConfidentialTransferAccount → Except Fault ConfidentialTransferAccount}
    {info authorityInfo : AccountInfo} {signers : List AccountInfo} (hix : c.ix.paysWithheld = false)
    (hupdate : ∀ (e e' : ConfidentialTransferAccount) (amount : UInt64), update e = .ok e' →
      ConfidentialEffect c info.key e amount e' amount)
    (h : updateConfidentialTransferAccount update info authorityInfo signers l = .ok l') (k : Pubkey) :
    ConfidentialRecord c k (l k) (l' k) := by
  simp only [updateConfidentialTransferAccount, bind_eq_ok, exists_unit] at h
  obtain ⟨-, s, hs, -, e, he, e', he', hwrite⟩ := h
  exact .of_write hix hs he (TypedStore.get_put_self _ _ _) hwrite (hupdate e e' _ he') k

end Effects

/-! ### One account -/

section Handlers

variable {x : Externals} {env : Env} {accounts : List AccountInfo} {l l' : Ledger}

/-- An account that is configured has had no extension. -/
theorem processConfigureAccount_record {c : Call} {balance : AeCiphertext} {maximumCounter : UInt64}
    {offset : Int64} (hix : c.ix.paysWithheld = false)
    (h : processConfigureAccount env balance maximumCounter offset accounts l = .ok l')
    (k : Pubkey) : ConfidentialRecord c k (l k) (l' k) := by
  simp only [processConfigureAccount, bind_eq_ok, Prod.exists, exists_unit] at h
  obtain ⟨tokenAccountInfo, rest, -, mintInfo, rest', -, context, rest'', -, authorityInfo, signers,
    -, -, s, hs, -, -, -, -, mint, -, mintExtension, -, s₁, hinit, s₂, -, hwrite⟩ := h
  have hnone := (PodStateWithExtensions.initExtension_eq_ok hinit).2 rfl
  refine forall_of_writeData (R := ConfidentialRecord c) (fun _ => .refl hix) hwrite (fun _ => ?_) k
  intro t e _ ht he
  obtain rfl := AccountData.account.inj ((unpackAccount_eq_ok.mp hs).1.symm.trans ht)
  exact absurd (hnone.symm.trans he) (by simp)

theorem processApproveAccount_record (h : processApproveAccount accounts l = .ok l') (k : Pubkey) :
    ConfidentialRecord ⟨x, env, .approveAccount, accounts, l⟩ k (l k) (l' k) := by
  simp only [processApproveAccount, bind_eq_ok, Prod.exists, exists_unit] at h
  obtain ⟨tokenAccountInfo, rest, -, mintInfo, rest', -, authorityInfo, signers, -, -, s, hs, -, -, -,
    mint, -, mintExtension, -, authority, -, -, e, he, hwrite⟩ := h
  exact .of_write rfl hs he (TypedStore.get_put_self _ _ _) hwrite (.approved rfl) k

theorem processEmptyAccount_record {offset : Int8}
    (h : processEmptyAccount env offset.toInt64 accounts l = .ok l') (k : Pubkey) :
    ConfidentialRecord ⟨x, env, .emptyAccount offset, accounts, l⟩ k (l k) (l' k) := by
  simp only [processEmptyAccount, bind_eq_ok, Prod.exists, nextAccountInfo_eq_ok] at h
  obtain ⟨tokenAccountInfo, rest, rfl, context, rest', hcontext, authorityInfo, signers, rfl, h⟩ := h
  obtain ⟨proofInfo, rfl, hread⟩ := verifyProof_eq_ok hcontext
  refine updateConfidentialTransferAccount_record rfl (fun e e' amount he' => ?_) h k
  exact .emptied rfl rfl (Call.provides_of_context ProofContext.zeroBalance?_eq_some hread) he'

theorem processApplyPendingBalance_record {counter : UInt64} {balance : AeCiphertext}
    (h : processApplyPendingBalance x.zk counter balance accounts l = .ok l') (k : Pubkey) :
    ConfidentialRecord ⟨x, env, .applyPendingBalance counter balance, accounts, l⟩ k (l k) (l' k) := by
  simp only [processApplyPendingBalance, bind_eq_ok, Prod.exists, nextAccountInfo_eq_ok] at h
  obtain ⟨tokenAccountInfo, rest, rfl, authorityInfo, signers, rfl, h⟩ := h
  refine updateConfidentialTransferAccount_record rfl (fun e e' amount he' => ?_) h k
  exact .applied rfl rfl he'

theorem processAllowConfidentialCredits_record {allow : Bool}
    (h : processAllowConfidentialCredits allow accounts l = .ok l') (k : Pubkey) :
    ConfidentialRecord ⟨x, env, .allowConfidentialCredits allow, accounts, l⟩ k (l k) (l' k) := by
  simp only [processAllowConfidentialCredits, bind_eq_ok, Prod.exists] at h
  obtain ⟨tokenAccountInfo, rest, -, authorityInfo, signers, -, h⟩ := h
  refine updateConfidentialTransferAccount_record rfl (fun e e' amount he' => ?_) h k
  obtain rfl := pure_eq_ok.mp he'
  exact .allowConfidentialCredits rfl

theorem processAllowNonConfidentialCredits_record {allow : Bool}
    (h : processAllowNonConfidentialCredits allow accounts l = .ok l') (k : Pubkey) :
    ConfidentialRecord ⟨x, env, .allowNonConfidentialCredits allow, accounts, l⟩ k (l k) (l' k) := by
  simp only [processAllowNonConfidentialCredits, bind_eq_ok, Prod.exists] at h
  obtain ⟨tokenAccountInfo, rest, -, authorityInfo, signers, -, h⟩ := h
  refine updateConfidentialTransferAccount_record rfl (fun e e' amount he' => ?_) h k
  obtain rfl := pure_eq_ok.mp he'
  exact .allowNonConfidentialCredits rfl

theorem processDeposit_record {amount : UInt64} {decimals : UInt8}
    (h : processDeposit x.zk amount decimals accounts l = .ok l') (k : Pubkey) :
    ConfidentialRecord ⟨x, env, .deposit amount decimals, accounts, l⟩ k (l k) (l' k) := by
  simp only [processDeposit, bind_eq_ok, Prod.exists, nextAccountInfo_eq_ok, okOr_eq_ok] at h
  obtain ⟨tokenAccountInfo, rest, rfl, mintInfo, rest', rfl, authorityInfo, signers, rfl, s, hcheck,
    newAmount, hamount, e, he, e', he', hwrite⟩ := h
  have heffect : ConfidentialEffect ⟨x, env, .deposit amount decimals,
      tokenAccountInfo :: mintInfo :: authorityInfo :: signers, l⟩ tokenAccountInfo.key e s.base.amount
      e' newAmount := .deposited rfl rfl (checkedSub_eq_some.mp hamount) he'
  exact .of_write rfl (checkConfidentialMove_eq_ok hcheck).1 he (TypedStore.get_put_self _ _ _) hwrite
    heffect k

theorem processWithdraw_record {amount : UInt64} {decimals : UInt8} {balance : AeCiphertext}
    {offset : Int8} (h : processWithdraw x.zk env amount decimals balance offset.toInt64 accounts l =
      .ok l') (k : Pubkey) :
    ConfidentialRecord ⟨x, env, .withdraw amount decimals balance offset, accounts, l⟩ k (l k)
      (l' k) := by
  simp only [processWithdraw, bind_eq_ok, Prod.exists, nextAccountInfo_eq_ok, okOr_eq_ok] at h
  obtain ⟨tokenAccountInfo, rest, rfl, mintInfo, rest', rfl, context, rest'', -, authorityInfo,
    signers, -, s, hcheck, e, he, e', he', newAmount, hamount, hwrite⟩ := h
  have heffect : ConfidentialEffect ⟨x, env, .withdraw amount decimals balance offset,
      tokenAccountInfo :: mintInfo :: rest', l⟩ tokenAccountInfo.key e s.base.amount e' newAmount :=
    .withdrawn rfl rfl (checkedAdd_eq_some.mp hamount) he'
  exact .of_write rfl (checkConfidentialMove_eq_ok hcheck).1 he (TypedStore.get_put_self _ _ _) hwrite
    heffect k

/-! ### Withheld fees -/

theorem processConfidentialWithdrawFromMint_record {balance : AeCiphertext} {offset : Int8}
    (h : processConfidentialWithdrawFromMint x.zk env balance offset.toInt64 accounts l = .ok l')
    (k : Pubkey) :
    ConfidentialRecord ⟨x, env, .confidentialWithdrawFromMint balance offset, accounts, l⟩ k (l k)
      (l' k) := by
  simp only [processConfidentialWithdrawFromMint, bind_eq_ok, Prod.exists, exists_unit,
    nextAccountInfo_eq_ok] at h
  obtain ⟨mintInfo, rest, rfl, destinationInfo, rest', rfl, p, rest'', hcontext, authorityInfo,
    signers, -, -, m, hm, -, v, hv, d, hd, e, he, -, e', he', l₁, hwrite, hwrite'⟩ := h
  obtain ⟨hne, hdata, -⟩ := withheldDestination_eq_ok hd
  obtain ⟨-, rfl⟩ := Ledger.writeData_eq_ok.mp hwrite'
  have hpays : (Call.mk x env (.confidentialWithdrawFromMint balance offset)
      (mintInfo :: destinationInfo :: rest') l).withheldPayment destinationInfo.key = some p := by
    simp [Call.withheldPayment, Call.key, hcontext, Except.toOption]
  obtain ⟨-, rfl⟩ := Ledger.writeData_eq_ok.mp hwrite
  by_cases hk : k = destinationInfo.key
  · subst hk
    rw [Ledger.setData_of_ne hne]
    exact .of_setData hdata (PodStateWithExtensions.getExtension_eq_ok.mp he)
      (TypedStore.get_put_self _ _ _) (.paidWithheld hpays he')
  · have hmint (data : AccountData) : ((l.setData destinationInfo.key data) mintInfo.key).data =
        .mint m := by
      rw [Ledger.setData_of_ne (Ne.symm hne)]
      exact (unpackMint_eq_ok.mp hm).1
    have hsame (data : AccountData) : (l.setData destinationInfo.key data) k = l k :=
      Ledger.setData_of_ne hk
    refine (KeepsConfidential.trans (.of_eq (hsame _)) (.of_setMint k (hmint _))).record ?_
    simp [Call.withheldPayment, Call.key, Ne.symm hk]

theorem processConfidentialWithdrawFromAccounts_record {numTokenAccounts : UInt8}
    {balance : AeCiphertext} {offset : Int8}
    (h : processConfidentialWithdrawFromAccounts x.zk env numTokenAccounts balance offset.toInt64
      accounts l = .ok l') (k : Pubkey) :
    ConfidentialRecord ⟨x, env, .confidentialWithdrawFromAccounts numTokenAccounts balance offset,
      accounts, l⟩ k (l k) (l' k) := by
  simp only [processConfidentialWithdrawFromAccounts, bind_eq_ok, Prod.exists, exists_unit,
    nextAccountInfo_eq_ok] at h
  obtain ⟨mintInfo, rest, rfl, destinationInfo, rest', rfl, p, rest'', hcontext, authorityInfo, infos,
    -, -, m, -, -, d, hd, gathered, hloop, e, he, -, v, -, e', he', hwrite⟩ := h
  obtain ⟨-, hdata, -⟩ := withheldDestination_eq_ok hd
  obtain ⟨hbase, -, htlv, hkept, hsame⟩ := gatherLoop hloop
  have hpays : (Call.mk x env (.confidentialWithdrawFromAccounts numTokenAccounts balance offset)
      (mintInfo :: destinationInfo :: rest') l).withheldPayment destinationInfo.key = some p := by
    simp [Call.withheldPayment, Call.key, hcontext, Except.toOption]
  by_cases hk : k = destinationInfo.key
  · subst hk
    dsimp only at hsame
    obtain ⟨-, rfl⟩ := Ledger.writeData_eq_ok.mp hwrite
    rw [← hsame] at hdata ⊢
    refine .of_setData (e := e) hdata ?_ (TypedStore.get_put_self _ _ _) ?_
    · rw [← htlv.get _ (by simp)]
      exact PodStateWithExtensions.getExtension_eq_ok.mp he
    · rw [PodStateWithExtensions.setExtension_base, hbase]
      exact .paidWithheld hpays he'
  · obtain ⟨-, rfl⟩ := Ledger.writeData_eq_ok.mp hwrite
    rw [Ledger.setData_of_ne hk]
    exact ((hkept k).keepsConfidential (by simp)).record
      (by simp [Call.withheldPayment, Call.key, Ne.symm hk])

end Handlers

/-! ### Transfers -/

section Transfers

variable {c : Call} {l₁ l₂ l' : Ledger} {source mintKey destination : Pubkey} {p : TransferParts}
  {fee : Option FeeParts} {s d d' : PodStateWithExtensions PodAccount}
  {e e' f f' : ConfidentialTransferAccount} {data : ConfidentialTransferData}

theorem IsConfidentialTransfer.paysWithheld {ix : TokenInstruction}
    (h : IsConfidentialTransfer ix data) : ix.paysWithheld = false := by
  cases h <;> rfl

/-- Other programs leave an account as it is. -/
theorem ConfidentialRecord.of_foreign {k : Pubkey} {r r₁ r' : AccountRecord}
    (h : ForeignRecord k r r₁) (h' : ConfidentialRecord c k r₁ r') : ConfidentialRecord c k r r' := by
  intro s e howner hdata he
  obtain ⟨howner₁, hdata₁, -⟩ := h.keeps howner
  exact h' s e howner₁ (hdata₁.trans hdata) he

/-- So do hooks, up to other extensions. -/
theorem ConfidentialRecord.then_kept {k : Pubkey} {r r₁ r' : AccountRecord} {ts : List ExtensionType}
    (h : ConfidentialRecord c k r r₁) (h' : KeptRecord ts k r₁ r')
    (hts : .confidentialTransferAccount ∉ ts) : ConfidentialRecord c k r r' := by
  intro s e howner hdata he
  obtain ⟨s₁, e₁, howner₁, hdata₁, he₁, heffect⟩ := h s e howner hdata he
  obtain ⟨howner', -, s', hdata', hbase, -, htlv⟩ := h'.account howner₁ hdata₁
  exact ⟨s', e₁, howner', hdata', (htlv.get _ hts).trans he₁, hbase ▸ heffect⟩

theorem ConfidentialMoved.source_record
    (h : ConfidentialMoved c l₁ l₂ source mintKey destination p fee s d d' e e' f f')
    (hix : IsConfidentialTransfer c.ix data) (hne : source ≠ destination) :
    ConfidentialRecord c source (l₁ source) (l₂ source) := by
  have hs := h.sourceDebited
  obtain ⟨balance, hdebited⟩ := hs.debited
  have hother : c.key 2 ≠ some source := by
    rw [h.destinationAt]
    exact fun hkey => hne (Option.some.inj hkey).symm
  rw [h.destinationCredited.ledger, Ledger.setData_of_ne hne, Ledger.setData_self]
  exact .of_account hs.owner hs.data rfl hs.extension (TypedStore.get_put_self _ _ _)
    (.debited hix h.sourceAt hother h.executes hdebited)

theorem ConfidentialMoved.destination_record
    (h : ConfidentialMoved c l₁ l₂ source mintKey destination p fee s d d' e e' f f')
    (hix : IsConfidentialTransfer c.ix data) (hne : source ≠ destination) :
    ConfidentialRecord c destination (l₁ destination) (l₂ destination) := by
  have hd := h.destinationCredited
  have howner := hd.owner
  have hdata := hd.data
  rw [Ledger.setData_of_ne (Ne.symm hne)] at howner hdata
  have hother : c.key 0 ≠ some destination := by
    rw [h.sourceAt]
    exact fun hkey => hne (Option.some.inj hkey)
  have hsettled := hd.settled
  have hexecutes := h.executes
  rw [hd.ledger, Ledger.setData_self, Ledger.setData_of_ne (Ne.symm hne)]
  rw [chargedFee, if_neg hne] at hsettled
  obtain ⟨hbase, -, -⟩ := hsettled.account
  cases hsettled with
  | free =>
    exact .of_account howner hdata rfl hd.extension (TypedStore.get_put_self _ _ _)
      (.credited hix h.destinationAt hother hexecutes hd.credited)
  | charged hfee =>
    refine .of_account howner hdata rfl hd.extension hfee.get ?_
    rw [hbase]
    exact .charged hix h.destinationAt hother hexecutes hd.credited hfee.charged

theorem ConfidentialMoved.self_record
    (h : ConfidentialMoved c l₁ l₂ source mintKey source p fee s d d' e e' f f')
    (hix : IsConfidentialTransfer c.ix data) :
    ConfidentialRecord c source (l₁ source) (l₂ source) := by
  have hs := h.sourceDebited
  have hd := h.destinationCredited
  obtain ⟨balance, hdebited⟩ := hs.debited
  have hdata := hd.data
  rw [Ledger.setData_self] at hdata
  obtain rfl := AccountData.account.inj hdata
  have hfe : f = e' := by
    have hextension := hd.extension
    rw [PodStateWithExtensions.setExtension_tlv, TypedStore.get_put_self] at hextension
    exact (Option.some.inj hextension).symm
  subst hfe
  have hsettled := hd.settled
  rw [chargedFee, if_pos rfl] at hsettled
  obtain ⟨⟩ := hsettled
  rw [hd.ledger, Ledger.setData_self, Ledger.setData_self]
  exact .of_account hs.owner hs.data rfl hs.extension (TypedStore.get_put_self _ _ _)
    (.selfTransferred hix h.sourceAt h.destinationAt h.executes hdebited hd.credited)

theorem ConfidentialMoved.record
    (h : ConfidentialMoved c l₁ l₂ source mintKey destination p fee s d d' e e' f f')
    (hix : IsConfidentialTransfer c.ix data) (k : Pubkey) : ConfidentialRecord c k (l₁ k) (l₂ k) := by
  by_cases hs : k = source
  · subst hs
    by_cases hd : k = destination
    · subst hd
      exact h.self_record hix
    · exact h.source_record hix hd
  · by_cases hd : k = destination
    · subst hd
      exact h.destination_record hix (Ne.symm hs)
    · exact (KeepsConfidential.of_eq (h.of_ne hs hd)).record
        (c.withheldPayment_eq_none hix.paysWithheld k)

theorem processConfidentialTransfer_record {x : Externals} {env : Env} {ix : TokenInstruction}
    {accounts : List AccountInfo} {l : Ledger} (hix : IsConfidentialTransfer ix data)
    (h : processConfidentialTransfer x.zk env data accounts l = .ok l') (k : Pubkey) :
    ConfidentialRecord ⟨x, env, ix, accounts, l⟩ k (l k) (l' k) := by
  obtain ⟨source, mintKey, destination, l₂, ⟨-, l₁, hclosed, hmoved⟩, hhook, -⟩ :=
    processConfidentialTransfer_eq_ok hix h
  rcases hmoved with ⟨rfl, -⟩ | ⟨p, fee, s, d, d', e, e', f, f', hmoved⟩
  · have hkept : KeptRecord [.transferHookAccount] k (l k) (l' k) :=
      KeptRecord.trans (Or.inl (hclosed.foreign k)) (hhook k)
    exact (hkept.keepsConfidential (by simp)).record (Call.withheldPayment_eq_none hix.paysWithheld k)
  · have hrecord := (hmoved.record hix k).then_kept (hhook k) (by simp)
    exact hrecord.of_foreign (hclosed.foreign k)

end Transfers

/-! ### All instructions -/

/-- Public instructions do not touch the extension. -/
theorem Outcome.keepsConfidential {c : Call} {l' : Ledger} {k : Pubkey} (h : Outcome c l')
    (hpublic : c.ix.isConfidential = false) (hclose : ¬ c.Closes k) :
    KeepsConfidential (c.ledger k) (l' k) := by
  obtain ⟨x, env, ix, accounts, l⟩ := c
  cases h with
  | neutral hstep => exact fun s howner => (hstep k).keepsConfidential howner s howner
  | confidential hix => exact absurd (hpublic.symm.trans hix) (by simp)
  | transfer hix hindex h =>
    have hnum := (TokenInstruction.isTransferOrBurn_of_isTransfer hix).2
    rcases processTransfer_eq_ok (x := x) hindex hnum h with
      rfl | ⟨source, destination, s, d, s', d', fee, l₁, hmoved, hhook, -⟩
    · exact .refl _
    · exact (hmoved.keepsConfidential k).trans ((hhook k).keepsConfidential (by simp))
  | mintTo _ h =>
    obtain ⟨j, mintKey, s, m, newAmount, supply, -, hchanged, -⟩ := @processMintTo_eq_ok x env _ _ _ _ _ h
    exact hchanged.keepsConfidential k
  | burn _ h =>
    obtain ⟨j, mintKey, s, base, m, newAmount, supply, hchanged, -⟩ := processBurn_eq_ok (x := x) h
    exact hchanged.keepsConfidential k
  | close hix h =>
    obtain ⟨source, destination, authorityInfo, signers, rfl, hclosed⟩ := processCloseAccount_eq_ok h
    refine hclosed.keepsConfidential fun hk => hclose ⟨hix, ?_⟩
    rw [hk]
    rfl
  | withdrawFromMint _ h => exact processWithdrawWithheldTokensFromMint_keepsConfidential h k
  | withdrawFromAccounts _ h => exact processWithdrawWithheldTokensFromAccounts_keepsConfidential h k
  | harvest _ h => exact processHarvestWithheldTokensToMint_keepsConfidential h k
  | confidentialTransfer hix =>
    cases hix <;> simp [TokenInstruction.isConfidential] at hpublic
  | confidentialWithdrawFromMint hix | confidentialWithdrawFromAccounts hix
    | confidentialHarvest hix =>
    obtain rfl := hix
    simp [TokenInstruction.isConfidential] at hpublic

/-- The confidential extension of a token account after a successful instruction that does
not close the account. -/
theorem Call.process_confidentialRecord {c : Call} {l' : Ledger} {k : Pubkey}
    (hl : WellFormedLedger c.ledger) (h : c.process = .ok l') (hclose : ¬ c.Closes k) :
    ConfidentialRecord c k (c.ledger k) (l' k) := by
  obtain ⟨x, env, ix, accounts, l⟩ := c
  by_cases hpublic : ix.isConfidential = true
  · cases ix with
    | configureAccount => exact processConfigureAccount_record rfl h k
    | approveAccount => exact processApproveAccount_record h k
    | emptyAccount => exact processEmptyAccount_record h k
    | deposit => exact processDeposit_record h k
    | withdraw => exact processWithdraw_record h k
    | applyPendingBalance => exact processApplyPendingBalance_record h k
    | allowConfidentialCredits => exact processAllowConfidentialCredits_record h k
    | allowNonConfidentialCredits => exact processAllowNonConfidentialCredits_record h k
    | confidentialTransfer => exact processConfidentialTransfer_record .single h k
    | confidentialTransferWithSplitProofs => exact processConfidentialTransfer_record .split h k
    | confidentialWithdrawFromMint => exact processConfidentialWithdrawFromMint_record h k
    | confidentialWithdrawFromAccounts => exact processConfidentialWithdrawFromAccounts_record h k
    | confidentialHarvestToMint =>
      exact (processConfidentialHarvestToMint_keepsConfidential h k).record
        (Call.withheldPayment_eq_none rfl k)
    | _ => simp [TokenInstruction.isConfidential] at hpublic
  · rw [Bool.not_eq_true] at hpublic
    refine ((Outcome.of_process hl.coherent h).keepsConfidential hpublic hclose).record
      (Call.withheldPayment_eq_none ?_ k)
    cases ix <;> simp_all [TokenInstruction.isConfidential, TokenInstruction.paysWithheld]

end BarkToken
