import BarkToken.Step.Lamports
import BarkToken.Step.Transfer

/-!
# Moving, issuing and closing, step by step (Processor/Transfer, Processor/Supply)
-/

namespace BarkToken
open Fallible CheckedWord AccountData

variable {x : Externals} {env : Env} {ix : TokenInstruction} {accounts : List AccountInfo}
  {l l' : Ledger}

/-! ### Transfers -/

/-- The source of a transfer, hook included. -/
theorem Transferred.source_step {c : Call} {l₁ : Ledger} {source destination : Pubkey}
    {s d s' d' : PodStateWithExtensions PodAccount} {amount fee : UInt64}
    (h : Transferred c l₁ source destination s d s' d' amount fee)
    (hix : c.ix.isTransferOrBurn = true) (hhook : HookStep l₁ l') :
    RecordStep c source (c.ledger source) (l' source) := by
  obtain ⟨howner', hlamports, s'', hdata'', hbase, hlen, htlv⟩ :=
    (hhook source).account ((h.owner source).trans h.sourceOwner) h.sourceData'
  have hlamports := UInt64.le_iff_toNat_le.mp hlamports
  obtain ⟨base, hauth, hs'⟩ := h.authority
  refine .account h.sourceOwner howner' h.sourceData hdata'' (.debit hix hauth h.notFrozen.1
    (fun hmarker => absurd hmarker h.transferable) h.debit ?_ ?_ ?_
    (fun hsome => ?_) fun hnone => ?_)
  · rw [hbase, hs']
  · rw [hlen, hs']
  · rw [hs'] at htlv
    exact htlv
  · have := h.nativeDebit hsome
    omega
  · rw [UInt64.le_iff_toNat_le, ← h.lamports hnone source]
    exact hlamports

/-- The destination of a transfer, hook included. -/
theorem Transferred.destination_step {c : Call} {l₁ : Ledger} {source destination : Pubkey}
    {s d s' d' : PodStateWithExtensions PodAccount} {amount fee : UInt64}
    (h : Transferred c l₁ source destination s d s' d' amount fee)
    (hnative : NativeByMint c.ledger) (hhook : HookStep l₁ l') :
    RecordStep c destination (c.ledger destination) (l' destination) := by
  obtain ⟨howner', hlamports, d'', hdata'', hbase, hlen, htlv⟩ :=
    (hhook destination).account ((h.owner destination).trans h.destinationOwner) h.destinationData'
  have hlamports := UInt64.le_iff_toNat_le.mp hlamports
  have hsame : s.base.isNative.isSome ↔ d.base.isNative.isSome := by
    rw [hnative _ _ h.sourceOwner h.sourceData, hnative _ _ h.destinationOwner h.destinationData,
      h.mint]
  have hcredit := h.credited.credit
  have hfee := h.credited.fee_le
  have hraise : (c.ledger destination).lamports.toNat ≤ (l₁ destination).lamports.toNat := by
    by_cases hsome : s.base.isNative.isSome
    · have := h.nativeCredit hsome
      omega
    · rw [h.lamports (Option.not_isSome_iff_eq_none.mp hsome) destination]
  have hamount : d.base.amount ≤ d'.base.amount := by
    rw [UInt64.le_iff_toNat_le]
    omega
  have hsource : c.FindsTransferable d.base.mint :=
    ⟨source, s, h.sourceOwner, h.sourceData, h.mint, h.transferable⟩
  refine .account h.destinationOwner howner' h.destinationData hdata''
    (.credit hamount (fun hf => absurd hf h.notFrozen.2) (Or.inr (Or.inr (Or.inl hsource)))
      (Or.inr hsource) ?_ ?_ ?_ (fun hsome => ?_) ?_)
  · rw [hbase, h.credited.base]
  · rw [hlen, h.credited.len]
  · exact (h.credited.changesOnly.mono (by simp)).trans (htlv.mono (by simp))
  · have := h.nativeCredit (hsame.mpr hsome)
    omega
  · rw [UInt64.le_iff_toNat_le]
    omega

theorem processTransfer_step {amount : UInt64} {decimals : Option UInt8} {fee : Option UInt64}
    (hcoherent : Coherent l)
    (hindex : ix.authorityIndex l accounts = some (if decimals.isSome then 3 else 2))
    (hnum : ix.numTokenAccounts = 0) (hix : ix.isTransferOrBurn = true)
    (h : processTransfer env amount decimals fee accounts l = .ok l') (k : Pubkey) :
    RecordStep ⟨x, env, ix, accounts, l⟩ k (l k) (l' k) := by
  rcases processTransfer_eq_ok (x := x) hindex hnum h with
    rfl | ⟨source, destination, s, d, s', d', fee', l₁, hmoved, hhook, -⟩
  · exact .refl _ k _
  by_cases hs : k = source
  · subst hs
    exact hmoved.source_step hix hhook
  by_cases hd : k = destination
  · subst hd
    exact hmoved.destination_step hcoherent.native hhook
  · have hsame : l₁ k = l k := hmoved.others k hs hd
    have hkept : KeptRecord [.transferHookAccount] k (l k) (l' k) := hsame ▸ hhook k
    exact hkept.recordStep (by simp)

/-! ### MintTo and Burn -/

/-- A balance and the supply of its mint, changed together. -/
structure SupplyChanged (l l' : Ledger) (k mintKey : Pubkey)
    (s s' : PodStateWithExtensions PodAccount) (m m' : PodStateWithExtensions PodMint) : Prop where
  ne : k ≠ mintKey
  owner : (l k).owner = programId
  mintOwner : (l mintKey).owner = programId
  data : (l k).data = .account s
  mintData : (l mintKey).data = .mint m
  key : s.base.mint = mintKey
  notFrozen : ¬ s.base.frozen
  nonNative : s.base.isNative = none
  tlv : s'.tlv = s.tlv
  len : s'.len = s.len
  base : s'.base.mint = s.base.mint
  mint : m' = { m with base := { m.base with supply := m'.base.supply } }
  ledger : l' = (l.setData k (.account s')).setData mintKey (.mint m')

theorem MintStep.of_supply {c : Call} {k : Pubkey} {s : PodStateWithExtensions PodMint}
    {supply : UInt64}
    (h : supply ≤ s.base.supply ∨ ∃ key, s.base.mintAuthority = some key ∧ c.AuthorisedBy key) :
    MintStep c k s { s with base := { s.base with supply := supply } } where
  initialized := rfl
  decimals := rfl
  keeps _ := id
  adds _ := Or.inl
  valid := id
  elgamalPubkey := rfl
  authorities a holder ha := ⟨holder, by cases a <;> exact ha, Or.inl rfl⟩
  issue := h
  freezeAuthority := Or.inl rfl
  defaultState := Or.inl rfl
  fees v hv := ⟨v, hv, Or.inl ⟨rfl, rfl⟩⟩
  interest v hv := ⟨v, hv, Or.inl ⟨_, rfl⟩⟩
  collected := Or.inl (UInt64.le_refl _)
  group := Or.inl rfl
  member := Or.inl rfl
  base := .supply

/-- The records of such a change, given the account's own step. -/
theorem SupplyChanged.step {c : Call} {k mintKey : Pubkey}
    {s s' : PodStateWithExtensions PodAccount} {m m' : PodStateWithExtensions PodMint}
    (h : SupplyChanged l l' k mintKey s s' m m') (hcoherent : Coherent l)
    (hissue : m'.base.supply ≤ m.base.supply ∨
      ∃ key, m.base.mintAuthority = some key ∧ c.AuthorisedBy key)
    (haccount : AccountStep c (l k).lamports (l k).lamports s s') (j : Pubkey) :
    RecordStep c j (l j) (l' j) := by
  rw [h.ledger]
  by_cases hm : j = mintKey
  · subst hm
    have hkey : j ≠ nativeMint := by
      rw [← h.key]
      exact hcoherent.mint_ne h.owner h.data h.nonNative
    rw [Ledger.setData_self, Ledger.setData_of_ne (Ne.symm h.ne)]
    refine .mint h.mintOwner h.mintOwner h.mintData rfl hkey ?_
    rw [h.mint]
    exact .of_supply hissue
  · rw [Ledger.setData_of_ne hm]
    by_cases hj : j = k
    · subst hj
      rw [Ledger.setData_self]
      exact .account h.owner h.owner h.data rfl haccount
    · rw [Ledger.setData_of_ne hj]
      exact .refl c j _

theorem processMintTo_eq_ok {amount : UInt64} {decimals : Option UInt8}
    (h : processMintTo amount decimals accounts l = .ok l') :
    ∃ k mintKey s m newAmount supply,
      (∃ key, m.base.mintAuthority = some key ∧
        (Call.mk x env (.mintTo amount decimals) accounts l).AuthorisedBy key) ∧
      SupplyChanged l l' k mintKey s { s with base := { s.base with amount := newAmount } } m
        { m with base := { m.base with supply := supply } } ∧
      newAmount.toNat = s.base.amount.toNat + amount.toNat ∧
      supply.toNat = m.base.supply.toNat + amount.toNat := by
  simp only [processMintTo, bind_eq_ok, Prod.exists, exists_unit, ensure_eq_ok, borrowData_eq_ok,
    okOr_eq_ok, checkProgramAccount_eq_ok, nextAccountInfo_eq_ok] at h
  obtain ⟨mintInfo, rest, rfl, destinationInfo, rest', rfl, ownerInfo, signers, rfl, s, hs, hfrozen,
    hnative, hkey, hborrow, m, hm, -, -, authority, hauthority, hvalidate, hmintOwner, howner,
    newAmount, hamount, supply, hsupply, l₁, hwrite, hwrite'⟩ := h
  obtain ⟨-, rfl⟩ := Ledger.writeData_eq_ok.mp hwrite
  obtain ⟨-, rfl⟩ := Ledger.writeData_eq_ok.mp hwrite'
  have hne : destinationInfo.key ≠ mintInfo.key := fun e =>
    hborrow (e ▸ List.mem_singleton_self _)
  exact ⟨destinationInfo.key, mintInfo.key, s, m, newAmount, supply,
    ⟨authority, hauthority, Call.authorisedBy rfl rfl rfl hvalidate⟩,
    ⟨hne, howner, hmintOwner, (unpackAccount_eq_ok.mp hs).1, (unpackMint_eq_ok.mp hm).1, hkey.symm,
      hfrozen, hnative, rfl, rfl, rfl, rfl, rfl⟩,
    checkedAdd_eq_some.mp hamount, checkedAdd_eq_some.mp hsupply⟩

theorem processMintTo_step {amount : UInt64} {decimals : Option UInt8}
    (hcoherent : Coherent l) (h : processMintTo amount decimals accounts l = .ok l') (k : Pubkey) :
    RecordStep ⟨x, env, .mintTo amount decimals, accounts, l⟩ k (l k) (l' k) := by
  obtain ⟨j, mintKey, s, m, newAmount, supply, hauth, hchanged, hamount, -⟩ :=
    processMintTo_eq_ok (x := x) h
  refine hchanged.step hcoherent (Or.inr hauth)
    (.credit ?_ (fun hf => absurd hf hchanged.notFrozen) (Or.inr (Or.inl rfl))
      (Or.inl (UInt64.le_refl _)) rfl rfl (.refl _ _) (fun hsome => ?_) (UInt64.le_refl _)) k
  · rw [UInt64.le_iff_toNat_le]
    omega
  · rw [hchanged.nonNative] at hsome
    simp at hsome

theorem processBurn_eq_ok {amount : UInt64} {decimals : Option UInt8}
    (h : processBurn env amount decimals accounts l = .ok l') :
    ∃ k mintKey s base m newAmount supply,
      SupplyChanged l l' k mintKey s { s with base := { base with amount := newAmount } } m
        { m with base := { m.base with supply := supply } } ∧
      DebitAuthority ⟨x, env, .burn amount decimals, accounts, l⟩ s amount base ∧
      newAmount.toNat + amount.toNat = s.base.amount.toNat ∧
      supply.toNat + amount.toNat = m.base.supply.toNat := by
  simp only [processBurn, bind_eq_ok, Prod.exists, exists_unit, ensure_eq_ok, borrowData_eq_ok,
    okOr_eq_ok, checkProgramAccount_eq_ok, nextAccountInfo_eq_ok] at h
  obtain ⟨sourceInfo, rest, rfl, mintInfo, rest', rfl, authorityInfo, signers, rfl, s, hs, hborrow,
    m, hm, hfrozen, hnative, -, hkey, -, base, hbase, howner, hmintOwner, newAmount, hamount, supply,
    hsupply, l₁, hwrite, hwrite'⟩ := h
  obtain ⟨-, rfl⟩ := Ledger.writeData_eq_ok.mp hwrite
  obtain ⟨-, rfl⟩ := Ledger.writeData_eq_ok.mp hwrite'
  have hne : sourceInfo.key ≠ mintInfo.key := fun e => hborrow (e ▸ List.mem_singleton_self _)
  have hauth : DebitAuthority ⟨x, env, .burn amount decimals,
      sourceInfo :: mintInfo :: authorityInfo :: signers, l⟩ s amount base := by
    unfold authorizeBurn at hbase
    split at hbase
    case isTrue hopen =>
      obtain rfl := Except.ok.inj hbase
      exact .burn ⟨amount, decimals, rfl⟩ hopen
    case isFalse =>
      refine authorizeDebit_eq_ok rfl rfl rfl (fun d hd => ⟨m, ?_, hd⟩) hbase
      rw [← hkey]
      exact hm
  exact ⟨sourceInfo.key, mintInfo.key, s, base, m, newAmount, supply,
    ⟨hne, howner, hmintOwner, (unpackAccount_eq_ok.mp hs).1, (unpackMint_eq_ok.mp hm).1, hkey.symm,
      hfrozen, hnative, rfl, rfl, hauth.base_eq.1, rfl, rfl⟩,
    hauth, checkedSub_eq_some.mp hamount, checkedSub_eq_some.mp hsupply⟩

theorem processBurn_step {amount : UInt64} {decimals : Option UInt8} (hcoherent : Coherent l)
    (h : processBurn env amount decimals accounts l = .ok l') (k : Pubkey) :
    RecordStep ⟨x, env, .burn amount decimals, accounts, l⟩ k (l k) (l' k) := by
  obtain ⟨j, mintKey, s, base, m, newAmount, supply, hchanged, hauth, hamount, hsupply⟩ :=
    processBurn_eq_ok (x := x) h
  refine hchanged.step hcoherent (Or.inl ?_) (.debit rfl hauth hchanged.notFrozen (fun _ => rfl)
    hamount rfl rfl (.refl _ _) (fun hsome => ?_) fun _ => UInt64.le_refl _) k
  · rw [UInt64.le_iff_toNat_le]
    dsimp only
    omega
  · rw [hchanged.nonNative] at hsome
    simp at hsome

/-! ### Closing -/

/-- A closed account: its lamports have gone to the destination, and nothing else
is left of it. -/
structure Closed (env : Env) (l l' : Ledger) (source destination : Pubkey)
    (authorityInfo : AccountInfo) (signers : List AccountInfo) : Prop where
  ne : source ≠ destination
  check : checkClose env l (l source).data destination authorityInfo signers = .ok ()
  owner : (l source).owner = programId
  source' : l' source = ⟨0, systemProgram, .zeroed 0 []⟩
  destinationOwner : (l' destination).owner = (l destination).owner
  destinationData : (l' destination).data = (l destination).data
  destinationLamports : (l' destination).lamports.toNat =
    (l destination).lamports.toNat + (l source).lamports.toNat
  others : ∀ k, k ≠ source → k ≠ destination → l' k = l k
  total : l'.totalLamports = l.totalLamports

theorem processCloseAccount_eq_ok (h : processCloseAccount env accounts l = .ok l') :
    ∃ sourceInfo destinationInfo authorityInfo signers,
      accounts = sourceInfo :: destinationInfo :: authorityInfo :: signers ∧
      Closed env l l' sourceInfo.key destinationInfo.key authorityInfo signers := by
  simp only [processCloseAccount, bind_eq_ok, Prod.exists, exists_unit, ensure_eq_ok,
    nextAccountInfo_eq_ok, okOr_eq_ok, Ledger.writeLamports_eq_ok, Ledger.deleteAccount_eq_ok] at h
  obtain ⟨sourceInfo, rest, rfl, destinationInfo, rest', rfl, authorityInfo, signers, rfl, hne,
    hcheck, total, htotal, l₁, ⟨-, rfl⟩, l₂, ⟨-, rfl⟩, howner, rfl⟩ := h
  refine ⟨sourceInfo, destinationInfo, authorityInfo, signers, rfl, ?_⟩
  have htotal := checkedAdd_eq_some.mp htotal
  have hsource : (l.setLamports destinationInfo.key total) sourceInfo.key = l sourceInfo.key :=
    Ledger.setLamports_of_ne hne
  rw [Ledger.setLamports_owner, Ledger.setLamports_owner] at howner
  refine ⟨hne, hcheck, howner, ?_, ?_, ?_, ?_, fun k hs hd => ?_, ?_⟩
  · rw [Function.update_self, Ledger.setLamports_self]
  · rw [Function.update_of_ne (Ne.symm hne), Ledger.setLamports_owner, Ledger.setLamports_owner]
  · rw [Function.update_of_ne (Ne.symm hne), Ledger.setLamports_data, Ledger.setLamports_data]
  · rw [Function.update_of_ne (Ne.symm hne), Ledger.setLamports_of_ne (Ne.symm hne),
      Ledger.setLamports_self]
    exact htotal
  · rw [Function.update_of_ne hs, Ledger.setLamports_of_ne hs, Ledger.setLamports_of_ne hd]
  · rw [Ledger.totalLamports_update, Ledger.totalLamports_setLamports,
      Ledger.totalLamports_setLamports, Ledger.setLamports_self, hsource]
    simp only [UInt64.toNat_zero]
    omega

/-- A mint is closed by its close authority, and has no supply. -/
theorem Closed.of_mint {source destination : Pubkey} {authorityInfo : AccountInfo}
    {signers : List AccountInfo} {m : PodStateWithExtensions PodMint}
    (h : Closed env l l' source destination authorityInfo signers)
    (hdata : (l source).data = .mint m) :
    ∃ v key, m.tlv.get .mintCloseAuthority = some v ∧ v.closeAuthority.toOption = some key ∧
      validateOwner l key authorityInfo signers = .ok () ∧ m.base.supply = 0 := by
  have hcheck := h.check
  unfold checkClose at hcheck
  split at hcheck
  case h_1 s hs => exact absurd (hdata.symm.trans (unpackAccount_eq_ok.mp hs).1) (by simp)
  case h_2 =>
    split at hcheck
    case h_1 m' hm =>
      obtain rfl := AccountData.mint.inj (hdata.symm.trans (unpackMint_eq_ok.mp hm).1)
      simp only [bind_eq_ok, exists_unit, ensure_eq_ok, okOr_eq_ok] at hcheck
      obtain ⟨v, hv, key, hkey, hauth, hsupply⟩ := hcheck
      exact ⟨v, key, PodStateWithExtensions.getExtension_eq_ok.mp hv, hkey, hauth, hsupply⟩
    case h_2 => simp at hcheck

/-- A token account is closed by its owner or close authority, and holds nothing
but lamports. -/
theorem Closed.of_account {source destination : Pubkey} {authorityInfo : AccountInfo}
    {signers : List AccountInfo} {s : PodStateWithExtensions PodAccount}
    (h : Closed env l l' source destination authorityInfo signers)
    (hs : (l source).data.unpackAccount = .ok s) :
    (s.base.isNative = none → s.base.amount = 0) ∧
      authorizeClose env l s destination authorityInfo signers = .ok () ∧
      checkClosable s = .ok () := by
  have hcheck := h.check
  unfold checkClose at hcheck
  rw [hs] at hcheck
  simp only [bind_eq_ok, exists_unit, ensure_eq_ok, not_and, not_not] at hcheck
  exact hcheck

theorem processCloseAccount_step (h : processCloseAccount env accounts l = .ok l') (k : Pubkey) :
    RecordStep ⟨x, env, .closeAccount, accounts, l⟩ k (l k) (l' k) := by
  obtain ⟨sourceInfo, destinationInfo, authorityInfo, signers, rfl, hclosed⟩ :=
    processCloseAccount_eq_ok h
  by_cases hs : k = sourceInfo.key
  · subst hs
    exact .close rfl rfl hclosed.owner (by rw [hclosed.source']) (by rw [hclosed.source'])
  by_cases hd : k = destinationInfo.key
  · subst hd
    refine .of_foreign ⟨fun ho => ⟨hclosed.destinationOwner.trans ho, hclosed.destinationData, ?_⟩,
      fun ho ho' => absurd (hclosed.destinationOwner.symm.trans ho') ho⟩
    rw [UInt64.le_iff_toNat_le, hclosed.destinationLamports]
    exact Nat.le_add_right _ _
  · rw [hclosed.others k hs hd]
    exact .refl _ k _

end BarkToken
