import BarkToken.Step.Write

/-!
# Settings of accounts and mints, step by step (Processor/Authority, Extension/Account,
Extension/Mint)
-/

namespace BarkToken
open Fallible AccountData

variable {x : Externals} {env : Env} {accounts : List AccountInfo} {l l' : Ledger}

/-- A setting written to an unpacked token account. -/
theorem neutralStep_of_account {c : Call} {k : Pubkey} {s s' : PodStateWithExtensions PodAccount}
    (hdata : (l k).data.unpackAccount = .ok s) (h : AccountUpdate c k (l k).lamports s s')
    (hwrite : l.writeData k (.account s') = .ok l') (j : Pubkey) :
    NeutralStep c j (l j) (l' j) :=
  forall_of_writeData (NeutralStep.refl c) hwrite
    (fun howner => .account howner howner (unpackAccount_eq_ok.mp hdata).1 rfl
      (UInt64.le_refl _) h) j

theorem processApprove_step {amount : UInt64} {decimals : Option UInt8}
    (h : processApprove env amount decimals accounts l = .ok l') (k : Pubkey) :
    NeutralStep ⟨x, env, .approve amount decimals, accounts, l⟩ k (l k) (l' k) := by
  simp only [processApprove, bind_eq_ok, Prod.exists, exists_unit, nextAccountInfo_eq_ok,
    takeExpectedMint_eq_ok, ensure_eq_ok, checkCpiGuard_eq_ok] at h
  obtain ⟨sourceInfo, rest, rfl, mint, rest', hmint, delegateInfo, rest'', rfl, ownerInfo, signers,
    rfl, source, hsource, hfrozen, -, howner, hguard, hwrite⟩ := h
  rcases hmint with ⟨rfl, -, rfl⟩ | ⟨d, info, rfl, -, rfl⟩
  · exact neutralStep_of_account hsource
      (.approve ⟨none, rfl, rfl, rfl⟩ (Call.authorisedBy rfl rfl rfl howner) hfrozen hguard) hwrite k
  · exact neutralStep_of_account hsource
      (.approve ⟨some d, rfl, rfl, rfl⟩ (Call.authorisedBy rfl rfl rfl howner) hfrozen hguard) hwrite
      k

theorem processRevoke_step (h : processRevoke accounts l = .ok l') (k : Pubkey) :
    NeutralStep ⟨x, env, .revoke, accounts, l⟩ k (l k) (l' k) := by
  simp only [processRevoke, bind_eq_ok, Prod.exists, exists_unit, nextAccountInfo_eq_ok,
    ensure_eq_ok] at h
  obtain ⟨sourceInfo, rest, rfl, authorityInfo, signers, rfl, source, hsource, hfrozen, howner,
    hwrite⟩ := h
  refine neutralStep_of_account hsource
    (.revoke (Call.authorisedBy rfl rfl rfl howner) hfrozen ?_ rfl) hwrite k
  unfold revokeAuthority
  split
  case isTrue hd => exact Or.inr hd
  case isFalse => exact Or.inl rfl

/-! ### SetAuthority -/

theorem setAccountAuthority_update {k : Pubkey} {lamports : UInt64}
    {authorityType : AuthorityType} {newAuthority : Option Pubkey}
    {s : PodStateWithExtensions PodAccount} {info authorityInfo : AccountInfo}
    {signers : List AccountInfo} {base : PodAccount}
    (h : setAccountAuthority env authorityType newAuthority l s authorityInfo signers = .ok base) :
    AccountUpdate ⟨x, env, .setAuthority authorityType newAuthority,
      info :: authorityInfo :: signers, l⟩ k lamports s { s with base := base } := by
  unfold setAccountAuthority at h
  cases authorityType with
  | accountOwner =>
    simp only [bind_eq_ok, exists_unit, ensure_eq_ok, checkCpiGuard_eq_ok, okOr_eq_ok,
      pure_eq_ok] at h
    obtain ⟨hfrozen, howner, himmutable, -, hlock, owner, rfl, rfl⟩ := h
    refine .setOwner (Call.authorisedBy rfl rfl rfl howner) hfrozen himmutable hlock ?_ rfl rfl
    split
    · exact Or.inl rfl
    · exact Or.inr rfl
  | closeAccount =>
    simp only [bind_eq_ok, exists_unit, ensure_eq_ok, pure_eq_ok] at h
    obtain ⟨hfrozen, hauth, hguard, rfl⟩ := h
    exact .setCloseAuthority (Call.authorisedBy rfl rfl rfl hauth) hfrozen hguard rfl
  | _ => simp [bind_eq_ok] at h

/-! ### Mint settings -/

theorem AuthorityStep.of_eq {c : Call} {holder holder' : Option Pubkey} (h : holder' = holder) :
    AuthorityStep c holder holder' := Or.inl h

/-- Only the fee configuration stores two authorities. -/
theorem ExtensionAuthority.eq_of_type {a b : ExtensionAuthority} (h : a.type = b.type)
    (hb : b.type ≠ .transferFeeConfig) : a = b := by
  cases b <;> cases a <;> first | rfl | exact absurd h (by decide) | exact absurd rfl hb

/-- A new value of an extension that stays valid. -/
def SettingContent (c : Call) (s : PodStateWithExtensions PodMint) :
    (t : ExtensionType) → t.Value → Prop
  | .transferFeeConfig, v => ∃ old, s.tlv.get .transferFeeConfig = some old ∧
      (old.RatesBounded → v.RatesBounded) ∧ FeesStep c old v
  | .defaultAccountState, v => v.state ≠ .uninitialized ∧ s.base.freezeAuthority.isSome
  | .confidentialTransferFeeConfig, v => ∃ old, s.tlv.get .confidentialTransferFeeConfig = some old ∧
      v.withdrawWithheldAuthorityElgamalPubkey = old.withdrawWithheldAuthorityElgamalPubkey
  | .interestBearingConfig, v => ∃ old, s.tlv.get .interestBearingConfig = some old ∧
      InterestStep c old v
  | .tokenGroup, _ => c.ix.writesGroup = true
  | .tokenGroupMember, _ => c.ix.isInitializeMember = true
  | _, _ => True

/-- The authorities in a new value of an extension. -/
def SettingAuthorities (c : Call) (s : PodStateWithExtensions PodMint) (t : ExtensionType)
    (v : t.Value) : Prop :=
  ∀ (a : ExtensionAuthority) (h : a.type = t) (old : t.Value), s.tlv.get t = some old →
    AuthorityStep c (a.key (h ▸ old)).toOption (a.key (h ▸ v)).toOption

/-- A new value of an extension: valid, and with authorities that may be so. -/
structure Setting (c : Call) (s : PodStateWithExtensions PodMint) (t : ExtensionType) (v : t.Value) :
    Prop where
  content : SettingContent c s t v
  authorities : SettingAuthorities c s t v

/-- What the mint withholds is left alone. -/
def KeepsWithheld (m : Tlv) : (t : ExtensionType) → t.Value → Prop
  | .transferFeeConfig, v => ∀ old, m.get .transferFeeConfig = some old →
      v.withheldAmount = old.withheldAmount
  | .confidentialTransferFeeConfig, v => ∀ old, m.get .confidentialTransferFeeConfig = some old →
      v.withheldAmount = old.withheldAmount
  | _, _ => True

section Settings

variable {c : Call} {s : PodStateWithExtensions PodMint}

theorem SettingAuthorities.of_single {a : ExtensionAuthority} {old v : a.type.Value}
    (ha : a.type ≠ .transferFeeConfig) (hold : s.tlv.get a.type = some old)
    (h : AuthorityStep c (a.key old).toOption (a.key v).toOption) :
    SettingAuthorities c s a.type v := by
  intro b hb w hw
  obtain rfl := ExtensionAuthority.eq_of_type hb ha
  obtain rfl := Option.some.inj (hold.symm.trans hw)
  exact h

theorem SettingAuthorities.of_fee {old v : TransferFeeConfig}
    (hold : s.tlv.get .transferFeeConfig = some old)
    (hconfig : AuthorityStep c old.transferFeeConfigAuthority.toOption
      v.transferFeeConfigAuthority.toOption)
    (hwithheld : AuthorityStep c old.withdrawWithheldAuthority.toOption
      v.withdrawWithheldAuthority.toOption) :
    SettingAuthorities c s .transferFeeConfig v := by
  intro a ha w hw
  obtain rfl := Option.some.inj (hold.symm.trans hw)
  cases a with
  | transferFeeConfig => exact hconfig
  | withheldWithdraw => exact hwithheld
  | _ => exact absurd ha (by decide)

theorem SettingAuthorities.of_none {t : ExtensionType} {v : t.Value}
    (h : ∀ a : ExtensionAuthority, a.type ≠ t) : SettingAuthorities c s t v :=
  fun a ha => absurd ha (h a)

theorem SettingAuthorities.of_new {t : ExtensionType} {v : t.Value} (h : s.tlv.get t = none) :
    SettingAuthorities c s t v := by
  intro a ha w hw
  rw [h] at hw
  simp at hw

theorem SettingContent.valid {t : ExtensionType} {v : t.Value} (h : SettingContent c s t v)
    (hm : s.tlv.Valid) : Tlv.Valid (s.tlv.put t v) where
  nodup := TypedStore.nodup_tags_put hm.nodup t v
  rates w hw := by
    by_cases ht : t = .transferFeeConfig
    · subst ht
      obtain ⟨old, hold, hrates, -⟩ := h
      rw [TypedStore.get_put_self] at hw
      obtain rfl := Option.some.inj hw
      exact hrates (hm.rates old hold)
    · rw [TypedStore.get_put_of_ne _ v (Ne.symm ht)] at hw
      exact hm.rates w hw
  defaultState w hw := by
    by_cases ht : t = .defaultAccountState
    · subst ht
      rw [TypedStore.get_put_self] at hw
      obtain rfl := Option.some.inj hw
      exact h.1
    · rw [TypedStore.get_put_of_ne _ v (Ne.symm ht)] at hw
      exact hm.defaultState w hw

theorem SettingContent.elgamalPubkey {t : ExtensionType} {v : t.Value} (h : SettingContent c s t v) :
    ((s.tlv.put t v).get .confidentialTransferFeeConfig).map
        ConfidentialTransferFeeConfig.withdrawWithheldAuthorityElgamalPubkey =
      (s.tlv.get .confidentialTransferFeeConfig).map
        ConfidentialTransferFeeConfig.withdrawWithheldAuthorityElgamalPubkey := by
  by_cases ht : t = .confidentialTransferFeeConfig
  · subst ht
    obtain ⟨old, hold, hkey⟩ := h
    simp only [TypedStore.get_put_self, hold, Option.map_some, hkey]
  · rw [TypedStore.get_put_of_ne _ v (Ne.symm ht)]

theorem SettingContent.fees {t : ExtensionType} {v : t.Value} (h : SettingContent c s t v)
    {w : TransferFeeConfig} (hw : s.tlv.get .transferFeeConfig = some w) :
    ∃ w', (s.tlv.put t v).get .transferFeeConfig = some w' ∧ FeesStep c w w' := by
  by_cases ht : t = .transferFeeConfig
  · subst ht
    obtain ⟨old, hold, -, hfees⟩ := h
    obtain rfl := Option.some.inj (hold.symm.trans hw)
    exact ⟨v, TypedStore.get_put_self _ _ _, hfees⟩
  · exact ⟨w, (TypedStore.get_put_of_ne _ v (Ne.symm ht)).trans hw, Or.inl ⟨rfl, rfl⟩⟩

theorem SettingContent.interest {t : ExtensionType} {v : t.Value} (h : SettingContent c s t v)
    {w : InterestBearingConfig} (hw : s.tlv.get .interestBearingConfig = some w) :
    ∃ w', (s.tlv.put t v).get .interestBearingConfig = some w' ∧ InterestStep c w w' := by
  by_cases ht : t = .interestBearingConfig
  · subst ht
    obtain ⟨old, hold, hinterest⟩ := h
    obtain rfl := Option.some.inj (hold.symm.trans hw)
    exact ⟨v, TypedStore.get_put_self _ _ _, hinterest⟩
  · exact ⟨w, (TypedStore.get_put_of_ne _ v (Ne.symm ht)).trans hw, Or.inl ⟨_, rfl⟩⟩

theorem Setting.holder {t : ExtensionType} {v : t.Value} (h : Setting c s t v) (a : MintAuthority)
    (holder : Option Pubkey) (ha : a.holder s = some holder) :
    ∃ holder', a.holder (s.setExtension t v) = some holder' ∧ AuthorityStep c holder holder' := by
  cases a with
  | mintTokens => exact ⟨holder, ha, Or.inl rfl⟩
  | freezeAccount => exact ⟨holder, ha, Or.inl rfl⟩
  | extension a =>
    obtain ⟨old, hold, rfl⟩ := Option.map_eq_some_iff.mp ha
    by_cases ht : a.type = t
    · subst ht
      refine ⟨(a.key v).toOption, ?_, h.authorities a rfl old hold⟩
      simp only [MintAuthority.holder, PodStateWithExtensions.setExtension_tlv,
        TypedStore.get_put_self, Option.map_some]
    · refine ⟨(a.key old).toOption, ?_, Or.inl rfl⟩
      simp only [MintAuthority.holder, PodStateWithExtensions.setExtension_tlv,
        TypedStore.get_put_of_ne _ v ht, hold, Option.map_some]

theorem SettingContent.group {t : ExtensionType} {v : t.Value} (h : SettingContent c s t v) :
    (s.tlv.put t v).get .tokenGroup = s.tlv.get .tokenGroup ∨ c.ix.writesGroup = true := by
  by_cases ht : t = .tokenGroup
  · subst ht
    exact Or.inr h
  · exact Or.inl (TypedStore.get_put_of_ne _ v (Ne.symm ht))

theorem SettingContent.member {t : ExtensionType} {v : t.Value} (h : SettingContent c s t v) :
    (s.tlv.put t v).get .tokenGroupMember = s.tlv.get .tokenGroupMember ∨
      c.ix.isInitializeMember = true := by
  by_cases ht : t = .tokenGroupMember
  · subst ht
    exact Or.inr h
  · exact Or.inl (TypedStore.get_put_of_ne _ v (Ne.symm ht))

/-- A new value of an extension that the mint has, or that an interface adds. -/
theorem mintStep_setExtension {k : Pubkey} {t : ExtensionType} {v : t.Value} (h : Setting c s t v)
    (ht : s.hasExtension t ∨ ∃ p, t.pointer = some p ∧ s.hasExtension p)
    (hcollected : mintWithheldAmount (s.setExtension t v) ≤ mintWithheldAmount s ∨ c.FindsFees k) :
    MintStep c k s (s.setExtension t v) where
  initialized := rfl
  decimals := rfl
  keeps u hu := (Tlv.ChangesOnly.put s.tlv v (List.mem_singleton_self t)).isSome_of_isSome hu
  adds u hu := by
    rcases (Tlv.ChangesOnly.put s.tlv v (List.mem_singleton_self t)).mem_of_isSome hu with hs | hmem
    · exact Or.inl hs
    · obtain rfl := List.mem_singleton.mp hmem
      exact ht
  valid hm := h.content.valid hm
  elgamalPubkey := h.content.elgamalPubkey
  authorities := h.holder
  issue := Or.inl (UInt64.le_refl _)
  freezeAuthority := Or.inl rfl
  defaultState := by
    by_cases hstate : t = .defaultAccountState
    · subst hstate
      exact Or.inr h.content.2
    · exact Or.inl (TypedStore.get_put_of_ne _ v (Ne.symm hstate))
  fees _ := h.content.fees
  interest _ := h.content.interest
  collected := hcollected
  group := h.content.group
  member := h.content.member
  base := .kept

theorem mintWithheldAmount_setExtension {t : ExtensionType} {v : t.Value}
    (ht : t ≠ .transferFeeConfig) :
    mintWithheldAmount (s.setExtension t v) = mintWithheldAmount s := by
  rw [mintWithheldAmount, PodStateWithExtensions.setExtension_tlv,
    TypedStore.get_put_of_ne _ v (Ne.symm ht), mintWithheldAmount]

/-- What a mint withholds, with a new value of an extension that leaves it alone. -/
theorem KeepsWithheld.withheld_eq {t : ExtensionType} {v : t.Value} (h : KeepsWithheld s.tlv t v)
    (hcontent : SettingContent c s t v) :
    ((s.setExtension t v).tlv.get .transferFeeConfig).map TransferFeeConfig.withheldAmount =
      (s.tlv.get .transferFeeConfig).map TransferFeeConfig.withheldAmount := by
  by_cases hfee : t = .transferFeeConfig
  · subst hfee
    obtain ⟨old, hold, -⟩ := hcontent
    simp only [PodStateWithExtensions.setExtension_tlv, TypedStore.get_put_self, hold,
      Option.map_some, h old hold]
  · rw [PodStateWithExtensions.setExtension_tlv, TypedStore.get_put_of_ne _ v (Ne.symm hfee)]

theorem mintUpdate_setExtension {k : Pubkey} {t : ExtensionType} {v : t.Value}
    (h : Setting c s t v) (hkeeps : KeepsWithheld s.tlv t v)
    (ht : s.hasExtension t ∨ ∃ p, t.pointer = some p ∧ s.hasExtension p) :
    MintUpdate c k s (s.setExtension t v) where
  toMintStep := mintStep_setExtension h ht (Or.inl (by
    rw [mintWithheldAmount, mintWithheldAmount, hkeeps.withheld_eq h.content]
    exact UInt64.le_refl _))
  supply := rfl
  withheld := hkeeps.withheld_eq h.content
  confidentialWithheld := by
    by_cases hfee : t = .confidentialTransferFeeConfig
    · subst hfee
      obtain ⟨old, hold, -⟩ := h.content
      simp only [PodStateWithExtensions.setExtension_tlv, TypedStore.get_put_self, hold,
        Option.map_some, hkeeps old hold]
    · rw [PodStateWithExtensions.setExtension_tlv, TypedStore.get_put_of_ne _ v (Ne.symm hfee)]

/-- The same for an extension that the mint has. -/
theorem mintUpdate_replace {k : Pubkey} {t : ExtensionType} {old v : t.Value}
    (hold : s.tlv.get t = some old) (h : Setting c s t v) (hkeeps : KeepsWithheld s.tlv t v) :
    MintUpdate c k s (s.setExtension t v) :=
  mintUpdate_setExtension h hkeeps
    (Or.inl (by rw [PodStateWithExtensions.hasExtension, hold]; rfl))

/-- The length of a mint does not matter. -/
theorem MintUpdate.of_len {k : Pubkey} {s' : PodStateWithExtensions PodMint}
    (h : MintUpdate c k s s') (len : ℕ) : MintUpdate c k s { s' with len := len } where
  initialized := h.initialized
  decimals := h.decimals
  keeps := h.keeps
  adds := h.adds
  valid := h.valid
  elgamalPubkey := h.elgamalPubkey
  authorities a holder ha := by
    obtain ⟨holder', ha', hstep⟩ := h.authorities a holder ha
    refine ⟨holder', ?_, hstep⟩
    cases a <;> exact ha'
  issue := h.issue
  freezeAuthority := h.freezeAuthority
  defaultState := h.defaultState
  fees := h.fees
  interest := h.interest
  collected := h.collected
  group := h.group
  member := h.member
  base := h.base
  supply := h.supply
  withheld := h.withheld
  confidentialWithheld := h.confidentialWithheld

/-- New authorities in the base state of a mint. -/
theorem MintUpdate.of_base {k : Pubkey} {mintAuthority freezeAuthority : Option Pubkey}
    (hmint : AuthorityStep c s.base.mintAuthority mintAuthority)
    (hfreeze : AuthorityStep c s.base.freezeAuthority freezeAuthority)
    (hix : freezeAuthority = s.base.freezeAuthority ∨
      c.ix = .setAuthority .freezeAccount freezeAuthority ∧ c.key 0 = some k)
    (hbase : MintBaseStep c s.base
      { s.base with mintAuthority := mintAuthority, freezeAuthority := freezeAuthority }) :
    MintUpdate c k s { s with base :=
      { s.base with mintAuthority := mintAuthority, freezeAuthority := freezeAuthority } } where
  initialized := rfl
  decimals := rfl
  keeps _ := id
  adds _ := Or.inl
  valid := id
  elgamalPubkey := rfl
  collected := Or.inl (UInt64.le_refl _)
  group := Or.inl rfl
  member := Or.inl rfl
  authorities a holder ha := by
    cases a with
    | mintTokens =>
      obtain rfl := Option.some.inj ha
      exact ⟨mintAuthority, rfl, hmint⟩
    | freezeAccount =>
      obtain rfl := Option.some.inj ha
      exact ⟨freezeAuthority, rfl, hfreeze⟩
    | extension a => exact ⟨holder, ha, Or.inl rfl⟩
  issue := Or.inl (UInt64.le_refl _)
  freezeAuthority := hix
  defaultState := Or.inl rfl
  fees v hv := ⟨v, hv, Or.inl ⟨rfl, rfl⟩⟩
  interest v hv := ⟨v, hv, Or.inl ⟨_, rfl⟩⟩
  base := hbase
  supply := rfl
  withheld := rfl
  confidentialWithheld := rfl

end Settings

/-- A setting written to an unpacked mint. -/
theorem neutralStep_of_mint {c : Call} {k : Pubkey} {s s' : PodStateWithExtensions PodMint}
    (hdata : (l k).data.unpackMint = .ok s) (hkey : NotNativeMint l k) (h : MintUpdate c k s s')
    (hwrite : l.writeData k (.mint s') = .ok l') (j : Pubkey) :
    NeutralStep c j (l j) (l' j) :=
  forall_of_writeData (NeutralStep.refl c) hwrite
    (fun howner => .mint howner howner (unpackMint_eq_ok.mp hdata).1 rfl (hkey howner) h) j

theorem NativeMintFixed.ne_of_get {k : Pubkey} {s : PodStateWithExtensions PodMint}
    {t : ExtensionType} {v : t.Value} (hfixed : NativeMintFixed l)
    (hdata : (l k).data.unpackMint = .ok s) (hget : s.tlv.get t = some v) :
    NotNativeMint l k := by
  rintro howner rfl
  obtain ⟨-, -, htlv⟩ := hfixed howner s (unpackMint_eq_ok.mp hdata).1
  rw [htlv] at hget
  simp at hget

theorem NativeMintFixed.ne_of_mintAuthority {k key : Pubkey} {s : PodStateWithExtensions PodMint}
    (hfixed : NativeMintFixed l) (hdata : (l k).data.unpackMint = .ok s)
    (hauthority : s.base.mintAuthority = some key) : NotNativeMint l k := by
  rintro howner rfl
  obtain ⟨hnone, -, -⟩ := hfixed howner s (unpackMint_eq_ok.mp hdata).1
  rw [hnone] at hauthority
  simp at hauthority

theorem NativeMintFixed.ne_of_freezeAuthority {k key : Pubkey}
    {s : PodStateWithExtensions PodMint} (hfixed : NativeMintFixed l)
    (hdata : (l k).data.unpackMint = .ok s) (hauthority : s.base.freezeAuthority = some key) :
    NotNativeMint l k := by
  rintro howner rfl
  obtain ⟨-, hnone, -⟩ := hfixed howner s (unpackMint_eq_ok.mp hdata).1
  rw [hnone] at hauthority
  simp at hauthority

/-- The new key is in place of one that approved it; what else the extension
stores stays. -/
theorem replaceExtensionAuthority_update {k : Pubkey} {a : ExtensionAuthority}
    {set : a.type.Value → OptionalNonZeroPubkey → a.type.Value}
    {authorityType : AuthorityType} {newAuthority : Option Pubkey}
    {s s' : PodStateWithExtensions PodMint} {info authorityInfo : AccountInfo}
    {signers : List AccountInfo} (hfixed : NativeMintFixed l)
    (hdata : (l k).data.unpackMint = .ok s)
    (hset : ∀ old new key, s.tlv.get a.type = some old → (a.key old).toOption = some key →
      (Call.mk x env (.setAuthority authorityType newAuthority) (info :: authorityInfo :: signers)
        l).AuthorisedBy key →
      Setting ⟨x, env, .setAuthority authorityType newAuthority, info :: authorityInfo :: signers, l⟩
        s a.type (set old new))
    (hkeeps : ∀ old new, s.tlv.get a.type = some old → KeepsWithheld s.tlv a.type (set old new))
    (h : replaceExtensionAuthority a.type a.key set newAuthority l s authorityInfo signers =
      .ok s') :
    MintUpdate ⟨x, env, .setAuthority authorityType newAuthority, info :: authorityInfo :: signers, l⟩
      k s s' ∧ NotNativeMint l k := by
  simp only [replaceExtensionAuthority, bind_eq_ok, exists_unit, pure_eq_ok, okOr_eq_ok,
    PodStateWithExtensions.getExtension_eq_ok] at h
  obtain ⟨old, hold, authority, hauthority, hvalidate, new, -, rfl⟩ := h
  exact ⟨mintUpdate_replace hold (hset old new authority hold hauthority
    (Call.authorisedBy rfl rfl rfl hvalidate)) (hkeeps old new hold), hfixed.ne_of_get hdata hold⟩

/-- The same where the extension stores no other authority and no fees. -/
theorem replaceExtensionAuthority_update_single {k : Pubkey} {a : ExtensionAuthority}
    {set : a.type.Value → OptionalNonZeroPubkey → a.type.Value}
    {authorityType : AuthorityType} {newAuthority : Option Pubkey}
    {s s' : PodStateWithExtensions PodMint} {info authorityInfo : AccountInfo}
    {signers : List AccountInfo} (hfixed : NativeMintFixed l)
    (hdata : (l k).data.unpackMint = .ok s) (ha : a.type ≠ .transferFeeConfig)
    (hcontent : ∀ (c : Call) old new, s.tlv.get a.type = some old →
      SettingContent c s a.type (set old new))
    (hkeeps : ∀ old new, s.tlv.get a.type = some old → KeepsWithheld s.tlv a.type (set old new))
    (h : replaceExtensionAuthority a.type a.key set newAuthority l s authorityInfo signers =
      .ok s') :
    MintUpdate ⟨x, env, .setAuthority authorityType newAuthority, info :: authorityInfo :: signers, l⟩
      k s s' ∧ NotNativeMint l k :=
  replaceExtensionAuthority_update hfixed hdata
    (fun old new key hold hkey hauth => ⟨hcontent _ old new hold,
      .of_single ha hold (Or.inr ⟨key, hkey, Or.inl hauth⟩)⟩) hkeeps h

theorem setMintAuthority_update {authorityType : AuthorityType}
    {newAuthority : Option Pubkey} {s s' : PodStateWithExtensions PodMint}
    {info authorityInfo : AccountInfo} {signers : List AccountInfo} (hfixed : NativeMintFixed l)
    (hdata : (l info.key).data.unpackMint = .ok s)
    (h : setMintAuthority authorityType newAuthority l s authorityInfo signers = .ok s') :
    MintUpdate ⟨x, env, .setAuthority authorityType newAuthority, info :: authorityInfo :: signers, l⟩
      info.key s s' ∧ NotNativeMint l info.key := by
  unfold setMintAuthority at h
  cases authorityType with
  | mintTokens =>
    simp only [bind_eq_ok, exists_unit, okOr_eq_ok, pure_eq_ok] at h
    obtain ⟨key, hkey, hauth, rfl⟩ := h
    exact ⟨.of_base (Or.inr ⟨key, hkey, Or.inl (Call.authorisedBy rfl rfl rfl hauth)⟩) (Or.inl rfl)
      (Or.inl rfl) (.mintAuthority rfl), hfixed.ne_of_mintAuthority hdata hkey⟩
  | freezeAccount =>
    simp only [bind_eq_ok, exists_unit, okOr_eq_ok, pure_eq_ok] at h
    obtain ⟨key, hkey, hauth, rfl⟩ := h
    exact ⟨.of_base (Or.inl rfl) (Or.inr ⟨key, hkey, Or.inl (Call.authorisedBy rfl rfl rfl hauth)⟩)
      (Or.inr ⟨rfl, rfl⟩) (.freezeAuthority rfl), hfixed.ne_of_freezeAuthority hdata hkey⟩
  | accountOwner => simp at h
  | closeAccount => simp at h
  | transferFeeConfig =>
    refine replaceExtensionAuthority_update (a := .transferFeeConfig) hfixed hdata
      (fun old new key hold hkey hauth => ?_) (fun old new hold w hw => ?_) h
    · exact ⟨⟨old, hold, fun hr => ⟨hr.older, hr.newer⟩, Or.inl ⟨rfl, rfl⟩⟩,
        .of_fee hold (Or.inr ⟨key, hkey, Or.inl hauth⟩) (Or.inl rfl)⟩
    · obtain rfl := Option.some.inj (hold.symm.trans hw)
      rfl
  | withheldWithdraw =>
    refine replaceExtensionAuthority_update (a := .withheldWithdraw) hfixed hdata
      (fun old new key hold hkey hauth => ?_) (fun old new hold w hw => ?_) h
    · exact ⟨⟨old, hold, fun hr => ⟨hr.older, hr.newer⟩, Or.inl ⟨rfl, rfl⟩⟩,
        .of_fee hold (Or.inl rfl) (Or.inr ⟨key, hkey, Or.inl hauth⟩)⟩
    · obtain rfl := Option.some.inj (hold.symm.trans hw)
      rfl
  | confidentialTransferFeeConfig =>
    refine replaceExtensionAuthority_update_single (a := .confidentialTransferFeeConfig) hfixed hdata
      (by decide) (fun _ old new hold => ?_) (fun old new hold w hw => ?_) h
    · exact ⟨old, hold, rfl⟩
    · obtain rfl := Option.some.inj (hold.symm.trans hw)
      rfl
  | closeMint =>
    exact replaceExtensionAuthority_update_single (a := .closeMint) hfixed hdata (by decide)
      (fun _ _ _ _ => trivial) (fun _ _ _ => trivial) h
  | interestRate =>
    exact replaceExtensionAuthority_update_single (a := .interestRate) hfixed hdata (by decide)
      (fun _ old _ hold => ⟨old, hold, Or.inl ⟨_, rfl⟩⟩) (fun _ _ _ => trivial) h
  | permanentDelegate =>
    exact replaceExtensionAuthority_update_single (a := .permanentDelegate) hfixed hdata (by decide)
      (fun _ _ _ _ => trivial) (fun _ _ _ => trivial) h
  | confidentialTransferMint =>
    exact replaceExtensionAuthority_update_single (a := .confidentialTransferMint) hfixed hdata
      (by decide) (fun _ _ _ _ => trivial) (fun _ _ _ => trivial) h
  | transferHookProgramId =>
    exact replaceExtensionAuthority_update_single (a := .transferHook) hfixed hdata (by decide)
      (fun _ _ _ _ => trivial) (fun _ _ _ => trivial) h
  | metadataPointer =>
    exact replaceExtensionAuthority_update_single (a := .metadataPointer) hfixed hdata (by decide)
      (fun _ _ _ _ => trivial) (fun _ _ _ => trivial) h
  | groupPointer =>
    exact replaceExtensionAuthority_update_single (a := .groupPointer) hfixed hdata (by decide)
      (fun _ _ _ _ => trivial) (fun _ _ _ => trivial) h
  | groupMemberPointer =>
    exact replaceExtensionAuthority_update_single (a := .groupMemberPointer) hfixed hdata (by decide)
      (fun _ _ _ _ => trivial) (fun _ _ _ => trivial) h

theorem processSetAuthority_step {authorityType : AuthorityType} {newAuthority : Option Pubkey}
    (hfixed : NativeMintFixed l)
    (h : processSetAuthority env authorityType newAuthority accounts l = .ok l') (k : Pubkey) :
    NeutralStep ⟨x, env, .setAuthority authorityType newAuthority, accounts, l⟩ k (l k) (l' k) := by
  simp only [processSetAuthority, bind_eq_ok, Prod.exists, nextAccountInfo_eq_ok] at h
  obtain ⟨accountInfo, rest, rfl, authorityInfo, signers, rfl, h⟩ := h
  split at h
  case h_1 account haccount =>
    simp only [bind_eq_ok] at h
    obtain ⟨base, hbase, hwrite⟩ := h
    exact neutralStep_of_account haccount (setAccountAuthority_update hbase) hwrite k
  case h_2 =>
    split at h
    case h_1 mint hmint =>
      simp only [bind_eq_ok] at h
      obtain ⟨mint', hset, hwrite⟩ := h
      obtain ⟨hupdate, hkey⟩ := setMintAuthority_update hfixed hmint hset
      exact neutralStep_of_mint hmint hkey hupdate hwrite k
    case h_2 => simp at h

theorem processToggleFreezeAccount_step {freeze : Bool}
    (h : processToggleFreezeAccount freeze accounts l = .ok l') (k : Pubkey) :
    NeutralStep ⟨x, env, .toggleFreezeAccount freeze, accounts, l⟩ k (l k) (l' k) := by
  simp only [processToggleFreezeAccount, bind_eq_ok, Prod.exists, exists_unit,
    nextAccountInfo_eq_ok, ensure_eq_ok, okOr_eq_ok] at h
  obtain ⟨sourceInfo, rest, rfl, mintInfo, rest', rfl, authorityInfo, signers, rfl, source, hsource,
    -, hnative, hmint, -, mint, hunpack, key, hkey, hauth, hwrite⟩ := h
  rw [hmint] at hunpack
  have hupdate (lamports : UInt64) : AccountUpdate ⟨x, env, .toggleFreezeAccount freeze,
      sourceInfo :: mintInfo :: authorityInfo :: signers, l⟩ sourceInfo.key lamports source { source with
        base := { source.base with state := if freeze then .frozen else .initialized } } :=
    .setState rfl rfl hnative hunpack hkey (Call.authorisedBy rfl rfl rfl hauth)
  exact neutralStep_of_account hsource (hupdate _) hwrite k

/-! ### Account settings -/

theorem setOrInitExtension_eq_ok {s s' : PodStateWithExtensions PodAccount} {t : ExtensionType}
    {v : t.Value} (h : setOrInitExtension s t v = .ok s') : s' = s.setExtension t v := by
  unfold setOrInitExtension at h
  split at h
  · exact (Except.ok.inj h).symm
  · simp only [bind_eq_ok, pure_eq_ok] at h
    obtain ⟨s₁, hinit, rfl⟩ := h
    obtain ⟨rfl, -⟩ := PodStateWithExtensions.initExtension_eq_ok hinit
    simp [PodStateWithExtensions.setExtension]

theorem processToggleRequiredMemoTransfers_step {enable : Bool}
    (h : processToggleRequiredMemoTransfers enable accounts l = .ok l') (k : Pubkey) :
    NeutralStep ⟨x, env, .toggleRequiredMemoTransfers enable, accounts, l⟩ k (l k) (l' k) := by
  simp only [processToggleRequiredMemoTransfers, bind_eq_ok, Prod.exists, exists_unit,
    nextAccountInfo_eq_ok] at h
  obtain ⟨tokenAccountInfo, rest, rfl, ownerInfo, signers, rfl, account, haccount, howner, account',
    hset, hwrite⟩ := h
  obtain rfl := setOrInitExtension_eq_ok hset
  exact neutralStep_of_account haccount (.memo (Call.authorisedBy rfl rfl rfl howner)) hwrite k

theorem processToggleCpiGuard_step {enable : Bool}
    (h : processToggleCpiGuard env enable accounts l = .ok l') (k : Pubkey) :
    NeutralStep ⟨x, env, .toggleCpiGuard enable, accounts, l⟩ k (l k) (l' k) := by
  simp only [processToggleCpiGuard, bind_eq_ok, Prod.exists, exists_unit, nextAccountInfo_eq_ok,
    ensure_eq_ok] at h
  obtain ⟨tokenAccountInfo, rest, rfl, ownerInfo, signers, rfl, account, haccount, howner, hcpi,
    account', hset, hwrite⟩ := h
  obtain rfl := setOrInitExtension_eq_ok hset
  exact neutralStep_of_account haccount (.guard (Call.authorisedBy rfl rfl rfl howner) hcpi)
    hwrite k

/-! ### Mint extensions -/

/-- An extension changed under the authority it stores. -/
theorem updateMintExtension_step {c : Call} {t : ExtensionType}
    {authority : t.Value → OptionalNonZeroPubkey} {update : t.Value → Except Fault t.Value}
    (hfixed : NativeMintFixed l)
    (hset : ∀ (s : PodStateWithExtensions PodMint) old new, s.tlv.get t = some old →
      update old = .ok new → Setting c s t new ∧ KeepsWithheld s.tlv t new)
    (h : updateMintExtension t authority update accounts l = .ok l') (k : Pubkey) :
    NeutralStep c k (l k) (l' k) := by
  simp only [updateMintExtension, bind_eq_ok, Prod.exists, exists_unit,
    PodStateWithExtensions.getExtension_eq_ok] at h
  obtain ⟨mintInfo, rest, -, ownerInfo, signers, -, mint, hmint, old, hold, owner, -, -, new, hnew,
    hwrite⟩ := h
  obtain ⟨hsetting, hkeeps⟩ := hset _ old new hold hnew
  exact neutralStep_of_mint hmint (hfixed.ne_of_get hmint hold)
    (mintUpdate_replace hold hsetting hkeeps) hwrite k

theorem processUpdateRate_step {c : Call} {rate : Int16} (hfixed : NativeMintFixed l)
    (hix : c.ix = .updateRate rate)
    (h : processUpdateRate env rate accounts l = .ok l') (k : Pubkey) :
    NeutralStep c k (l k) (l' k) := by
  refine updateMintExtension_step hfixed (fun s old new hold hnew => ?_) h k
  simp only [bind_eq_ok, pure_eq_ok] at hnew
  obtain ⟨average, -, rfl⟩ := hnew
  exact ⟨⟨⟨old, hold, Or.inr ⟨rate, hix⟩⟩, .of_single (a := .interestRate) (by decide) hold
    (.of_eq rfl)⟩, trivial⟩

theorem processUpdateTransferHook_step {c : Call} {hookProgram : OptionalNonZeroPubkey}
    (hfixed : NativeMintFixed l)
    (h : processUpdateTransferHook hookProgram accounts l = .ok l') (k : Pubkey) :
    NeutralStep c k (l k) (l' k) := by
  refine updateMintExtension_step hfixed (fun s old new hold hnew => ?_) h k
  simp only [bind_eq_ok, exists_unit, pure_eq_ok] at hnew
  obtain ⟨-, rfl⟩ := hnew
  exact ⟨⟨trivial, .of_single (a := .transferHook) (by decide) hold (.of_eq rfl)⟩, trivial⟩

theorem processUpdateMetadataPointer_step {c : Call} {address : OptionalNonZeroPubkey}
    (hfixed : NativeMintFixed l)
    (h : processUpdateMetadataPointer address accounts l = .ok l') (k : Pubkey) :
    NeutralStep c k (l k) (l' k) := by
  refine updateMintExtension_step hfixed (fun s old new hold hnew => ?_) h k
  obtain rfl := pure_eq_ok.mp hnew
  exact ⟨⟨trivial, .of_single (a := .metadataPointer) (by decide) hold (.of_eq rfl)⟩, trivial⟩

theorem processUpdateGroupPointer_step {c : Call} {address : OptionalNonZeroPubkey}
    (hfixed : NativeMintFixed l)
    (h : processUpdateGroupPointer address accounts l = .ok l') (k : Pubkey) :
    NeutralStep c k (l k) (l' k) := by
  refine updateMintExtension_step hfixed (fun s old new hold hnew => ?_) h k
  obtain rfl := pure_eq_ok.mp hnew
  exact ⟨⟨trivial, .of_single (a := .groupPointer) (by decide) hold (.of_eq rfl)⟩, trivial⟩

theorem processUpdateGroupMemberPointer_step {c : Call} {address : OptionalNonZeroPubkey}
    (hfixed : NativeMintFixed l)
    (h : processUpdateGroupMemberPointer address accounts l = .ok l') (k : Pubkey) :
    NeutralStep c k (l k) (l' k) := by
  refine updateMintExtension_step hfixed (fun s old new hold hnew => ?_) h k
  obtain rfl := pure_eq_ok.mp hnew
  exact ⟨⟨trivial, .of_single (a := .groupMemberPointer) (by decide) hold (.of_eq rfl)⟩, trivial⟩

theorem processUpdateDefaultAccountState_step {c : Call} {state : AccountState}
    (hfixed : NativeMintFixed l)
    (h : processUpdateDefaultAccountState state accounts l = .ok l') (k : Pubkey) :
    NeutralStep c k (l k) (l' k) := by
  simp only [processUpdateDefaultAccountState, checkValidDefaultState, bind_eq_ok, Prod.exists,
    exists_unit, ensure_eq_ok, okOr_eq_ok] at h
  obtain ⟨hstate, mintInfo, rest, -, authorityInfo, signers, -, mint, hmint, key, hkey, -, old, hold,
    hwrite⟩ := h
  have hold := PodStateWithExtensions.getExtension_eq_ok.mp hold
  have hfreeze : mint.base.freezeAuthority.isSome := Option.isSome_of_eq_some hkey
  refine neutralStep_of_mint hmint (hfixed.ne_of_get hmint hold)
    (mintUpdate_replace (t := .defaultAccountState) hold ⟨⟨hstate, hfreeze⟩, .of_none fun a => ?_⟩
      trivial) hwrite k
  cases a <;> decide

theorem processUpdateConfidentialTransferMint_step {c : Call} {autoApprove : Bool}
    {auditor : OptionalNonZeroElGamalPubkey} (hfixed : NativeMintFixed l)
    (h : processUpdateConfidentialTransferMint autoApprove auditor accounts l = .ok l')
    (k : Pubkey) : NeutralStep c k (l k) (l' k) := by
  simp only [processUpdateConfidentialTransferMint, bind_eq_ok, Prod.exists, exists_unit] at h
  obtain ⟨mintInfo, rest, -, authorityInfo, signers, -, -, mint, hmint, old, hold, key, -, -, -,
    hwrite⟩ := h
  have hold := PodStateWithExtensions.getExtension_eq_ok.mp hold
  refine neutralStep_of_mint hmint (hfixed.ne_of_get hmint hold)
    (mintUpdate_replace (t := .confidentialTransferMint) hold ⟨trivial, ?_⟩ trivial) hwrite k
  exact .of_single (a := .confidentialTransferMint) (by decide) hold (.of_eq rfl)

theorem processToggleHarvestToMint_step {c : Call} {enable : Bool} (hfixed : NativeMintFixed l)
    (h : processToggleHarvestToMint enable accounts l = .ok l') (k : Pubkey) :
    NeutralStep c k (l k) (l' k) := by
  simp only [processToggleHarvestToMint, bind_eq_ok, Prod.exists, exists_unit] at h
  obtain ⟨mintInfo, rest, -, -, h⟩ := h
  refine updateMintExtension_step hfixed (fun s old new hold hnew => ?_) h k
  obtain rfl := pure_eq_ok.mp hnew
  refine ⟨⟨⟨old, hold, rfl⟩, .of_single (a := .confidentialTransferFeeConfig) (by decide) hold
    (.of_eq rfl)⟩, fun w hw => ?_⟩
  obtain rfl := Option.some.inj (hold.symm.trans hw)
  rfl

/-- The fee changes, within one hundred percent. -/
theorem TransferFeeConfig.RatesBounded.setFee {config : TransferFeeConfig} (h : config.RatesBounded)
    {epoch maximumFee : UInt64} {basisPoints : UInt16} (hrate : basisPoints.toNat ≤ maxFeeBasisPoints) :
    (config.setFee epoch maximumFee basisPoints).RatesBounded where
  older := by
    unfold TransferFeeConfig.setFee
    dsimp only
    split
    · exact h.newer
    · exact h.older
  newer := hrate

theorem processSetTransferFee_step {basisPoints : UInt16} {maximumFee : UInt64}
    (hfixed : NativeMintFixed l)
    (h : processSetTransferFee env basisPoints maximumFee accounts l = .ok l') (k : Pubkey) :
    NeutralStep ⟨x, env, .setTransferFee basisPoints maximumFee, accounts, l⟩ k (l k) (l' k) := by
  simp only [processSetTransferFee, bind_eq_ok, Prod.exists, exists_unit, ensure_eq_ok] at h
  obtain ⟨mintInfo, rest, -, authorityInfo, signers, -, mint, hmint, old, hold, key, -, -, hrate,
    hwrite⟩ := h
  have hold := PodStateWithExtensions.getExtension_eq_ok.mp hold
  refine neutralStep_of_mint hmint (hfixed.ne_of_get hmint hold)
    (mintUpdate_replace (t := .transferFeeConfig) hold ⟨⟨old, hold, fun hr => hr.setFee hrate,
      Or.inr ⟨basisPoints, maximumFee, rfl, rfl⟩⟩, .of_fee hold (.of_eq rfl) (.of_eq rfl)⟩
      fun w hw => ?_) hwrite k
  obtain rfl := Option.some.inj (hold.symm.trans hw)
  rfl

end BarkToken
