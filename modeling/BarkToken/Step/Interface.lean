import BarkToken.Step.Authority

/-!
# Metadata and groups, step by step (Extension/Interface)
-/

namespace BarkToken
open Fallible AccountData

variable {c : Call} {accounts : List AccountInfo} {l l' : Ledger}

/-- The extensions that the interfaces write into an initialised mint. -/
def IsInterface (t : ExtensionType) : Prop :=
  t ∈ [ExtensionType.tokenMetadata, .tokenGroup, .tokenGroupMember]

theorem IsInterface.keepsWithheld {t : ExtensionType} (ht : IsInterface t) (m : Tlv) (v : t.Value) :
    KeepsWithheld m t v := by
  simp only [IsInterface, List.mem_cons, List.not_mem_nil, or_false] at ht
  rcases ht with rfl | rfl | rfl
  all_goals trivial

/-- A mint rewritten with one interface extension, whatever its new length. -/
theorem IsInterface.mintUpdate {k : Pubkey} {t : ExtensionType} (ht : IsInterface t)
    {s : PodStateWithExtensions PodMint} {v : t.Value} (h : Setting c s t v)
    (hpointed : s.hasExtension t ∨ ∃ p, t.pointer = some p ∧ s.hasExtension p) (len : ℕ) :
    MintUpdate c k s ({ s with len := len }.setExtension t v) :=
  (mintUpdate_setExtension h (ht.keepsWithheld s.tlv v) hpointed).of_len len

/-- A mint rewritten in place, with nothing but settings changed. -/
def MintRewritten (c : Call) (l l' : Ledger) (k : Pubkey) : Prop :=
  ∃ mint mint', (l k).data.unpackMint = .ok mint ∧ MintUpdate c k mint mint' ∧
    l.writeData k (.mint mint') = .ok l'

theorem MintRewritten.neutralStep {k : Pubkey} (h : MintRewritten c l l' k)
    (hkey : NotNativeMint l k) (j : Pubkey) : NeutralStep c j (l j) (l' j) := by
  obtain ⟨mint, mint', hmint, hupdate, hwrite⟩ := h
  exact neutralStep_of_mint hmint hkey hupdate hwrite j

theorem MintRewritten.of_ne {k j : Pubkey} (h : MintRewritten c l l' k) (hj : j ≠ k) :
    l' j = l j := by
  obtain ⟨mint, mint', -, -, hwrite⟩ := h
  obtain ⟨-, rfl⟩ := Ledger.writeData_eq_ok.mp hwrite
  exact Ledger.setData_of_ne hj

/-- A mint at `k` carries the pointer that an extension of type `t` needs. -/
def PointedAt (l : Ledger) (k : Pubkey) (t : ExtensionType) : Prop :=
  ∀ mint, (l k).data.unpackMint = .ok mint → ∃ p, t.pointer = some p ∧ mint.hasExtension p

/-- A new extension, written without overwriting. -/
theorem allocAndSerialize_eq_ok {t : ExtensionType} {v : t.Value} {k : Pubkey}
    (ht : IsInterface t) (hcontent : ∀ mint, SettingContent c mint t v) (hpointed : PointedAt l k t)
    (h : allocAndSerialize t v false k l = .ok l') : MintRewritten c l l' k := by
  simp only [allocAndSerialize, bind_eq_ok, exists_unit] at h
  obtain ⟨mint, hmint, -, mint', hinit, hwrite⟩ := h
  obtain ⟨rfl, hnone⟩ := PodStateWithExtensions.initExtension_eq_ok hinit
  have hnew : SettingAuthorities c mint t v := .of_new (hnone rfl)
  exact ⟨mint, _, hmint, ht.mintUpdate ⟨hcontent mint, hnew⟩ (Or.inr (hpointed mint hmint)) _,
    hwrite⟩

theorem putVariableLenExtension_eq_ok {s s' : PodStateWithExtensions PodMint} {t : ExtensionType}
    {v : t.Value} (h : putVariableLenExtension s t v = .ok s') : s' = s.setExtension t v := by
  unfold putVariableLenExtension at h
  split at h
  · simp only [reallocVariableLenExtension, bind_eq_ok, exists_unit, pure_eq_ok] at h
    obtain ⟨old, -, -, -, rfl⟩ := h
    rfl
  · exact (PodStateWithExtensions.initExtension_eq_ok h).1

theorem allocAndSerializeVariableLenExtension_eq_ok {t : ExtensionType} {v : t.Value}
    {overwrite : Bool} {k : Pubkey} (ht : IsInterface t)
    (hauth : ∀ mint, (l k).data.unpackMint = .ok mint →
      ¬ (mint.hasExtension t ∧ overwrite = false) → Setting c mint t v ∧
        (mint.hasExtension t ∨ ∃ p, t.pointer = some p ∧ mint.hasExtension p))
    (h : allocAndSerializeVariableLenExtension t v overwrite k l = .ok l') :
    MintRewritten c l l' k := by
  simp only [allocAndSerializeVariableLenExtension, bind_eq_ok, exists_unit, ensure_eq_ok] at h
  obtain ⟨mint, hmint, hoverwrite, -, mint', hput, hwrite⟩ := h
  obtain rfl := putVariableLenExtension_eq_ok hput
  obtain ⟨hsetting, hpointed⟩ := hauth mint hmint hoverwrite
  exact ⟨mint, _, hmint, ht.mintUpdate hsetting hpointed _, hwrite⟩

/-- The stored update authority has signed. -/
theorem checkUpdateAuthority_eq_ok {immutable incorrect : InterfaceError} {info : AccountInfo}
    {expected : OptionalNonZeroPubkey} {u : Unit}
    (h : checkUpdateAuthority immutable incorrect info expected = .ok u) :
    info.isSigner = true ∧ expected.toOption = some info.key := by
  simp only [checkUpdateAuthority, bind_eq_ok, exists_unit, ensure_eq_ok, okOr_eq_ok] at h
  obtain ⟨hsigner, key, hkey, rfl⟩ := h
  exact ⟨hsigner, hkey⟩

/-- The interfaces work on mints with a pointer, so never on the native mint. -/
theorem checkMintForInterface_key {pointer : ExtensionType}
    {extensionInfo mintInfo mintAuthorityInfo : AccountInfo} {u : Unit} (hfixed : NativeMintFixed l)
    (h : checkMintForInterface pointer extensionInfo mintInfo mintAuthorityInfo l = .ok u) :
    NotNativeMint l extensionInfo.key := by
  simp only [checkMintForInterface, bind_eq_ok, exists_unit, ensure_eq_ok] at h
  obtain ⟨hkey, -, mint, hmint, -, hauthority, -⟩ := h
  rw [hkey]
  exact hfixed.ne_of_mintAuthority hmint hauthority

theorem checkMintForInterface_pointed {pointer t : ExtensionType}
    {extensionInfo mintInfo mintAuthorityInfo : AccountInfo} {u : Unit}
    (ht : t.pointer = some pointer)
    (h : checkMintForInterface pointer extensionInfo mintInfo mintAuthorityInfo l = .ok u) :
    PointedAt l extensionInfo.key t := by
  simp only [checkMintForInterface, bind_eq_ok, exists_unit, ensure_eq_ok] at h
  obtain ⟨hkey, -, mint, hmint, -, -, hpointer⟩ := h
  intro mint' hmint'
  rw [hkey] at hmint'
  obtain rfl := Except.ok.inj (hmint.symm.trans hmint')
  exact ⟨pointer, ht, hpointer⟩

theorem processInitializeMetadata_step {name symbol uri : String} (hfixed : NativeMintFixed l)
    (h : processInitializeMetadata name symbol uri accounts l = .ok l') (k : Pubkey) :
    NeutralStep c k (l k) (l' k) := by
  simp only [processInitializeMetadata, bind_eq_ok, Prod.exists, exists_unit] at h
  obtain ⟨metadataInfo, rest, -, authorityInfo, rest', -, mintInfo, rest'', -, mintAuthorityInfo,
    rest₃, -, hcheck, authority, -, halloc⟩ := h
  refine (allocAndSerializeVariableLenExtension_eq_ok (t := .tokenMetadata) (by simp [IsInterface])
    (fun mint hmint hoverwrite => ⟨⟨trivial, .of_new ?_⟩, Or.inr
      (checkMintForInterface_pointed (t := .tokenMetadata) rfl hcheck mint hmint)⟩)
    halloc).neutralStep (checkMintForInterface_key hfixed hcheck) k
  exact Option.not_isSome_iff_eq_none.mp fun hsome => hoverwrite ⟨hsome, rfl⟩

theorem updateTokenMetadata_step {x : Externals} {env : Env} {ix : TokenInstruction}
    {update : TokenMetadata → Except Fault TokenMetadata}
    (hfixed : NativeMintFixed l) (h : updateTokenMetadata update accounts l = .ok l')
    (k : Pubkey) : NeutralStep ⟨x, env, ix, accounts, l⟩ k (l k) (l' k) := by
  simp only [updateTokenMetadata, bind_eq_ok, Prod.exists, exists_unit, nextAccountInfo_eq_ok] at h
  obtain ⟨metadataInfo, rest, rfl, authorityInfo, rest', rfl, mint, hmint, old, hold, hcheck, new, -,
    halloc⟩ := h
  have hold := PodStateWithExtensions.getExtension_eq_ok.mp hold
  obtain ⟨hsigner, hkey⟩ := checkUpdateAuthority_eq_ok hcheck
  refine (allocAndSerializeVariableLenExtension_eq_ok (by simp [IsInterface])
    (fun mint' hmint' _ => ?_) halloc).neutralStep (hfixed.ne_of_get hmint hold) k
  obtain rfl := Except.ok.inj (hmint.symm.trans hmint')
  exact ⟨⟨trivial, .of_single (a := .tokenMetadata) (by decide) hold
    (Or.inr ⟨_, hkey, Or.inr ⟨authorityInfo, by simp, rfl, hsigner⟩⟩)⟩,
    Or.inl (Option.isSome_of_eq_some hold)⟩

theorem processInitializeGroup_step {authority : OptionalNonZeroPubkey} {maxSize : UInt32}
    (hfixed : NativeMintFixed l) (hix : c.ix.writesGroup = true)
    (h : processInitializeGroup authority maxSize accounts l = .ok l') (k : Pubkey) :
    NeutralStep c k (l k) (l' k) := by
  simp only [processInitializeGroup, bind_eq_ok, Prod.exists, exists_unit] at h
  obtain ⟨groupInfo, rest, -, mintInfo, rest', -, mintAuthorityInfo, rest'', -, hcheck, halloc⟩ := h
  exact (allocAndSerialize_eq_ok (t := .tokenGroup) (by simp [IsInterface]) (fun _ => hix)
    (checkMintForInterface_pointed rfl hcheck) halloc).neutralStep
    (checkMintForInterface_key hfixed hcheck) k

/-- A group changed under the signature of its update authority. -/
theorem neutralStep_of_group {k : Pubkey} {mint : PodStateWithExtensions PodMint}
    {group group' : TokenGroup} {info : AccountInfo} {immutable incorrect : InterfaceError}
    (hfixed : NativeMintFixed l) (hix : c.ix.writesGroup = true)
    (hmint : (l k).data.unpackMint = .ok mint)
    (hgroup : mint.tlv.get .tokenGroup = some group) (hinfo : info ∈ c.accounts)
    (hcheck : checkUpdateAuthority immutable incorrect info group.updateAuthority = .ok ())
    (hwrite : l.writeData k (.mint (mint.setExtension .tokenGroup group')) = .ok l') (j : Pubkey) :
    NeutralStep c j (l j) (l' j) := by
  obtain ⟨hsigner, hkey⟩ := checkUpdateAuthority_eq_ok hcheck
  exact neutralStep_of_mint hmint (hfixed.ne_of_get hmint hgroup)
    (mintUpdate_replace (t := .tokenGroup) hgroup ⟨hix, .of_single (a := .tokenGroup) (by decide)
      hgroup (Or.inr ⟨_, hkey, Or.inr ⟨info, hinfo, rfl, hsigner⟩⟩)⟩ trivial) hwrite j

theorem updateTokenGroup_step {x : Externals} {env : Env} {ix : TokenInstruction}
    {update : TokenGroup → Except Fault TokenGroup}
    (hfixed : NativeMintFixed l) (hix : ix.writesGroup = true)
    (h : updateTokenGroup update accounts l = .ok l') (k : Pubkey) :
    NeutralStep ⟨x, env, ix, accounts, l⟩ k (l k) (l' k) := by
  simp only [updateTokenGroup, bind_eq_ok, Prod.exists, exists_unit, nextAccountInfo_eq_ok] at h
  obtain ⟨groupInfo, rest, rfl, authorityInfo, rest', rfl, mint, hmint, old, hold, hcheck, new, -,
    hwrite⟩ := h
  exact neutralStep_of_group hfixed hix hmint (PodStateWithExtensions.getExtension_eq_ok.mp hold)
    (by simp) hcheck hwrite k

theorem processInitializeMember_step {x : Externals} {env : Env} (hfixed : NativeMintFixed l)
    (h : processInitializeMember x accounts l = .ok l') (k : Pubkey) :
    NeutralStep ⟨x, env, .initializeMember, accounts, l⟩ k (l k) (l' k) := by
  simp only [processInitializeMember, bind_eq_ok, Prod.exists, exists_unit, ensure_eq_ok,
    nextAccountInfo_eq_ok] at h
  obtain ⟨memberInfo, rest, rfl, memberMintInfo, rest', rfl, memberAuthorityInfo, rest'', rfl,
    groupInfo, rest₃, rfl, groupAuthorityInfo, rest₄, rfl, hcheck, hne, groupMint, hgroupMint, group,
    hgroup, hauth, group', number, -, l₁, hwrite, halloc⟩ := h
  have hgroup := PodStateWithExtensions.getExtension_eq_ok.mp hgroup
  obtain ⟨-, hl₁⟩ := Ledger.writeData_eq_ok.mp hwrite
  have hsame : l₁ memberInfo.key = l memberInfo.key := by
    rw [hl₁, Ledger.setData_of_ne hne]
  have hpointed : PointedAt l₁ memberInfo.key .tokenGroupMember := by
    rw [PointedAt, hsame]
    exact checkMintForInterface_pointed rfl hcheck
  have hmember : MintRewritten ⟨x, env, .initializeMember, memberInfo :: memberMintInfo ::
      memberAuthorityInfo :: groupInfo :: groupAuthorityInfo :: rest₄, l⟩ l₁ l' memberInfo.key :=
    allocAndSerialize_eq_ok (t := .tokenGroupMember) (by simp [IsInterface]) (fun _ => rfl) hpointed
      halloc
  by_cases hk : k = memberInfo.key
  · subst hk
    have hkey : NotNativeMint l₁ memberInfo.key := fun howner =>
      checkMintForInterface_key hfixed hcheck (by rwa [hsame] at howner)
    have hstep := hmember.neutralStep hkey memberInfo.key
    rwa [hsame] at hstep
  · rw [hmember.of_ne hk]
    exact neutralStep_of_group hfixed rfl hgroupMint hgroup (by simp) hauth hwrite k

end BarkToken
