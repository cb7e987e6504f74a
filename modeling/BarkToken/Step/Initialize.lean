import BarkToken.Step.Authority

/-!
# Initialisation, step by step (Processor/Initialize, Extension/Mint, Extension/Interface)
-/

namespace BarkToken
open Fallible CheckedWord AccountData

variable {env : Env} {accounts : List AccountInfo} {l l' : Ledger}

/-! ### Extensions ahead of their mint -/

/-- What `FreshExtension` asks of each type's value. -/
def FreshValue : (t : ExtensionType) → t.Value → Prop
  | .transferFeeConfig, v => v.RatesBounded ∧ v.withheldAmount = 0
  | .defaultAccountState, v => v.state ≠ .uninitialized
  | .confidentialTransferFeeConfig, v => v.withheldAmount = .zeroed
  | .tokenMetadata, _ | .tokenGroup, _ | .tokenGroupMember, _ => False
  | _, _ => True

/-- What the value of one type has to satisfy, and all that were there do. -/
theorem forall_get_put {m : Tlv} {t u : ExtensionType} {v : t.Value} {P : u.Value → Prop}
    (hm : ∀ w, m.get u = some w → P w) (hv : ∀ h : t = u, P (h ▸ v)) :
    ∀ w, (m.put t v).get u = some w → P w := by
  intro w hw
  by_cases ht : t = u
  · subst ht
    rw [TypedStore.get_put_self] at hw
    exact Option.some.inj hw ▸ hv rfl
  · rw [TypedStore.get_put_of_ne m v (Ne.symm ht)] at hw
    exact hm w hw

theorem FreshExtension.of_value {t : ExtensionType} {v : t.Value}
    (hkind : t.accountType = .mint ∨ t = .immutableOwner) (h : FreshValue t v) :
    FreshExtension t v where
  kind := hkind
  fresh m hm :=
    { nodup := TypedStore.nodup_tags_put hm.nodup t v
      rates := forall_get_put hm.rates fun ht => by
        subst ht
        exact h.1
      defaultState := forall_get_put hm.defaultState fun ht => by
        subst ht
        exact h
      withheld := forall_get_put hm.withheld fun ht => by
        subst ht
        exact h.2
      confidentialWithheld := forall_get_put hm.confidentialWithheld fun ht => by
        subst ht
        exact h
      unpointed := fun u hu => by
        have hne : u ≠ t := by
          rintro rfl
          cases u <;> first | exact h | cases hu
        rw [TypedStore.get_put_of_ne m v hne]
        exact hm.unpointed u hu }

theorem initMintExtension_step {c : Call} {t : ExtensionType} {v : Except Fault t.Value}
    {overwrite : Bool} (hkind : t.accountType = .mint) (hfresh : ∀ w, v = .ok w → FreshValue t w)
    (hfee : t = .transferFeeConfig → c.ix.isInitializeTransferFeeConfig = true)
    (hinterest : t = .interestBearingConfig → c.ix.isInitializeInterestBearingMint = true)
    (h : initMintExtension t v overwrite accounts l = .ok l') (k : Pubkey) :
    NeutralStep c k (l k) (l' k) := by
  simp only [initMintExtension, bind_eq_ok, Prod.exists] at h
  obtain ⟨mintInfo, rest, -, mint, hmint, mint', hinit, w, hw, hwrite⟩ := h
  obtain ⟨rfl, -⟩ := PodStateWithExtensions.initExtension_eq_ok hinit
  obtain ⟨hdata, -, hhead⟩ := unpackUninitializedMint_eq_ok hmint
  refine forall_of_writeData (NeutralStep.refl c) hwrite (fun howner => ?_) k
  refine .extend (t := t) (v := w) howner howner hdata ?_ (fun e he => (hhead e he).trans hkind.symm)
    (unpackUninitializedMint_len hmint).1 hfee (.of_value (Or.inl hkind) (hfresh w hw)) hinterest
  simp only [PodStateWithExtensions.setExtension_tlv, PodStateWithExtensions.setExtension_len,
    TypedStore.put_put]

theorem processInitializeTransferFeeConfig_step {c : Call}
    {configAuthority withheldAuthority : Option Pubkey} {basisPoints : UInt16} {maximumFee : UInt64}
    (hix : c.ix.isInitializeTransferFeeConfig = true)
    (h : processInitializeTransferFeeConfig env configAuthority withheldAuthority basisPoints
      maximumFee accounts l = .ok l') (k : Pubkey) : NeutralStep c k (l k) (l' k) := by
  refine initMintExtension_step rfl (fun w hw => ?_) (fun _ => hix) (by simp) h k
  simp only [bind_eq_ok, exists_unit, ensure_eq_ok, pure_eq_ok] at hw
  obtain ⟨a, -, b, -, hrate, rfl⟩ := hw
  exact ⟨⟨hrate, hrate⟩, rfl⟩

theorem processInitializeDefaultAccountState_step {c : Call} {state : AccountState}
    (h : processInitializeDefaultAccountState state accounts l = .ok l') (k : Pubkey) :
    NeutralStep c k (l k) (l' k) := by
  simp only [processInitializeDefaultAccountState, checkValidDefaultState, bind_eq_ok, exists_unit,
    ensure_eq_ok] at h
  refine initMintExtension_step rfl (fun w hw => ?_) (by simp) (by simp) h.2 k
  obtain rfl := pure_eq_ok.mp hw
  exact h.1

theorem processInitializeConfidentialTransferFeeConfig_step {c : Call}
    {authority : OptionalNonZeroPubkey} {elgamalPubkey : ElGamalPubkey}
    (h : processInitializeConfidentialTransferFeeConfig authority elgamalPubkey accounts l = .ok l')
    (k : Pubkey) : NeutralStep c k (l k) (l' k) := by
  refine initMintExtension_step rfl (fun w hw => ?_) (by simp) (by simp) h k
  obtain rfl := pure_eq_ok.mp hw
  rfl

theorem processInitializeConfidentialTransferMint_step {c : Call}
    {authority : OptionalNonZeroPubkey} {autoApprove : Bool}
    {auditor : OptionalNonZeroElGamalPubkey}
    (h : processInitializeConfidentialTransferMint authority autoApprove auditor accounts l = .ok l')
    (k : Pubkey) : NeutralStep c k (l k) (l' k) := by
  simp only [processInitializeConfidentialTransferMint, bind_eq_ok, Prod.exists, exists_unit] at h
  obtain ⟨mintInfo, rest, -, -, h⟩ := h
  exact initMintExtension_step (t := .confidentialTransferMint) rfl (fun _ _ => trivial) (by simp) (by simp) h k

theorem processInitializeGroupPointer_step {c : Call}
    {authority groupAddress : OptionalNonZeroPubkey}
    (h : processInitializeGroupPointer authority groupAddress accounts l = .ok l') (k : Pubkey) :
    NeutralStep c k (l k) (l' k) := by
  simp only [processInitializeGroupPointer, bind_eq_ok, Prod.exists, exists_unit] at h
  obtain ⟨mintInfo, rest, -, mint, -, -, h⟩ := h
  exact initMintExtension_step (t := .groupPointer) rfl (fun _ _ => trivial) (by simp) (by simp) h k

theorem processInitializeGroupMemberPointer_step {c : Call}
    {authority memberAddress : OptionalNonZeroPubkey}
    (h : processInitializeGroupMemberPointer authority memberAddress accounts l = .ok l')
    (k : Pubkey) : NeutralStep c k (l k) (l' k) := by
  simp only [processInitializeGroupMemberPointer, bind_eq_ok, Prod.exists, exists_unit] at h
  obtain ⟨mintInfo, rest, -, mint, -, -, h⟩ := h
  exact initMintExtension_step (t := .groupMemberPointer) rfl (fun _ _ => trivial) (by simp) (by simp) h k

theorem processInitializeImmutableOwner_step {c : Call}
    (h : processInitializeImmutableOwner accounts l = .ok l') (k : Pubkey) :
    NeutralStep c k (l k) (l' k) := by
  simp only [processInitializeImmutableOwner, bind_eq_ok, Prod.exists] at h
  obtain ⟨tokenAccountInfo, rest, -, account, haccount, account', hinit, hwrite⟩ := h
  obtain ⟨rfl, -⟩ := PodStateWithExtensions.initExtension_eq_ok hinit
  obtain ⟨hdata, -, hhead⟩ := unpackUninitializedAccount_eq_ok haccount
  exact forall_of_writeData (NeutralStep.refl c) hwrite
    (fun howner => .extend (t := .immutableOwner) howner howner hdata rfl hhead
      (unpackUninitializedAccount_len haccount).1 (by simp) (.of_value (Or.inr rfl) trivial) (by simp)) k

/-! ### Mints and multisigs -/

theorem processInitializeMint_step {x : Externals} {decimals : UInt8} {mintAuthority : Pubkey}
    {freezeAuthority : Option Pubkey} {rent : Bool}
    (h : processInitializeMint env decimals mintAuthority freezeAuthority rent accounts l = .ok l')
    (k : Pubkey) :
    NeutralStep ⟨x, env, .initializeMint decimals mintAuthority freezeAuthority rent, accounts, l⟩ k
      (l k) (l' k) := by
  simp only [processInitializeMint, bind_eq_ok, Prod.exists, exists_unit, nextAccountInfo_eq_ok] at h
  obtain ⟨mintInfo, rest, rfl, rest', -, -, mint, hmint, accountLen, -, -, hcombination, hfreeze,
    hwrite⟩ := h
  obtain ⟨hdata, hbase, hhead⟩ := unpackUninitializedMint_eq_ok hmint
  refine forall_of_writeData (NeutralStep.refl _) hwrite (fun howner => ?_) k
  refine .initMint ⟨_, _, _, _, rfl⟩ rfl howner howner hdata rfl hhead rfl (by rw [hbase]; rfl)
    hcombination (fun hfrozen => ?_) ⟨_, _, _, _, rfl, by rw [hbase]; rfl⟩
    (unpackUninitializedMint_len hmint).2
  exact Option.isSome_iff_ne_none.mpr fun hnone => ensure_eq_ok.mp hfreeze ⟨hfrozen, hnone⟩

theorem processInitializeMultisig_step {x : Externals} {m : UInt8} {rent : Bool}
    (h : processInitializeMultisig env m rent accounts l = .ok l') (k : Pubkey) :
    NeutralStep ⟨x, env, .initializeMultisig m rent, accounts, l⟩ k (l k) (l' k) := by
  simp only [processInitializeMultisig, bind_eq_ok, Prod.exists, exists_unit, nextAccountInfo_eq_ok,
    ensure_eq_ok] at h
  obtain ⟨multisigInfo, rest, rfl, signerInfos, -, multisig, hmultisig, hnew, -, hprovided,
    hrequired, -, hwrite⟩ := h
  refine forall_of_writeData (NeutralStep.refl _) hwrite (fun howner => ?_) k
  refine .initMultisig ⟨m, rent, rfl⟩ rfl howner howner ?_ rfl ⟨rfl, hrequired, hprovided⟩
  unfold readMultisig at hmultisig
  split at hmultisig
  case h_1 m hm =>
    obtain rfl := Except.ok.inj hmultisig
    exact Or.inr ⟨m, hm, hnew⟩
  case h_2 len tlv hzero =>
    obtain ⟨rfl, -⟩ := ensure_bind_eq_ok.mp hmultisig
    exact Or.inl ⟨tlv, hzero⟩
  case h_3 => simp at hmultisig

/-! ### Token accounts -/

theorem mem_requiredInitAccountExtensions {mintTypes : List ExtensionType} {t : ExtensionType}
    (h : t ∈ ExtensionType.requiredInitAccountExtensions mintTypes) :
    t ∈ [ExtensionType.transferFeeAmount, .nonTransferableAccount, .immutableOwner,
      .transferHookAccount] := by
  simp only [ExtensionType.requiredInitAccountExtensions, List.mem_flatMap] at h
  obtain ⟨u, -, hu⟩ := h
  split at hu
  all_goals simp only [List.mem_cons, List.not_mem_nil, or_false] at hu ⊢
  · exact Or.inl hu
  · exact hu.elim (fun h => Or.inr (Or.inl h)) fun h => Or.inr (Or.inr (Or.inl h))
  · exact Or.inr (Or.inr (Or.inr hu))

/-- One required extension: a default entry of its type. -/
theorem initAccountExtensionFromType_eq_ok {s s' : PodStateWithExtensions PodAccount}
    {t : ExtensionType} (ht : t ∈ [ExtensionType.transferFeeAmount, .nonTransferableAccount,
      .immutableOwner, .transferHookAccount])
    (h : initAccountExtensionFromType s t = .ok s') : s' = s.setExtension t default := by
  simp only [List.mem_cons, List.not_mem_nil, or_false] at ht
  rcases ht with rfl | rfl | rfl | rfl
  all_goals exact (PodStateWithExtensions.initExtension_eq_ok h).1

/-- What the loop over the required extensions leaves. -/
structure RequiredAdded (types : List ExtensionType) (s s' : PodStateWithExtensions PodAccount) :
    Prop where
  base : s'.base = s.base
  len : s'.len = s.len
  changesOnly : Tlv.ChangesOnly types s.tlv s'.tlv
  required : ∀ t ∈ types, s'.hasExtension t
  withheld : ∀ v, s'.tlv.get .transferFeeAmount = some v →
    v.withheldAmount = 0 ∨ s.tlv.get .transferFeeAmount = some v

theorem requiredAdded_of_loop {types : List ExtensionType}
    {s s' : PodStateWithExtensions PodAccount} (htypes : ∀ t ∈ types, t ∈ [
      ExtensionType.transferFeeAmount, .nonTransferableAccount, .immutableOwner,
      .transferHookAccount])
    (h : loop initAccountExtensionFromType types s = .ok s') : RequiredAdded types s s' := by
  induction types generalizing s with
  | nil =>
    obtain rfl := Except.ok.inj h
    exact ⟨rfl, rfl, .refl _ _, by simp, fun v hv => Or.inr hv⟩
  | cons t types ih =>
    obtain ⟨s₁, hs₁, hrest⟩ := loop_cons_eq_ok.mp h
    obtain rfl := initAccountExtensionFromType_eq_ok (htypes t List.mem_cons_self) hs₁
    have hadded := ih (fun u hu => htypes u (List.mem_cons_of_mem _ hu)) hrest
    have hput : Tlv.ChangesOnly (t :: types) s.tlv (s.tlv.put t default) :=
      .put _ _ List.mem_cons_self
    have hmore : Tlv.ChangesOnly (t :: types) (s.tlv.put t default) s'.tlv :=
      hadded.changesOnly.mono (List.subset_cons_self t types)
    refine ⟨hadded.base, hadded.len, hput.trans hmore, fun u hu => ?_, fun v hv => ?_⟩
    · rcases List.mem_cons.mp hu with rfl | hu
      · refine hadded.changesOnly.isSome_of_isSome ?_
        simp
      · exact hadded.required u hu
    · rcases hadded.withheld v hv with hzero | hget
      · exact Or.inl hzero
      · by_cases ht : t = .transferFeeAmount
        · subst ht
          rw [PodStateWithExtensions.setExtension_tlv, TypedStore.get_put_self] at hget
          exact Or.inl (Option.some.inj hget ▸ rfl)
        · rw [PodStateWithExtensions.setExtension_tlv,
            TypedStore.get_put_of_ne _ _ (Ne.symm ht)] at hget
          exact Or.inr hget

theorem processInitializeAccount_step {x : Externals} {ix : TokenInstruction}
    {owner : Option Pubkey} {rent : Bool} (hix : ix.isInitializeAccount = true)
    (h : processInitializeAccount env owner rent accounts l = .ok l') (k : Pubkey) :
    NeutralStep ⟨x, env, ix, accounts, l⟩ k (l k) (l' k) := by
  simp only [processInitializeAccount, bind_eq_ok, Prod.exists, exists_unit, ensure_eq_ok,
    borrowData_eq_ok, mapErr_eq_ok] at h
  obtain ⟨newAccountInfo, rest, -, mintInfo, rest', -, owner', rest'', -, rest₃, -, account,
    haccount, -, hborrow, mint, hmint, types, htypes, accountLen, -, -, account', hloop, amount,
    hamount, hwrite⟩ := h
  obtain ⟨hdata, hbase, hhead⟩ := unpackUninitializedAccount_eq_ok haccount
  simp only [getRequiredAccountExtensions, bind_eq_ok, exists_unit, checkProgramAccount_eq_ok,
    pure_eq_ok] at htypes
  obtain ⟨hmintOwner, rfl⟩ := htypes
  have hadded := requiredAdded_of_loop (fun t => mem_requiredInitAccountExtensions) hloop
  have hlen := unpackUninitializedAccount_len haccount
  refine forall_of_writeData (NeutralStep.refl _) hwrite (fun howner => ?_) k
  refine .initAccount howner howner hdata rfl hhead rfl ⟨hmintOwner, hmint, ?_, hadded.required,
    hadded.changesOnly, hadded.withheld, rfl, ⟨rfl, rfl⟩, ?_, ?_, ?_, hix, rfl, ?_⟩
  · exact fun e => hborrow (e ▸ List.mem_singleton_self _)
  · intro hne
    simp only [initialAmount, decide_eq_true_eq, if_neg hne, Except.ok.injEq] at hamount ⊢
    exact ⟨trivial, hamount.symm⟩
  · intro heq
    simp only [initialAmount, decide_eq_true_eq, if_pos heq, okOr_eq_ok] at hamount ⊢
    exact ⟨_, rfl, checkedSub_eq_some.mp hamount⟩
  · simpa only [hadded.len] using hlen
  · simpa only [hadded.len] using hdata

end BarkToken
