import BarkToken.Step.Record

/-!
# Well-formed ledgers

What holds of every account this program owns, in every reachable state: mints
and token accounts carry extensions of their own kind, a token account is native
exactly if its mint is, without a delegate there is no allowance, and lamports
stand behind a native balance.
-/

namespace BarkToken
open Fallible AccountData

/-! ### Records -/

/-- Extensions written ahead of a base state: either a mint's, or the one that an
account can have. -/
structure FreshData (tlv : Tlv) : Prop extends tlv.Fresh where
  kinds : (∀ t, (tlv.get t).isSome → t.accountType = .mint) ∨
    ∀ t, (tlv.get t).isSome → t = .immutableOwner

structure WellFormedMint (k : Pubkey) (s : PodStateWithExtensions PodMint) : Prop where
  initialized : s.base.isInitialized = true
  kinds : ∀ t, s.hasExtension t → t.accountType = .mint
  valid : s.tlv.Valid
  native : k = nativeMint →
    s.base.mintAuthority = none ∧ s.base.freezeAuthority = none ∧ s.tlv = []

structure WellFormedAccount (lamports : UInt64) (s : PodStateWithExtensions PodAccount) : Prop where
  initialized : s.base.initialized
  len : s.len ≠ multisigLen ∧ (s.len = baseAccountLength ∨ baseAccountAndTypeLength < s.len)
  kinds : ∀ t, s.hasExtension t → t.accountType = .account
  nodup : s.tlv.tags.Nodup
  native : s.base.isNative.isSome ↔ s.base.mint = nativeMint
  delegate : s.base.delegate = none → s.base.delegatedAmount = 0
  frozen : s.base.frozen → s.base.isNative = none
  backed : ∀ reserve, s.base.isNative = some reserve →
    reserve.toNat + s.base.amount.toNat ≤ lamports.toNat

inductive WellFormed (k : Pubkey) (r : AccountRecord) : Prop
  | foreign (howner : r.owner ≠ programId)
  | zeroed {len tlv} (hdata : r.data = .zeroed len tlv) (hkey : k ≠ nativeMint) (h : FreshData tlv)
  | mint {s} (hdata : r.data = .mint s) (h : WellFormedMint k s)
  | account {s} (hdata : r.data = .account s) (h : WellFormedAccount r.lamports s)
  | multisig {m} (hdata : r.data = .multisig m) (h : m.Initialized)

def WellFormedLedger (l : Ledger) : Prop := ∀ k, WellFormed k (l k)

namespace WellFormed

variable {k : Pubkey} {r : AccountRecord}

theorem of_zeroed {len : ℕ} {tlv : Tlv} (h : WellFormed k r) (howner : r.owner = programId)
    (hdata : r.data = .zeroed len tlv) : k ≠ nativeMint ∧ FreshData tlv := by
  cases h with
  | foreign hne => exact absurd howner hne
  | zeroed hd hkey h =>
    obtain ⟨-, rfl⟩ := AccountData.zeroed.inj (hd.symm.trans hdata)
    exact ⟨hkey, h⟩
  | mint hd => exact absurd (hd.symm.trans hdata) (by simp)
  | account hd => exact absurd (hd.symm.trans hdata) (by simp)
  | multisig hd => exact absurd (hd.symm.trans hdata) (by simp)

theorem of_mint {s : PodStateWithExtensions PodMint} (h : WellFormed k r)
    (howner : r.owner = programId) (hdata : r.data = .mint s) : WellFormedMint k s := by
  cases h with
  | foreign hne => exact absurd howner hne
  | zeroed hd => exact absurd (hd.symm.trans hdata) (by simp)
  | mint hd h => exact AccountData.mint.inj (hd.symm.trans hdata) ▸ h
  | account hd => exact absurd (hd.symm.trans hdata) (by simp)
  | multisig hd => exact absurd (hd.symm.trans hdata) (by simp)

theorem of_multisig {m : PodMultisig} (h : WellFormed k r) (howner : r.owner = programId)
    (hdata : r.data = .multisig m) : m.Initialized := by
  cases h with
  | foreign hne => exact absurd howner hne
  | zeroed hd => exact absurd (hd.symm.trans hdata) (by simp)
  | mint hd => exact absurd (hd.symm.trans hdata) (by simp)
  | account hd => exact absurd (hd.symm.trans hdata) (by simp)
  | multisig hd h => exact AccountData.multisig.inj (hd.symm.trans hdata) ▸ h

theorem of_account {s : PodStateWithExtensions PodAccount} (h : WellFormed k r)
    (howner : r.owner = programId) (hdata : r.data = .account s) :
    WellFormedAccount r.lamports s := by
  cases h with
  | foreign hne => exact absurd howner hne
  | zeroed hd => exact absurd (hd.symm.trans hdata) (by simp)
  | mint hd => exact absurd (hd.symm.trans hdata) (by simp)
  | account hd h => exact AccountData.account.inj (hd.symm.trans hdata) ▸ h
  | multisig hd => exact absurd (hd.symm.trans hdata) (by simp)

end WellFormed

/-- A well-formed account is one that the program's view accepts. -/
theorem WellFormedAccount.unpackAccount {lamports : UInt64} {s : PodStateWithExtensions PodAccount}
    (h : WellFormedAccount lamports s) : (AccountData.account s).unpackAccount = .ok s :=
  unpackAccount_eq_ok.mpr ⟨rfl, h.initialized, h.len⟩

/-- Well-formed ledgers are what the step lemmas ask for. -/
theorem WellFormedLedger.coherent {l : Ledger} (h : WellFormedLedger l) : Coherent l where
  fixed howner _ hdata := ((h nativeMint).of_mint howner hdata).native rfl
  native k _ howner hdata := ((h k).of_account howner hdata).native

/-! ### Token accounts -/

section Accounts

variable {c : Call} {k : Pubkey} {lamports lamports' : UInt64}
  {s s' : PodStateWithExtensions PodAccount}

/-- Extensions of an account that change by account extensions only. -/
theorem kinds_of_changesOnly {kind : AccountType} {ts : List ExtensionType} {m m' : Tlv}
    (h : ∀ t, (m.get t).isSome → t.accountType = kind) (hm : Tlv.ChangesOnly ts m m')
    (hts : ∀ t ∈ ts, t.accountType = kind) (t : ExtensionType) (ht : (m'.get t).isSome) :
    t.accountType = kind := by
  rcases hm.mem_of_isSome ht with hs | hmem
  · exact h t hs
  · exact hts t hmem

/-- The same account with more lamports. -/
theorem WellFormedAccount.mono (h : WellFormedAccount lamports s) (hle : lamports ≤ lamports') :
    WellFormedAccount lamports' s where
  initialized := h.initialized
  len := h.len
  kinds := h.kinds
  nodup := h.nodup
  native := h.native
  delegate := h.delegate
  frozen := h.frozen
  backed reserve hreserve := (h.backed reserve hreserve).trans (UInt64.le_iff_toNat_le.mp hle)

/-- A change that leaves the base state's fields below alone. -/
theorem WellFormedAccount.of_base (h : WellFormedAccount lamports s) (hle : lamports ≤ lamports')
    (hbase : s'.base = s.base) (hlen : s'.len = s.len) {ts : List ExtensionType}
    (htlv : Tlv.ChangesOnly ts s.tlv s'.tlv) (hts : ∀ t ∈ ts, t.accountType = .account) :
    WellFormedAccount lamports' s' where
  initialized := hbase ▸ h.initialized
  len := hlen ▸ h.len
  kinds := kinds_of_changesOnly h.kinds htlv hts
  nodup := htlv.nodup h.nodup
  native := hbase ▸ h.native
  delegate := hbase ▸ h.delegate
  frozen := hbase ▸ h.frozen
  backed reserve hreserve := hbase ▸ (h.mono hle).backed reserve (hbase ▸ hreserve)

theorem AccountUpdate.wellFormed (hs : WellFormedAccount lamports s) (hle : lamports ≤ lamports')
    (h : AccountUpdate c k lamports' s s') : WellFormedAccount lamports' s' := by
  have hm := hs.mono hle
  cases h with
  | approve => exact ⟨hm.initialized, hm.len, hm.kinds, hm.nodup, hm.native, by simp, hm.frozen, hm.backed⟩
  | revoke => exact ⟨hm.initialized, hm.len, hm.kinds, hm.nodup, hm.native, fun _ => rfl, hm.frozen, hm.backed⟩
  | setOwner => exact ⟨hm.initialized, hm.len, hm.kinds, hm.nodup, hm.native, fun _ => rfl, hm.frozen, hm.backed⟩
  | setCloseAuthority =>
    exact ⟨hm.initialized, hm.len, hm.kinds, hm.nodup, hm.native, hm.delegate, hm.frozen, hm.backed⟩
  | @setState freeze _ _ _ _ hnative =>
    refine ⟨?_, hm.len, hm.kinds, hm.nodup, hm.native, hm.delegate, fun _ => hnative, hm.backed⟩
    unfold PodAccount.initialized
    cases freeze <;> simp
  | memo =>
    exact hm.of_base (UInt64.le_refl _) rfl rfl (Tlv.ChangesOnly.put (t := .memoTransfer) _ _
      (List.mem_singleton_self _)) (by simp [ExtensionType.accountType])
  | guard =>
    exact hm.of_base (UInt64.le_refl _) rfl rfl (Tlv.ChangesOnly.put (t := .cpiGuard) _ _
      (List.mem_singleton_self _)) (by simp [ExtensionType.accountType])
  | @reallocate _ isNative _ hlen hnone hsome =>
    have hsame : isNative.isSome ↔ s.base.isNative.isSome := by
      cases hn : s.base.isNative with
      | none => rw [hnone hn]
      | some reserve =>
        obtain ⟨reserve', rfl, -⟩ := hsome (by rw [hn]; rfl)
        simp
    refine ⟨hm.initialized, ⟨hlen.1, Or.inr hlen.2⟩, hm.kinds, hm.nodup, hsame.trans hm.native, hm.delegate,
      fun hfrozen => hnone (hm.frozen hfrozen), fun reserve hreserve => ?_⟩
    dsimp only at hreserve
    obtain ⟨reserve', hr, hle'⟩ := hsome (hsame.mp (by rw [hreserve]; rfl))
    rw [hreserve] at hr
    exact Option.some.inj hr ▸ hle'

theorem DebitAuthority.delegate_eq {amount : UInt64} {base : PodAccount}
    (hs : s.base.delegate = none → s.base.delegatedAmount = 0) (h : DebitAuthority c s amount base) :
    base.delegate = none → base.delegatedAmount = 0 := by
  cases h with
  | permanentDelegate => exact hs
  | owner => exact hs
  | burn => exact hs
  | @delegate _ remaining hd =>
    intro hnone
    dsimp only at hnone ⊢
    by_contra hne
    rw [if_neg hne, hd] at hnone
    simp at hnone

theorem AccountStep.wellFormed (hs : WellFormedAccount lamports s)
    (h : AccountStep c lamports lamports' s s') : WellFormedAccount lamports' s' := by
  cases h with
  | @debit base amount newAmount _ hauth _ _ hamount hbase hlen htlv hnative hlamports =>
    obtain ⟨hmint, -, hsame, hstate, hisNative, -⟩ := hauth.base_eq
    refine ⟨?_, hlen ▸ hs.len, kinds_of_changesOnly hs.kinds htlv
      (by simp [ExtensionType.accountType]), htlv.nodup hs.nodup, ?_, ?_, fun hfrozen => ?_,
      fun reserve hreserve => ?_⟩
    · have := hs.initialized
      unfold PodAccount.initialized at this ⊢
      rw [hbase]
      exact hstate ▸ this
    · rw [hbase]
      exact hisNative ▸ hmint ▸ hs.native
    · have hdelegate := hauth.delegate_eq hs.delegate
      rw [hbase]
      exact hdelegate
    · have hold := hs.frozen
      unfold PodAccount.frozen at hold hfrozen
      rw [hbase] at hfrozen ⊢
      exact hisNative.trans (hold (hstate.symm.trans hfrozen))
    · rw [hbase] at hreserve ⊢
      have hreserve : s.base.isNative = some reserve := hisNative ▸ hreserve
      have hle := hs.backed reserve hreserve
      have hmoved := hnative (by rw [hreserve]; rfl)
      dsimp only
      omega
  | @credit newAmount hamount _ _ _ hbase hlen htlv hnative hlamports =>
    refine ⟨?_, hlen ▸ hs.len, kinds_of_changesOnly hs.kinds htlv
      (by simp [ExtensionType.accountType]), htlv.nodup hs.nodup, ?_, ?_, ?_,
      fun reserve hreserve => ?_⟩
    · rw [hbase]
      exact hs.initialized
    · rw [hbase]
      exact hs.native
    · rw [hbase]
      exact hs.delegate
    · rw [hbase]
      exact hs.frozen
    · rw [hbase] at hreserve ⊢
      have hle := hs.backed reserve hreserve
      have hmoved := hnative (Option.isSome_of_eq_some hreserve)
      dsimp only
      omega
  | move hlamports _ _ _ hbase hlen htlv =>
    exact hs.of_base hlamports hbase hlen htlv (by simp [ExtensionType.accountType])
  | harvested hlamports hbase hlen htlv =>
    exact hs.of_base hlamports hbase hlen htlv (by simp [ExtensionType.accountType])

/-- Deposits and withdrawals are refused on native accounts. -/
theorem ConfidentialUpdate.amount_eq {base : PodAccount} {e e' : ConfidentialTransferAccount}
    {newAmount : UInt64} (h : ConfidentialUpdate c base e e' newAmount) :
    newAmount = base.amount ∨ base.isNative = none := by
  cases h with
  | deposited _ _ _ hnative => exact Or.inr hnative
  | withdrawn _ _ _ hnative => exact Or.inr hnative
  | _ => exact Or.inl rfl

theorem ConfidentialStep.wellFormed (hs : WellFormedAccount lamports s) (hle : lamports ≤ lamports')
    (h : ConfidentialStep c s s') : WellFormedAccount lamports' s' := by
  cases h with
  | configure _ _ hbase hlen _ _ _ _ _ htlv =>
    exact hs.of_base hle hbase hlen htlv (by simp [ExtensionType.accountType])
  | @update e e' newAmount _ h hs' =>
    have hm := hs.mono hle
    rw [hs']
    refine ⟨hm.initialized, hm.len, kinds_of_changesOnly hm.kinds
      (Tlv.ChangesOnly.put (t := .confidentialTransferAccount) _ _ (List.mem_singleton_self _))
      (by simp [ExtensionType.accountType]), TypedStore.nodup_tags_put hm.nodup _ _, hm.native,
      hm.delegate, hm.frozen, fun reserve hreserve => ?_⟩
    rcases h.amount_eq with rfl | hnone
    · exact hm.backed reserve hreserve
    · exact absurd (hreserve.symm.trans hnone) (by simp)

end Accounts

/-! ### Mints -/

theorem MintStep.wellFormed {c : Call} {k : Pubkey} {s s' : PodStateWithExtensions PodMint}
    (hs : WellFormedMint k s) (hkey : k ≠ nativeMint) (h : MintStep c k s s') :
    WellFormedMint k s' where
  initialized := h.initialized.trans hs.initialized
  kinds t ht := by
    rcases h.adds t ht with hold | ⟨p, hp, -⟩
    · exact hs.kinds t hold
    · cases t <;> first | rfl | cases hp
  valid := h.valid hs.valid
  native hk := absurd hk hkey

/-! ### Extensions ahead of a base state -/

theorem FreshData.nil : FreshData [] where
  nodup := List.nodup_nil
  rates _ hv := absurd hv (by simp)
  defaultState _ hv := absurd hv (by simp)
  withheld _ hv := absurd hv (by simp)
  confidentialWithheld _ hv := absurd hv (by simp)
  unpointed _ _ := rfl
  kinds := Or.inl fun _ ht => absurd ht (by simp)

/-- Whichever extension is added fits the ones that are there. -/
theorem FreshData.put {tlv : Tlv} {t : ExtensionType} {v : t.Value} (hs : FreshData tlv)
    (hhead : ∀ e ∈ tlv.head?, e.1.accountType = t.accountType) (h : FreshExtension t v) :
    FreshData (TypedStore.put tlv t v) where
  toFresh := h.fresh tlv hs.toFresh
  kinds := by
    have hchange := Tlv.ChangesOnly.put tlv v (List.mem_singleton_self t)
    cases tlv with
    | nil =>
      rcases h.kind with hmint | rfl
      · exact Or.inl (kinds_of_changesOnly (by simp) hchange (by simp [hmint]))
      · refine Or.inr fun u hu => ?_
        rcases hchange.mem_of_isSome hu with hs | hmem
        · simp at hs
        · exact List.mem_singleton.mp hmem
    | cons e rest =>
      have he : (TypedStore.get (e :: rest) e.1).isSome :=
        TypedStore.mem_tags_iff.mp List.mem_cons_self
      have hhead := hhead e rfl
      rcases hs.kinds with hmint | himm
      · have hkind : t.accountType = .mint := hhead.symm.trans (hmint e.1 he)
        exact Or.inl (kinds_of_changesOnly hmint hchange (by simp [hkind]))
      · have hkind : t.accountType = .account := by
          rw [← hhead, himm e.1 he]
          rfl
        have ht : t = .immutableOwner := by
          rcases h.kind with hmint | himm
          · rw [hkind] at hmint
            simp at hmint
          · exact himm
        refine Or.inr fun u hu => ?_
        rcases hchange.mem_of_isSome hu with hs | hmem
        · exact himm u hs
        · rw [List.mem_singleton.mp hmem, ht]

/-- With a first extension of one kind, all are of that kind. -/
theorem FreshData.kinds_of_head {tlv : Tlv} {kind : AccountType} (hs : FreshData tlv)
    (hhead : ∀ e ∈ tlv.head?, e.1.accountType = kind) (t : ExtensionType)
    (ht : (tlv.get t).isSome) : t.accountType = kind := by
  cases tlv with
  | nil => simp at ht
  | cons e rest =>
    have he : (TypedStore.get (e :: rest) e.1).isSome :=
      TypedStore.mem_tags_iff.mp List.mem_cons_self
    rw [← hhead e rfl]
    rcases hs.kinds with hmint | himm
    · rw [hmint t ht, hmint e.1 he]
    · rw [himm t ht, himm e.1 he]

/-- The extensions that a mint asks its accounts for are account extensions. -/
theorem requiredInitAccountExtensions_kind {types : List ExtensionType} {t : ExtensionType}
    (h : t ∈ ExtensionType.requiredInitAccountExtensions types) : t.accountType = .account := by
  simp only [ExtensionType.requiredInitAccountExtensions, List.mem_flatMap] at h
  obtain ⟨u, -, hu⟩ := h
  cases u <;> simp at hu <;> rcases hu with rfl | rfl <;> rfl

/-- Before an account is initialised, nothing but its immutable owner can be set. -/
theorem FreshData.get_eq_none {tlv : Tlv} (h : FreshData tlv)
    (hhead : ∀ e ∈ tlv.head?, e.1.accountType = .account) {t : ExtensionType}
    (ht : t ≠ .immutableOwner) : tlv.get t = none := by
  rw [← Option.not_isSome_iff_eq_none]
  intro hsome
  have haccount := h.kinds_of_head hhead t hsome
  rcases h.kinds with hmint | himmutable
  · rw [hmint t hsome] at haccount
    simp at haccount
  · exact ht (himmutable t hsome)

/-- A new account has no encrypted balances. -/
theorem NewAccount.get_eq_none {c : Call} {k : Pubkey} {lamports : UInt64} {tlv : Tlv}
    {s : PodStateWithExtensions PodAccount} {mint : PodStateWithExtensions PodMint}
    (htlv : FreshData tlv) (hhead : ∀ e ∈ tlv.head?, e.1.accountType = .account)
    (h : NewAccount c k lamports tlv s mint) {t : ExtensionType}
    (ht : t = .confidentialTransferAccount ∨ t = .confidentialTransferFeeAmount) :
    s.tlv.get t = none := by
  have hne : t ≠ .immutableOwner := by rcases ht with rfl | rfl <;> decide
  refine (h.changesOnly.get t fun hmem => ?_).trans (htlv.get_eq_none hhead hne)
  simp only [ExtensionType.requiredInitAccountExtensions, List.mem_flatMap] at hmem
  obtain ⟨u, -, hu⟩ := hmem
  rcases ht with rfl | rfl <;> cases u <;> simp at hu

theorem NewAccount.wellFormed {c : Call} {k : Pubkey} {lamports : UInt64} {tlv : Tlv}
    {s : PodStateWithExtensions PodAccount} {mint : PodStateWithExtensions PodMint}
    (hl : WellFormedLedger c.ledger) (htlv : FreshData tlv)
    (hhead : ∀ e ∈ tlv.head?, e.1.accountType = .account)
    (h : NewAccount c k lamports tlv s mint) : WellFormedAccount lamports s where
  initialized := by
    have hmint := (hl s.base.mint).of_mint h.mintOwner (unpackMint_eq_ok.mp h.mintData).1
    rw [PodAccount.initialized, h.state]
    unfold defaultState
    cases hstate : mint.tlv.get .defaultAccountState with
    | none => simp
    | some v => exact hmint.valid.defaultState v hstate
  len := h.len
  kinds := kinds_of_changesOnly (htlv.kinds_of_head hhead) h.changesOnly
    fun t ht => requiredInitAccountExtensions_kind ht
  nodup := h.changesOnly.nodup htlv.nodup
  native := by
    by_cases hnative : s.base.mint = nativeMint
    · obtain ⟨reserve, hreserve, -⟩ := h.native hnative
      simp [hreserve, hnative]
    · simp [(h.nonNative hnative).1, hnative]
  delegate _ := h.delegate.2
  frozen hfrozen := by
    by_contra hne
    -- A native account would belong to the native mint, which has no extension.
    have hnative : s.base.mint = nativeMint := by
      by_contra hmint
      exact hne (h.nonNative hmint).1
    have hmint := (hl s.base.mint).of_mint h.mintOwner (unpackMint_eq_ok.mp h.mintData).1
    have hnone : defaultState mint = none := by
      simp [defaultState, (hmint.native hnative).2.2]
    unfold PodAccount.frozen at hfrozen
    rw [h.state, hnone] at hfrozen
    simp at hfrozen
  backed reserve hreserve := by
    by_cases hnative : s.base.mint = nativeMint
    · obtain ⟨reserve', hreserve', hsum⟩ := h.native hnative
      obtain rfl := Option.some.inj (hreserve.symm.trans hreserve')
      omega
    · exact absurd (hreserve.symm.trans (h.nonNative hnative).1) (by simp)

/-! ### Steps and runs -/

theorem ForeignRecord.wellFormed {k : Pubkey} {r r' : AccountRecord} (hr : WellFormed k r)
    (h : ForeignRecord k r r') : WellFormed k r' := by
  by_cases howner : r.owner = programId
  · obtain ⟨howner', hdata, hlamports⟩ := h.keeps howner
    cases hr with
    | foreign hne => exact absurd howner hne
    | zeroed hd hkey hs => exact .zeroed (hdata.trans hd) hkey hs
    | mint hd hs => exact .mint (hdata.trans hd) hs
    | account hd hs => exact .account (hdata.trans hd) (hs.mono hlamports)
    | multisig hd hs => exact .multisig (hdata.trans hd) hs
  · by_cases howner' : r'.owner = programId
    · obtain ⟨hkey, len, hdata⟩ := h.creates howner howner'
      exact .zeroed hdata hkey .nil
    · exact .foreign howner'

theorem NeutralStep.wellFormed {c : Call} {k : Pubkey} {r r' : AccountRecord}
    (hl : WellFormedLedger c.ledger) (hr : WellFormed k r) (h : NeutralStep c k r r') :
    WellFormed k r' := by
  cases h with
  | foreign h => exact h.wellFormed hr
  | account howner _ hdata hdata' hlamports h =>
    exact .account hdata' (h.wellFormed (hr.of_account howner hdata) hlamports)
  | @sync s reserve newAmount howner _ hdata hdata' hlamports hnative hamount =>
    have hs := hr.of_account howner hdata
    refine .account hdata' ⟨hs.initialized, hs.len, hs.kinds, hs.nodup, hs.native, hs.delegate,
      hs.frozen, fun reserve' hreserve => ?_⟩
    obtain rfl := Option.some.inj (hnative.symm.trans hreserve)
    have := UInt64.le_iff_toNat_le.mp hlamports
    dsimp only
    omega
  | mint howner _ hdata hdata' hkey h =>
    exact .mint hdata' (h.toMintStep.wellFormed (hr.of_mint howner hdata) hkey)
  | extend howner _ hdata hdata' hhead _ _ h =>
    obtain ⟨hkey, hs⟩ := hr.of_zeroed howner hdata
    exact .zeroed hdata' hkey (hs.put hhead h)
  | initMint _ _ howner _ hdata hdata' hhead hinit =>
    obtain ⟨hkey, hs⟩ := hr.of_zeroed howner hdata
    exact .mint hdata' ⟨hinit, hs.kinds_of_head hhead, hs.toValid, fun hk => absurd hk hkey⟩
  | createNativeMint hkey _ _ hdata' =>
    exact .mint hdata' ⟨rfl, by simp [PodStateWithExtensions.hasExtension], FreshData.nil.toValid,
      fun _ => ⟨rfl, rfl, rfl⟩⟩
  | initAccount howner _ hdata hdata' hhead _ h =>
    exact .account hdata' (h.wellFormed hl (hr.of_zeroed howner hdata).2 hhead)
  | initMultisig _ _ _ _ _ hdata' h => exact .multisig hdata' h
  | withdrawExcess howner _ hdata hnative =>
    cases hr with
    | foreign hne => exact absurd howner hne
    | zeroed hd hkey hs => exact .zeroed (hdata.trans hd) hkey hs
    | mint hd hs => exact .mint (hdata.trans hd) hs
    | multisig hd hs => exact .multisig (hdata.trans hd) hs
    | account hd hs =>
      have hnone := hnative _ (hd ▸ hs.unpackAccount)
      refine .account (hdata.trans hd) ⟨hs.initialized, hs.len, hs.kinds, hs.nodup, hs.native, hs.delegate,
        hs.frozen, fun reserve hreserve => ?_⟩
      exact absurd (hreserve.symm.trans hnone) (by simp)

theorem RecordStep.wellFormed {c : Call} {k : Pubkey} {r r' : AccountRecord}
    (hl : WellFormedLedger c.ledger) (hr : WellFormed k r) (h : RecordStep c k r r') :
    WellFormed k r' := by
  cases h with
  | locally h =>
    cases h with
    | neutral h => exact h.wellFormed hl hr
    | confidential howner _ hdata hdata' hlamports h =>
      exact .account hdata' (h.wellFormed (hr.of_account howner hdata) hlamports)
  | account howner _ hdata hdata' h =>
    exact .account hdata' (h.wellFormed (hr.of_account howner hdata))
  | mint howner _ hdata hdata' hkey h =>
    exact .mint hdata' (h.wellFormed (hr.of_mint howner hdata) hkey)
  | close _ _ _ howner' =>
    exact .foreign fun howner => programId_ne_systemProgram (howner.symm.trans howner')

theorem Genesis.wellFormed {l : Ledger} (h : Genesis l) : WellFormedLedger l := by
  intro k
  by_cases howner : (l k).owner = programId
  · obtain ⟨len, hdata⟩ := h.zeroed k howner
    have hkey : k ≠ nativeMint := fun hk => h.noNativeMint (hk ▸ howner)
    exact .zeroed hdata hkey .nil
  · exact .foreign howner

theorem Call.process_wellFormed {c : Call} {l' : Ledger} (hl : WellFormedLedger c.ledger)
    (h : c.process = .ok l') : WellFormedLedger l' := fun k =>
  ((Outcome.of_process hl.coherent h).recordStep hl.coherent k).wellFormed hl (hl k)

theorem ForeignStep.wellFormed {l l' : Ledger} (hl : WellFormedLedger l) (h : ForeignStep l l') :
    WellFormedLedger l' := fun k => (h k).wellFormed (hl k)

/-- Every reachable ledger is well formed. -/
theorem Reachable.wellFormed {x : Externals} {l : Ledger} (h : Reachable x l) :
    WellFormedLedger l :=
  Reachable.invariant WellFormedLedger (fun _ => Genesis.wellFormed)
    (fun _ _ _ => Call.process_wellFormed) (fun _ _ => ForeignStep.wellFormed) h

end BarkToken
