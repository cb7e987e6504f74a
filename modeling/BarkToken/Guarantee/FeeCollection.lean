import BarkToken.Program.Replay
import BarkToken.Step.FeeCollection

/-!
# Collecting withheld fees (transfer_fee/processor.rs:114-275)

A successful harvest or withdrawal depends on the set of the listed accounts only,
and takes the fees in them once.
-/

namespace BarkToken
open Fallible CheckedWord AccountData

/-! ### Where the fees go -/

/-- The account at `k` holds `n` more, and nothing else changes. -/
def PaidTo (l l' : Ledger) (k : Pubkey) (n : ℕ) : Prop :=
  ∃ (d : PodStateWithExtensions PodAccount) (amount : UInt64), (l k).data = .account d ∧
    amount.toNat = d.base.amount.toNat + n ∧ ((l k).owner = programId ∨ n = 0) ∧
    l' = l.setData k (.account { d with base := { d.base with amount := amount } })

/-- The mint `M` withholds `n` more, and nothing else changes. -/
def WithheldBy (l l' : Ledger) (M : Pubkey) (n : ℕ) : Prop :=
  ∃ (m : PodStateWithExtensions PodMint) (v : TransferFeeConfig) (amount : UInt64),
    (l M).data = .mint m ∧ m.tlv.get .transferFeeConfig = some v ∧
    amount.toNat = v.withheldAmount.toNat + n ∧
    l' = l.setData M (.mint (m.setExtension .transferFeeConfig { v with withheldAmount := amount }))

/-- An amount has no part in the fees. -/
theorem feeAccount_of_amount {M : Pubkey} {r r' : AccountRecord}
    {d d' s : PodStateWithExtensions PodAccount} {n : UInt64}
    (hsame : d' = { d with base := { d.base with amount := d'.base.amount } })
    (hdata : r.data = .account d) (hdata' : r'.data = .account d') (howner' : r'.owner = r.owner)
    (h : r'.feeAccount M = some (s, n)) : r.feeAccount M = some (d, n) := by
  obtain ⟨hs, hmint, howner, hget⟩ := AccountRecord.feeAccount_eq_some.mp h
  obtain ⟨hs, hrest⟩ := unpackAccount_eq_ok.mp hs
  obtain rfl := AccountData.account.inj (hdata'.symm.trans hs)
  rw [hsame] at hrest hmint hget
  exact AccountRecord.feeAccount_eq_some.mpr
    ⟨unpackAccount_eq_ok.mpr ⟨hdata, hrest⟩, hmint, howner' ▸ howner, hget⟩

theorem PaidTo.fees {l l' : Ledger} {k : Pubkey} {n : ℕ} (h : PaidTo l l' k n) (M j : Pubkey) :
    (l' j).fees M = (l j).fees M := by
  obtain ⟨d, amount, hdata, -, -, rfl⟩ := h
  by_cases hj : j = k
  · subst hj
    have hdata' : (l.setData j (.account { d with base := { d.base with amount := amount } }) j).data =
        .account { d with base := { d.base with amount := amount } } := by rw [Ledger.setData_self]
    have howner := Ledger.setData_owner l j
      (.account { d with base := { d.base with amount := amount } }) j
    cases hfee : (l j).feeAccount M with
    | some p =>
      have hnew := feeAccount_of_amount rfl hdata' hdata howner.symm hfee
      rw [AccountRecord.fees_of_some hnew, AccountRecord.fees_of_some hfee]
    | none =>
      rw [AccountRecord.fees_of_none hfee]
      refine AccountRecord.fees_of_none (Option.eq_none_iff_forall_ne_some.mpr fun p hp => ?_)
      exact absurd (hfee.symm.trans (feeAccount_of_amount rfl hdata hdata' howner hp)) (by simp)
  · rw [Ledger.setData_of_ne hj]

/-! ### The harvest -/

theorem harvest_iff {mintInfo : AccountInfo} {infos : List AccountInfo} {l l' : Ledger} :
    processHarvestWithheldTokensToMint (mintInfo :: infos) l = .ok l' ↔
      ∃ m v n, (l mintInfo.key).data.unpackMint = .ok m ∧ m.tlv.get .transferFeeConfig = some v ∧
        mintInfo.key ∉ keySet infos ∧
        n.toNat = v.withheldAmount.toNat + ∑ k ∈ keySet infos, (l k).fees mintInfo.key ∧
        (l.withoutFees mintInfo.key (keySet infos)).writeData mintInfo.key
          (.mint (m.setExtension .transferFeeConfig { v with withheldAmount := n })) = .ok l' := by
  simp only [processHarvestWithheldTokensToMint, nextAccountInfo, bind_eq_ok, Prod.exists]
  constructor
  · rintro ⟨_, _, hinfo, m, hm, v, hv, n, l₁, hloop, hwrite⟩
    obtain ⟨rfl, rfl⟩ := Prod.mk.inj (Except.ok.inj hinfo)
    obtain ⟨hmem, hn, rfl⟩ := harvestLoop_iff.mp hloop
    exact ⟨m, v, n, hm, PodStateWithExtensions.getExtension_eq_ok.mp hv, hmem, hn, hwrite⟩
  · rintro ⟨m, v, n, hm, hv, hmem, hn, hwrite⟩
    exact ⟨_, _, rfl, m, hm, v, PodStateWithExtensions.getExtension_eq_ok.mpr hv, n, _,
      harvestLoop_iff.mpr ⟨hmem, hn, rfl⟩, hwrite⟩

section

variable {mintInfo : AccountInfo} {infos infos' : List AccountInfo} {l l' : Ledger}

theorem harvest_withheldBy
    (h : processHarvestWithheldTokensToMint (mintInfo :: infos) l = .ok l') :
    WithheldBy (l.withoutFees mintInfo.key (keySet infos)) l' mintInfo.key
      (∑ k ∈ keySet infos, (l k).fees mintInfo.key) := by
  obtain ⟨m, v, n, hm, hv, hmem, hn, hwrite⟩ := harvest_iff.mp h
  refine ⟨m, v, n, ?_, hv, hn, (Ledger.writeData_eq_ok.mp hwrite).2⟩
  rw [Ledger.withoutFees_of_not_mem hmem]
  exact (unpackMint_eq_ok.mp hm).1

theorem harvest_congr (hsame : keySet infos' = keySet infos) :
    processHarvestWithheldTokensToMint (mintInfo :: infos') l = .ok l' ↔
      processHarvestWithheldTokensToMint (mintInfo :: infos) l = .ok l' := by
  rw [harvest_iff, harvest_iff, hsame]

/-- The listed accounts are left without fees. -/
theorem harvest_fees (h : processHarvestWithheldTokensToMint (mintInfo :: infos) l = .ok l')
    {k : Pubkey} (hk : k ∈ keySet infos) :
    l' k = (l k).withoutFees mintInfo.key := by
  obtain ⟨m, v, n, -, -, hmem, -, hwrite⟩ := harvest_iff.mp h
  obtain ⟨-, rfl⟩ := Ledger.writeData_eq_ok.mp hwrite
  have hne : k ≠ mintInfo.key := fun e => hmem (e ▸ hk)
  rw [Ledger.setData_of_ne hne, Ledger.withoutFees_of_mem hk]

theorem harvest_again (h : processHarvestWithheldTokensToMint (mintInfo :: infos) l = .ok l') :
    processHarvestWithheldTokensToMint (mintInfo :: infos) l' = .ok l' := by
  have hdone (k : Pubkey) (hk : k ∈ keySet infos) : (l' k).fees mintInfo.key = 0 := by
    rw [harvest_fees h hk, AccountRecord.fees_withoutFees]
  have hsame : l'.withoutFees mintInfo.key (keySet infos) = l' :=
    Ledger.withoutFees_eq_self fun k hk => by
      rw [harvest_fees h hk, AccountRecord.withoutFees_withoutFees]
  obtain ⟨m, v, n, hm, hv, hmem, -, hwrite⟩ := harvest_iff.mp h
  obtain ⟨-, hl'⟩ := Ledger.writeData_eq_ok.mp hwrite
  have hdata : (l' mintInfo.key).data =
      .mint (m.setExtension .transferFeeConfig { v with withheldAmount := n }) := by
    rw [hl', Ledger.setData_self]
  refine harvest_iff.mpr ⟨_, { v with withheldAmount := n }, n, unpackMint_eq_ok.mpr ⟨hdata, ?_⟩,
    by simp, hmem, ?_, ?_⟩
  · exact (unpackMint_eq_ok.mp hm).2
  · rw [Finset.sum_eq_zero hdone, Nat.add_zero]
  · rw [hsame, Ledger.writeData_eq_ok, hdata]
    have hput : (m.setExtension .transferFeeConfig { v with withheldAmount := n }).setExtension
        .transferFeeConfig { v with withheldAmount := n } =
        m.setExtension .transferFeeConfig { v with withheldAmount := n } := by
      simp [PodStateWithExtensions.setExtension]
    rw [hput]
    exact ⟨Or.inr rfl, (Ledger.setData_eq_self hdata).symm⟩

end

/-! ### The withdrawal -/

/-- The accounts and the signers that follow the authority. -/
def listedAccounts (numTokenAccounts : UInt8) (accountInfos : List AccountInfo) : List AccountInfo :=
  accountInfos.drop (accountInfos.length - numTokenAccounts.toNat)

def listedSigners (numTokenAccounts : UInt8) (accountInfos : List AccountInfo) : List AccountInfo :=
  accountInfos.take (accountInfos.length - numTokenAccounts.toNat)

section

variable {mintInfo destinationInfo authorityInfo : AccountInfo} {n n' : UInt8}
  {infos infos' signers : List AccountInfo} {l l' : Ledger}

/-- What both withdrawals ask of the mint and the destination. -/
structure Withdrawable (l : Ledger) (M D : Pubkey) (m : PodStateWithExtensions PodMint)
    (v : TransferFeeConfig) (d : PodStateWithExtensions PodAccount) : Prop where
  owner : (l M).owner = programId
  mint : (l M).data.unpackMint = .ok m
  config : m.tlv.get .transferFeeConfig = some v
  ne : D ≠ M
  destination : (l D).data.unpackAccount = .ok d
  destinationMint : d.base.mint = M
  notFrozen : ¬ d.base.frozen

/-- The authority over the withheld fees agrees. -/
def WithdrawAuthorised (l : Ledger) (v : TransferFeeConfig) (authorityInfo : AccountInfo)
    (signers : List AccountInfo) : Prop :=
  ∃ key, v.withdrawWithheldAuthority.toOption = some key ∧
    validateOwner l key authorityInfo signers = .ok ()

theorem withdraw_iff :
    processWithdrawWithheldTokensFromAccounts n
        (mintInfo :: destinationInfo :: authorityInfo :: infos) l = .ok l' ↔
      ∃ m v d d' l₁, Withdrawable l mintInfo.key destinationInfo.key m v d ∧
        WithdrawAuthorised l v authorityInfo (listedSigners n infos) ∧
        FeesCollected mintInfo.key destinationInfo.key (keySet (listedAccounts n infos)) d d' l l₁ ∧
        l₁.writeData destinationInfo.key (.account d') = .ok l' := by
  simp only [processWithdrawWithheldTokensFromAccounts, nextAccountInfo, bind_eq_ok, Prod.exists,
    exists_unit, okOr_eq_ok, ensure_eq_ok, borrowData_eq_ok, checkProgramAccount_eq_ok,
    List.mem_singleton]
  constructor
  · rintro ⟨_, _, hinfo, _, _, hinfo', _, _, hinfo'', howner, m, hm, v, hv, key, hkey, hauthority,
      hne, d, hd, hmint, hfrozen, d', l₁, hloop, hwrite⟩
    obtain ⟨rfl, rfl⟩ := Prod.mk.inj (Except.ok.inj hinfo)
    obtain ⟨rfl, rfl⟩ := Prod.mk.inj (Except.ok.inj hinfo')
    obtain ⟨rfl, rfl⟩ := Prod.mk.inj (Except.ok.inj hinfo'')
    exact ⟨m, v, d, d', l₁, ⟨howner, hm, PodStateWithExtensions.getExtension_eq_ok.mp hv, hne, hd,
      hmint, hfrozen⟩, ⟨key, hkey, hauthority⟩, (withdrawLoop_iff hne).mp hloop, hwrite⟩
  · rintro ⟨m, v, d, d', l₁, ⟨howner, hm, hv, hne, hd, hmint, hfrozen⟩, ⟨key, hkey, hauthority⟩,
      hcollected, hwrite⟩
    exact ⟨_, _, rfl, _, _, rfl, _, _, rfl, howner, m, hm, v,
      PodStateWithExtensions.getExtension_eq_ok.mpr hv, key, hkey, hauthority, hne, d, hd, hmint,
      hfrozen, d', l₁, (withdrawLoop_iff hne).mpr hcollected, hwrite⟩

/-- The fees of all listed accounts, the destination included. -/
theorem FeesCollected.sum {M D : Pubkey} {K : Finset Pubkey}
    {d d' : PodStateWithExtensions PodAccount} {l₁ : Ledger}
    (h : FeesCollected M D K d d' l l₁) (howner : (l D).owner = programId)
    (hd : (l D).data.unpackAccount = .ok d) (hmint : d.base.mint = M) :
    d'.base.amount.toNat = d.base.amount.toNat + ∑ k ∈ K, (l k).fees M := by
  rw [h.amount]
  by_cases hmem : D ∈ K
  · obtain ⟨⟨w⟩, hget⟩ := Option.isSome_iff_exists.mp (h.own hmem)
    have hfees := AccountRecord.fees_of_some
      (AccountRecord.feeAccount_eq_some.mpr ⟨hd, hmint, howner, hget⟩)
    rw [if_pos hmem, ← Finset.add_sum_erase K _ hmem, hfees, withheldAmount, hget]
    exact Nat.add_assoc _ _ _
  · rw [if_neg hmem, Finset.erase_eq_of_notMem hmem, Nat.add_zero]

/-- An account of another program is the destination only if there is nothing to collect. -/
theorem FeesCollected.eq_of_foreign {M D : Pubkey} {K : Finset Pubkey}
    {d d' : PodStateWithExtensions PodAccount} {l₁ : Ledger}
    (h : FeesCollected M D K d d' l l₁) (howner : (l D).owner ≠ programId) (hsame : d' = d) :
    ∑ k ∈ K, (l k).fees M = 0 ∧ l₁ = l.withoutFees M K := by
  have hnone : (l D).feeAccount M = none := Option.eq_none_iff_forall_ne_some.mpr
    fun p hp => howner (AccountRecord.feeAccount_eq_some.mp hp).2.2.1
  have hamount := h.amount
  rw [hsame] at hamount
  rw [h.ledger]
  by_cases hmem : D ∈ K
  · rw [← Finset.add_sum_erase K _ hmem, AccountRecord.fees_of_none hnone]
    refine ⟨by omega, ?_⟩
    rw [← Finset.insert_erase hmem, ← Ledger.withoutFees_insert, Ledger.withoutFees_of_none hnone,
      Finset.insert_erase hmem]
  · rw [Finset.erase_eq_of_notMem hmem] at hamount ⊢
    exact ⟨by omega, rfl⟩

theorem FeesCollected.paidTo {M D : Pubkey} {K : Finset Pubkey}
    {d d' : PodStateWithExtensions PodAccount} {l₁ : Ledger} (h : FeesCollected M D K d d' l l₁)
    (hd : (l D).data.unpackAccount = .ok d) (hmint : d.base.mint = M)
    (hwrite : l₁.writeData D (.account d') = .ok l') :
    PaidTo (l.withoutFees M K) l' D (∑ k ∈ K, (l k).fees M) := by
  obtain ⟨hallowed, rfl⟩ := Ledger.writeData_eq_ok.mp hwrite
  have hsame : l₁ D = l D := by rw [h.ledger, Ledger.withoutFees_of_not_mem (Finset.notMem_erase _ _)]
  rw [hsame] at hallowed
  have hdata := (unpackAccount_eq_ok.mp hd).1
  by_cases howner : (l D).owner = programId
  · rw [h.ledger, Ledger.setData_withoutFees_erase]
    by_cases hmem : D ∈ K
    · obtain ⟨⟨w⟩, hget⟩ := Option.isSome_iff_exists.mp (h.own hmem)
      refine ⟨d.setExtension .transferFeeAmount ⟨0⟩, d'.base.amount, ?_, h.sum howner hd hmint,
        Or.inl ?_, ?_⟩
      · rw [Ledger.withoutFees_of_mem hmem, AccountRecord.withoutFees_of_some
          (AccountRecord.feeAccount_eq_some.mpr ⟨hd, hmint, howner, hget⟩)]
      · rwa [Ledger.withoutFees_owner]
      · rw [h.account, if_pos hmem]
        rfl
    · refine ⟨d, d'.base.amount, ?_, h.sum howner hd hmint, Or.inl ?_, ?_⟩
      · rwa [Ledger.withoutFees_of_not_mem hmem]
      · rwa [Ledger.withoutFees_owner]
      · rw [h.account, if_neg hmem]
  · have hd' : d' = d := AccountData.account.inj
      ((hallowed.resolve_left howner).symm.trans hdata)
    obtain ⟨hzero, hl₁⟩ := h.eq_of_foreign howner hd'
    have hdata' : (l₁ D).data = .account d := by rw [hsame, hdata]
    refine ⟨d, d.base.amount, ?_, by rw [hzero, Nat.add_zero], Or.inr hzero, ?_⟩
    · rw [← hl₁, hdata']
    · rw [← hl₁, hd']

theorem withdraw_congr (hsigners : listedSigners n' infos' = listedSigners n infos)
    (hsame : keySet (listedAccounts n' infos') = keySet (listedAccounts n infos)) :
    processWithdrawWithheldTokensFromAccounts n'
        (mintInfo :: destinationInfo :: authorityInfo :: infos') l = .ok l' ↔
      processWithdrawWithheldTokensFromAccounts n
        (mintInfo :: destinationInfo :: authorityInfo :: infos) l = .ok l' := by
  rw [withdraw_iff, withdraw_iff, hsigners, hsame]

namespace FeesCollected

variable {M D : Pubkey} {K : Finset Pubkey} {d d' : PodStateWithExtensions PodAccount} {l₁ : Ledger}

theorem base (h : FeesCollected M D K d d' l l₁) :
    d'.base = { d.base with amount := d'.base.amount } :=
  congrArg PodStateWithExtensions.base h.account

theorem len (h : FeesCollected M D K d d' l l₁) : d'.len = d.len := by
  rw [h.account]
  split <;> rfl

theorem unpackAccount (h : FeesCollected M D K d d' l l₁) {r r' : AccountData}
    (hd : r.unpackAccount = .ok d) (hr' : r' = .account d') : r'.unpackAccount = .ok d' := by
  obtain ⟨-, hinit, hlen⟩ := unpackAccount_eq_ok.mp hd
  refine unpackAccount_eq_ok.mpr ⟨hr', ?_, by rwa [h.len]⟩
  rw [h.base]
  exact hinit

/-- Nothing is left to collect. -/
theorem again (h : FeesCollected M D K d d' l l₁) :
    FeesCollected M D K d' d' (l₁.setData D (.account d')) (l₁.setData D (.account d')) := by
  have hput (hmem : D ∈ K) : d'.tlv.get .transferFeeAmount = some ⟨0⟩ := by
    rw [h.account, if_pos hmem]
    simp
  have hrest (k : Pubkey) (hk : k ∈ K.erase D) :
      l₁.setData D (.account d') k = (l k).withoutFees M := by
    rw [Ledger.setData_of_ne (Finset.ne_of_mem_erase hk), h.ledger, Ledger.withoutFees_of_mem hk]
  refine ⟨h.mint, fun hmem => ?_, ?_, ?_, ?_⟩
  · rw [PodStateWithExtensions.hasExtension, hput hmem, Option.isSome_some]
  · have hzero : (if D ∈ K then (withheldAmount d').toNat else 0) = 0 := by
      split
      case isTrue hmem =>
        rw [withheldAmount, hput hmem]
        rfl
      case isFalse => rfl
    have hnone : ∑ k ∈ K.erase D, (l₁.setData D (.account d') k).fees M = 0 :=
      Finset.sum_eq_zero fun k hk => by rw [hrest k hk, AccountRecord.fees_withoutFees]
    rw [hzero, hnone]
    rfl
  · by_cases hmem : D ∈ K
    · rw [if_pos hmem]
      conv_lhs => rw [h.account, if_pos hmem]
      conv_rhs => rw [h.account, if_pos hmem]
      simp [PodStateWithExtensions.setExtension]
    · rw [if_neg hmem]
  · exact (Ledger.withoutFees_eq_self fun k hk => by
      rw [hrest k hk, AccountRecord.withoutFees_withoutFees]).symm

end FeesCollected

/-! ### The authority -/

/-- Accounts change, but none of them is a multisig. -/
def SameMultisigs (l l' : Ledger) : Prop := ∀ k, (l' k).owner = (l k).owner ∧
  ((l' k).data = (l k).data ∨ ((l k).data.len ≠ multisigLen ∧ (l' k).data.len ≠ multisigLen))

theorem validateOwner_congr (h : SameMultisigs l l') (key : Pubkey) :
    validateOwner l' key authorityInfo signers = validateOwner l key authorityInfo signers := by
  obtain ⟨howner, hdata | ⟨hlen, hlen'⟩⟩ := h authorityInfo.key
  · rw [validateOwner, validateOwner, howner, hdata]
  · rw [validateOwner, validateOwner, if_neg (fun h => hlen' h.2), if_neg (fun h => hlen h.2)]

theorem SameMultisigs.trans {l₁ : Ledger} (h : SameMultisigs l l₁) (h' : SameMultisigs l₁ l') :
    SameMultisigs l l' := by
  intro k
  obtain ⟨howner, hdata⟩ := h k
  obtain ⟨howner', hdata'⟩ := h' k
  refine ⟨howner'.trans howner, ?_⟩
  rcases hdata' with hdata' | ⟨hlen, hlen'⟩
  · rw [hdata']
    exact hdata
  · rcases hdata with hdata | ⟨hlen₀, -⟩
    · exact Or.inr ⟨hdata ▸ hlen, hlen'⟩
    · exact Or.inr ⟨hlen₀, hlen'⟩

theorem SameMultisigs.withoutFees (M : Pubkey) (K : Finset Pubkey) (l : Ledger) :
    SameMultisigs l (l.withoutFees M K) := by
  intro k
  refine ⟨Ledger.withoutFees_owner k, ?_⟩
  by_cases hk : k ∈ K
  · rw [Ledger.withoutFees_of_mem hk]
    cases hfee : (l k).feeAccount M with
    | none => exact Or.inl (by rw [AccountRecord.withoutFees_of_none hfee])
    | some p =>
      obtain ⟨hdata, -, hlen, -⟩ :=
        unpackAccount_eq_ok.mp (AccountRecord.feeAccount_eq_some.mp hfee).1
      rw [AccountRecord.withoutFees_of_some hfee, hdata]
      exact Or.inr ⟨hlen, hlen⟩
  · exact Or.inl (by rw [Ledger.withoutFees_of_not_mem hk])

theorem SameMultisigs.setData {k : Pubkey} {d : AccountData} (hlen : (l k).data.len ≠ multisigLen)
    (hlen' : d.len ≠ multisigLen) : SameMultisigs l (l.setData k d) := by
  intro j
  refine ⟨Ledger.setData_owner l k d j, ?_⟩
  by_cases hj : j = k
  · subst hj
    rw [Ledger.setData_self]
    exact Or.inr ⟨hlen, hlen'⟩
  · exact Or.inl (by rw [Ledger.setData_of_ne hj])

theorem withdraw_again
    (h : processWithdrawWithheldTokensFromAccounts n
      (mintInfo :: destinationInfo :: authorityInfo :: infos) l = .ok l') :
    processWithdrawWithheldTokensFromAccounts n
      (mintInfo :: destinationInfo :: authorityInfo :: infos) l' = .ok l' := by
  obtain ⟨m, v, d, d', l₁, hw, ⟨key, hkey, hauthority⟩, hcollected, hwrite⟩ := withdraw_iff.mp h
  obtain ⟨-, rfl⟩ := Ledger.writeData_eq_ok.mp hwrite
  have hmint : l₁.setData destinationInfo.key (.account d') mintInfo.key = l mintInfo.key := by
    rw [Ledger.setData_of_ne (Ne.symm hw.ne), hcollected.ledger, Ledger.withoutFees_of_not_mem
      fun hmem => hcollected.mint (Finset.mem_of_mem_erase hmem)]
  have hsame : l₁ destinationInfo.key = l destinationInfo.key := by
    rw [hcollected.ledger, Ledger.withoutFees_of_not_mem (Finset.notMem_erase _ _)]
  have hdata : (l₁.setData destinationInfo.key (.account d') destinationInfo.key).data =
      .account d' := by rw [Ledger.setData_self]
  have hmultisigs : SameMultisigs l (l₁.setData destinationInfo.key (.account d')) := by
    obtain ⟨hd, -, hlen, -⟩ := unpackAccount_eq_ok.mp hw.destination
    have hfees : SameMultisigs l l₁ := hcollected.ledger ▸ .withoutFees _ _ _
    refine hfees.trans (.setData ?_ ?_)
    · rw [hsame, hd]
      exact hlen
    · exact fun e => hlen (hcollected.len ▸ e)
  refine withdraw_iff.mpr ⟨m, v, d', d', l₁.setData destinationInfo.key (.account d'), ?_,
    ⟨key, hkey, by rwa [validateOwner_congr hmultisigs]⟩, hcollected.again, ?_⟩
  · refine ⟨hmint ▸ hw.owner, hmint ▸ hw.mint, hw.config, hw.ne,
      hcollected.unpackAccount hw.destination hdata, ?_, ?_⟩
    · rw [hcollected.base]
      exact hw.destinationMint
    · rw [hcollected.base]
      exact hw.notFrozen
  · exact Ledger.writeData_eq_ok.mpr ⟨Or.inr hdata, (Ledger.setData_eq_self hdata).symm⟩

/-! ### The two ways to the same ledger -/

theorem withdrawFromMint_iff {m : PodStateWithExtensions PodMint} {v : TransferFeeConfig}
    {d : PodStateWithExtensions PodAccount}
    (h : Withdrawable l mintInfo.key destinationInfo.key m v d) :
    processWithdrawWithheldTokensFromMint
        (mintInfo :: destinationInfo :: authorityInfo :: signers) l = .ok l' ↔
      WithdrawAuthorised l v authorityInfo signers ∧ ∃ amount : UInt64,
        amount.toNat = d.base.amount.toNat + v.withheldAmount.toNat ∧
        ((l destinationInfo.key).owner = programId ∨ amount = d.base.amount) ∧
        l' = (l.setData mintInfo.key
          (.mint (m.setExtension .transferFeeConfig { v with withheldAmount := 0 }))).setData
          destinationInfo.key (.account { d with base := { d.base with amount := amount } }) := by
  obtain ⟨howner, hm, hv, hne, hd, hmint, hfrozen⟩ := h
  have hwrite (amount : UInt64) : ((l destinationInfo.key).owner = programId ∨
        (l destinationInfo.key).data = .account { d with base := { d.base with amount := amount } }) ↔
      ((l destinationInfo.key).owner = programId ∨ amount = d.base.amount) := by
    rw [(unpackAccount_eq_ok.mp hd).1]
    refine or_congr_right ⟨fun e => ?_, fun e => by rw [e]⟩
    exact (congrArg (fun s : PodStateWithExtensions PodAccount => s.base.amount)
      (AccountData.account.inj e)).symm
  simp only [processWithdrawWithheldTokensFromMint, nextAccountInfo, bind_eq_ok, Prod.exists,
    exists_unit, okOr_eq_ok, ensure_eq_ok, borrowData_eq_ok, checkProgramAccount_eq_ok,
    List.mem_singleton, WithdrawAuthorised]
  constructor
  · rintro ⟨_, _, hinfo, _, _, hinfo', _, _, hinfo'', -, m', hm', v', hv', key, hkey, hauthority,
      -, d', hd', -, -, amount, hamount, l₁, hl₁, hl'⟩
    obtain ⟨rfl, rfl⟩ := Prod.mk.inj (Except.ok.inj hinfo)
    obtain ⟨rfl, rfl⟩ := Prod.mk.inj (Except.ok.inj hinfo')
    obtain ⟨rfl, rfl⟩ := Prod.mk.inj (Except.ok.inj hinfo'')
    obtain rfl := Except.ok.inj (hm.symm.trans hm')
    obtain rfl := Option.some.inj (hv.symm.trans (PodStateWithExtensions.getExtension_eq_ok.mp hv'))
    obtain rfl := Except.ok.inj (hd.symm.trans hd')
    obtain ⟨-, rfl⟩ := Ledger.writeData_eq_ok.mp hl₁
    obtain ⟨hallowed, rfl⟩ := Ledger.writeData_eq_ok.mp hl'
    rw [Ledger.setData_of_ne hne] at hallowed
    exact ⟨⟨key, hkey, hauthority⟩, amount, checkedAdd_eq_some.mp hamount,
      (hwrite amount).mp hallowed, rfl⟩
  · rintro ⟨⟨key, hkey, hauthority⟩, amount, hamount, hallowed, rfl⟩
    refine ⟨_, _, rfl, _, _, rfl, _, _, rfl, howner, m, hm, v,
      PodStateWithExtensions.getExtension_eq_ok.mpr hv, key, hkey, hauthority, hne, d, hd, hmint,
      hfrozen, amount, checkedAdd_eq_some.mpr hamount, _,
      Ledger.writeData_eq_ok.mpr ⟨Or.inl howner, rfl⟩, Ledger.writeData_eq_ok.mpr ⟨?_, rfl⟩⟩
    rw [Ledger.setData_of_ne hne]
    exact (hwrite amount).mpr hallowed

theorem Ledger.setData_comm {k j : Pubkey} (hne : j ≠ k) (a b : AccountData) :
    (l.setData k a).setData j b = (l.setData j b).setData k a := by
  unfold Ledger.setData
  rw [Function.update_of_ne hne, Function.update_of_ne (Ne.symm hne), Function.update_comm hne]

theorem Ledger.setData_setData (k : Pubkey) (a b : AccountData) :
    (l.setData k a).setData k b = l.setData k b := by
  unfold Ledger.setData
  rw [Function.update_self, Function.update_idem]

/-- The destination may still be withdrawn to once the fees are taken. -/
theorem Withdrawable.withoutFees {M D : Pubkey} {K : Finset Pubkey}
    {m : PodStateWithExtensions PodMint} {v : TransferFeeConfig}
    {d : PodStateWithExtensions PodAccount} (h : Withdrawable l M D m v d) (hmem : M ∉ K) :
    ∃ d₀, Withdrawable (l.withoutFees M K) M D m v d₀ := by
  obtain ⟨howner, hm, hv, hne, hd, hmint, hfrozen⟩ := h
  have hsame : l.withoutFees M K M = l M := Ledger.withoutFees_of_not_mem hmem
  by_cases hD : D ∈ K
  · cases hfee : (l D).feeAccount M with
    | none =>
      refine ⟨d, hsame ▸ howner, hsame ▸ hm, hv, hne, ?_, hmint, hfrozen⟩
      rwa [Ledger.withoutFees_of_mem hD, AccountRecord.withoutFees_of_none hfee]
    | some p =>
      obtain ⟨s, w⟩ := p
      obtain ⟨hs, -⟩ := AccountRecord.feeAccount_eq_some.mp hfee
      obtain rfl := Except.ok.inj (hd.symm.trans hs)
      refine ⟨d.setExtension .transferFeeAmount ⟨0⟩, hsame ▸ howner, hsame ▸ hm, hv, hne, ?_, hmint,
        hfrozen⟩
      rw [Ledger.withoutFees_of_mem hD]
      exact (AccountRecord.feeAccount_eq_some.mp (AccountRecord.feeAccount_withoutFees hfee)).1
  · refine ⟨d, hsame ▸ howner, hsame ▸ hm, hv, hne, ?_, hmint, hfrozen⟩
    rwa [Ledger.withoutFees_of_not_mem hD]

/-- Through the mint or past it, the fees reach the destination. -/
theorem collected_either_way {m : PodStateWithExtensions PodMint}
    {v : TransferFeeConfig} {d : PodStateWithExtensions PodAccount} {l₁ l₂ : Ledger} {fees : ℕ}
    (hw : Withdrawable l mintInfo.key destinationInfo.key m v d)
    (hwithheld : WithheldBy l l₁ mintInfo.key fees) (hpaid : PaidTo l l₂ destinationInfo.key fees) :
    processWithdrawWithheldTokensFromMint
        (mintInfo :: destinationInfo :: authorityInfo :: signers) l₁ = .ok l' ↔
      processWithdrawWithheldTokensFromMint
        (mintInfo :: destinationInfo :: authorityInfo :: signers) l₂ = .ok l' := by
  obtain ⟨m₁, v₁, n₁, hm₁, hv₁, hn₁, rfl⟩ := hwithheld
  obtain ⟨d₂, n₂, hd₂, hn₂, hpayable, rfl⟩ := hpaid
  obtain ⟨hm, hminit, hmlen⟩ := unpackMint_eq_ok.mp hw.mint
  obtain ⟨hd, hdinit, hdlen⟩ := unpackAccount_eq_ok.mp hw.destination
  obtain rfl := AccountData.mint.inj (hm.symm.trans hm₁)
  obtain rfl := AccountData.account.inj (hd.symm.trans hd₂)
  obtain rfl := Option.some.inj (hw.config.symm.trans hv₁)
  have hl₁ : Withdrawable (l.setData mintInfo.key
      (.mint (m.setExtension .transferFeeConfig { v with withheldAmount := n₁ })))
      mintInfo.key destinationInfo.key
      (m.setExtension .transferFeeConfig { v with withheldAmount := n₁ })
      { v with withheldAmount := n₁ } d := by
    refine ⟨?_, ?_, by simp, hw.ne, ?_, hw.destinationMint, hw.notFrozen⟩
    · rw [Ledger.setData_owner]
      exact hw.owner
    · rw [Ledger.setData_self]
      exact unpackMint_eq_ok.mpr ⟨rfl, hminit, hmlen⟩
    · rw [Ledger.setData_of_ne hw.ne]
      exact hw.destination
  have hl₂ : Withdrawable (l.setData destinationInfo.key
      (.account { d with base := { d.base with amount := n₂ } }))
      mintInfo.key destinationInfo.key m v { d with base := { d.base with amount := n₂ } } := by
    refine ⟨?_, ?_, hw.config, hw.ne, ?_, hw.destinationMint, hw.notFrozen⟩
    · rw [Ledger.setData_owner]
      exact hw.owner
    · rw [Ledger.setData_of_ne (Ne.symm hw.ne)]
      exact hw.mint
    · rw [Ledger.setData_self]
      exact unpackAccount_eq_ok.mpr ⟨rfl, hdinit, hdlen⟩
  -- Neither write touches a multisig, so the authority signs for both or for none.
  have hauthority : WithdrawAuthorised (l.setData mintInfo.key
      (.mint (m.setExtension .transferFeeConfig { v with withheldAmount := n₁ })))
      { v with withheldAmount := n₁ } authorityInfo signers ↔
      WithdrawAuthorised (l.setData destinationInfo.key
        (.account { d with base := { d.base with amount := n₂ } })) v authorityInfo signers := by
    unfold WithdrawAuthorised
    refine exists_congr fun key => and_congr_right fun _ => ?_
    rw [validateOwner_congr (.setData ?_ ?_), validateOwner_congr (.setData ?_ ?_)]
    · rw [hd]
      exact hdlen.1
    · exact hdlen.1
    · rw [hm]
      exact hmlen.1
    · exact hmlen.1
  rw [withdrawFromMint_iff hl₁, withdrawFromMint_iff hl₂]
  refine and_congr hauthority (exists_congr fun amount => ?_)
  refine and_congr ?_ (and_congr ?_ ?_)
  · dsimp only
    rw [hn₁, hn₂]
    omega
  · rw [Ledger.setData_owner, Ledger.setData_owner]
    rcases hpayable with howner | hzero
    · exact iff_of_true (Or.inl howner) (Or.inl howner)
    · rw [hzero, Nat.add_zero, UInt64.toNat_inj] at hn₂
      rw [hn₂]
  · rw [Ledger.setData_setData, Ledger.setData_comm (Ne.symm hw.ne), Ledger.setData_setData]
    simp only [PodStateWithExtensions.setExtension, TypedStore.put_put]

end

/-! ### Collected once -/

/-- A successful harvest or withdrawal takes the fees of every listed account once
and changes nothing else. Order and repetition of the list do not matter, a second
run does nothing, and both ways lead to the same ledger once the mint is emptied as
well. -/
theorem fees_collected (x : Externals) (env : Env) (mintInfo : AccountInfo) (l : Ledger) :
    (∀ infos l₁, process x env .harvestWithheldTokensToMint (mintInfo :: infos) l = .ok l₁ →
      WithheldBy (l.withoutFees mintInfo.key (keySet infos)) l₁ mintInfo.key
        (∑ k ∈ keySet infos, (l k).fees mintInfo.key) ∧
      (∀ k ∈ keySet infos, (l₁ k).fees mintInfo.key = 0) ∧
      (∀ infos', keySet infos' = keySet infos →
        process x env .harvestWithheldTokensToMint (mintInfo :: infos') l = .ok l₁) ∧
      process x env .harvestWithheldTokensToMint (mintInfo :: infos) l₁ = .ok l₁) ∧
    ∀ destinationInfo authorityInfo n infos l₂,
      process x env (.withdrawWithheldTokensFromAccounts n)
        (mintInfo :: destinationInfo :: authorityInfo :: infos) l = .ok l₂ →
      PaidTo (l.withoutFees mintInfo.key (keySet (listedAccounts n infos))) l₂ destinationInfo.key
        (∑ k ∈ keySet (listedAccounts n infos), (l k).fees mintInfo.key) ∧
      (∀ k ∈ keySet (listedAccounts n infos), (l₂ k).fees mintInfo.key = 0) ∧
      (∀ n' infos', listedSigners n' infos' = listedSigners n infos →
        keySet (listedAccounts n' infos') = keySet (listedAccounts n infos) →
        process x env (.withdrawWithheldTokensFromAccounts n')
          (mintInfo :: destinationInfo :: authorityInfo :: infos') l = .ok l₂) ∧
      process x env (.withdrawWithheldTokensFromAccounts n)
        (mintInfo :: destinationInfo :: authorityInfo :: infos) l₂ = .ok l₂ ∧
      ∀ infos' l₁, keySet infos' = keySet (listedAccounts n infos) →
        process x env .harvestWithheldTokensToMint (mintInfo :: infos') l = .ok l₁ →
        ∀ authorityInfo' signers l',
          process x env .withdrawWithheldTokensFromMint
              (mintInfo :: destinationInfo :: authorityInfo' :: signers) l₁ = .ok l' ↔
            process x env .withdrawWithheldTokensFromMint
              (mintInfo :: destinationInfo :: authorityInfo' :: signers) l₂ = .ok l' := by
  refine ⟨fun infos l₁ h => ⟨harvest_withheldBy h, fun k hk => ?_,
    fun infos' hsame => (harvest_congr hsame).mpr h, harvest_again h⟩,
    fun destinationInfo authorityInfo n infos l₂ h => ?_⟩
  · rw [harvest_fees h hk, AccountRecord.fees_withoutFees]
  · obtain ⟨m, v, d, d', l₀, hw, -, hcollected, hwrite⟩ := withdraw_iff.mp h
    have hpaid := hcollected.paidTo hw.destination hw.destinationMint hwrite
    refine ⟨hpaid, fun k hk => ?_, fun n' infos' hsigners hsame =>
      (withdraw_congr hsigners hsame).mpr h, withdraw_again h,
      fun infos' l₁ hsame h' authorityInfo' signers l' => ?_⟩
    · rw [hpaid.fees, Ledger.withoutFees_of_mem hk, AccountRecord.fees_withoutFees]
    · have hwithheld := harvest_withheldBy ((harvest_congr hsame.symm).mpr h')
      obtain ⟨d₀, hw₀⟩ := hw.withoutFees hcollected.mint
      exact collected_either_way hw₀ hwithheld hpaid

/-- A mint with a fee configuration, and two accounts of it that withhold fees. -/
def withheldLedger : Ledger :=
  let account (fee : UInt64) : PodStateWithExtensions PodAccount :=
    ⟨{ mint := ⟨1⟩, owner := ⟨7⟩, amount := 10, delegate := none, state := .initialized,
       isNative := none, delegatedAmount := 0, closeAuthority := none }, 178,
      [⟨.transferFeeAmount, ⟨fee⟩⟩]⟩
  .ofList [
    (⟨1⟩, ⟨1, programId, .mint ⟨⟨none, 100, 2, true, none⟩, 278,
      [⟨.transferFeeConfig, ⟨⟨⟨0⟩⟩, ⟨⟨9⟩⟩, 0, ⟨0, 5, 100⟩, ⟨0, 5, 100⟩⟩⟩]⟩⟩),
    (⟨2⟩, ⟨1, programId, .account (account 3)⟩),
    (⟨3⟩, ⟨1, programId, .account (account 4)⟩)]

/-- The account at 2 is listed twice, and the destination at 3 once. -/
theorem fees_collected_thrice_listed :
    ∃ l, process .refusing (.plain 0) (.withdrawWithheldTokensFromAccounts 3)
        [⟨⟨1⟩, false⟩, ⟨⟨3⟩, false⟩, ⟨⟨9⟩, true⟩, ⟨⟨2⟩, false⟩, ⟨⟨3⟩, false⟩, ⟨⟨2⟩, false⟩]
        withheldLedger = .ok l ∧
      PaidTo (withheldLedger.withoutFees ⟨1⟩ {⟨2⟩, ⟨3⟩}) l ⟨3⟩ 7 := by
  obtain ⟨l, hok⟩ := Call.succeeds_of_isOk (c := ⟨.refusing, .plain 0,
    .withdrawWithheldTokensFromAccounts 3, [⟨⟨1⟩, false⟩, ⟨⟨3⟩, false⟩, ⟨⟨9⟩, true⟩, ⟨⟨2⟩, false⟩,
      ⟨⟨3⟩, false⟩, ⟨⟨2⟩, false⟩], withheldLedger⟩) (by decide)
  obtain ⟨hpaid, -⟩ := (fees_collected .refusing (.plain 0) ⟨⟨1⟩, false⟩ withheldLedger).2
    ⟨⟨3⟩, false⟩ ⟨⟨9⟩, true⟩ 3 _ l hok
  have hkeys : keySet (listedAccounts 3 [⟨⟨2⟩, false⟩, ⟨⟨3⟩, false⟩, ⟨⟨2⟩, false⟩]) =
      {⟨2⟩, ⟨3⟩} := by decide
  have hsum : ∑ k ∈ ({⟨2⟩, ⟨3⟩} : Finset Pubkey), (withheldLedger k).fees ⟨1⟩ = 7 := by decide
  rw [hkeys, hsum] at hpaid
  exact ⟨l, hok, hpaid⟩

end BarkToken
