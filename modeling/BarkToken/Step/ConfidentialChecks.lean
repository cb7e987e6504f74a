import BarkToken.Step.Record

/-!
# What a confidential instruction checks first (extension/confidential_transfer)

Deposits, withdrawals and confidential transfers look at every account they name
before anything moves, and also when a missing proof lets them do nothing.
-/

namespace BarkToken
open Fallible AccountData

/-- Where the instructions that move confidential tokens name an account that
sends or receives them. -/
def TokenInstruction.confidentialAccounts : TokenInstruction → List ℕ
  | deposit _ _ | withdraw _ _ _ _ => [0]
  | confidentialTransfer _ _ | confidentialTransferWithSplitProofs _ _ _ _ => [0, 2]
  | _ => []

/-- A deposit to the account, a withdrawal from it, or a confidential transfer
into it or out of it. -/
def Call.MovesConfidentially (c : Call) (k : Pubkey) : Prop :=
  ∃ i ∈ c.ix.confidentialAccounts, c.key i = some k

/-- What holds of an account that a confidential instruction names: it is not
frozen, and its mint is transferable. -/
structure ConfidentiallyOpen (l : Ledger) (s : PodStateWithExtensions PodAccount) : Prop where
  notFrozen : ¬ s.base.frozen
  transferable : ∃ mint, (l s.base.mint).data.unpackMint = .ok mint ∧
    ¬ mint.hasExtension .nonTransferable

variable {x : Externals} {env : Env} {accounts : List AccountInfo} {l l' : Ledger}
  {s : PodStateWithExtensions PodAccount} {k : Pubkey}

theorem processDeposit_open {amount : UInt64} {decimals : UInt8}
    (h : processDeposit x.zk amount decimals accounts l = .ok l') :
    ∃ info rest, accounts = info :: rest ∧
      ∀ s, (l info.key).data = .account s → ConfidentiallyOpen l s := by
  simp only [processDeposit, bind_eq_ok, Prod.exists, nextAccountInfo_eq_ok] at h
  obtain ⟨tokenAccountInfo, rest, rfl, mintInfo, rest', rfl, authorityInfo, signers, rfl, s, hcheck,
    -⟩ := h
  obtain ⟨hs, -, hfrozen, -, hmint, hmarker⟩ := checkConfidentialMove_eq_ok hcheck
  refine ⟨tokenAccountInfo, _, rfl, fun s' hs' => ?_⟩
  obtain rfl := AccountData.account.inj (hs'.symm.trans (unpackAccount_eq_ok.mp hs).1)
  exact ⟨hfrozen, hmint ▸ hmarker⟩

theorem processWithdraw_open {amount : UInt64} {decimals : UInt8} {balance : AeCiphertext}
    {offset : Int64} (h : processWithdraw x.zk env amount decimals balance offset accounts l = .ok l') :
    ∃ info rest, accounts = info :: rest ∧
      ∀ s, (l info.key).data = .account s → ConfidentiallyOpen l s := by
  simp only [processWithdraw, bind_eq_ok, Prod.exists, nextAccountInfo_eq_ok] at h
  obtain ⟨tokenAccountInfo, rest, rfl, mintInfo, rest', rfl, context, rest'', -, authorityInfo,
    signers, rfl, s, hcheck, -⟩ := h
  obtain ⟨hs, -, hfrozen, -, hmint, hmarker⟩ := checkConfidentialMove_eq_ok hcheck
  refine ⟨tokenAccountInfo, _, rfl, fun s' hs' => ?_⟩
  obtain rfl := AccountData.account.inj (hs'.symm.trans (unpackAccount_eq_ok.mp hs).1)
  exact ⟨hfrozen, hmint ▸ hmarker⟩

/-! ### Confidential transfers -/

/-- The source is checked whether or not there is a context, and keeps its base
state. -/
theorem sourceForTransfer_open {zk : ZkOps} {sourceInfo mintInfo authorityInfo : AccountInfo}
    {signers : List AccountInfo} {parts : Option TransferParts} {balance : AeCiphertext}
    (h : sourceForTransfer zk l sourceInfo mintInfo authorityInfo signers parts balance = .ok l') :
    ∃ s, (l sourceInfo.key).data = .account s ∧ ¬ s.base.frozen ∧ s.base.mint = mintInfo.key ∧
      ∀ k d, (l k).data = .account d → ∃ d', (l' k).data = .account d' ∧ d'.base = d.base := by
  simp only [sourceForTransfer, bind_eq_ok, exists_unit, ensure_eq_ok] at h
  obtain ⟨-, -, -, s, hs, -, hfrozen, hmint, e, -, -, h⟩ := h
  have hdata := (unpackAccount_eq_ok.mp hs).1
  refine ⟨s, hdata, hfrozen, hmint, fun k d hd => ?_⟩
  cases parts with
  | none =>
    obtain rfl := Except.ok.inj h
    exact ⟨d, hd, rfl⟩
  | some p =>
    simp only [bind_eq_ok] at h
    obtain ⟨e', -, hwrite⟩ := h
    obtain ⟨-, rfl⟩ := Ledger.writeData_eq_ok.mp hwrite
    by_cases hk : k = sourceInfo.key
    · subst hk
      obtain rfl := AccountData.account.inj (hdata.symm.trans hd)
      exact ⟨_, congrArg AccountRecord.data Ledger.setData_self, rfl⟩
    · exact ⟨d, by rwa [Ledger.setData_of_ne hk], rfl⟩

theorem checkConfidentialDestination_open {destinationInfo mintInfo : AccountInfo}
    {p : PodStateWithExtensions PodAccount × ConfidentialTransferAccount}
    (h : checkConfidentialDestination env l destinationInfo mintInfo = .ok p) :
    ∃ d, (l destinationInfo.key).data = .account d ∧ ¬ d.base.frozen ∧ d.base.mint = mintInfo.key := by
  simp only [checkConfidentialDestination, bind_eq_ok, exists_unit, ensure_eq_ok] at h
  obtain ⟨-, -, d, hd, hfrozen, hmint, -⟩ := h
  exact ⟨d, (unpackAccount_eq_ok.mp hd).1, hfrozen, hmint⟩

/-- The two balances of a transfer belong to accounts of the mint that are not
frozen. -/
structure EndsOpen (l : Ledger) (infos : TransferInfos) : Prop where
  source : ∀ s, (l infos.source.key).owner = programId → (l infos.source.key).data = .account s →
    ¬ s.base.frozen ∧ s.base.mint = infos.mint.key
  destination : ∀ s, (l infos.destination.key).owner = programId →
    (l infos.destination.key).data = .account s → ¬ s.base.frozen ∧ s.base.mint = infos.mint.key

/-- Closing the contexts leaves the accounts of this program alone, and the
source's own write keeps its base state. -/
theorem EndsOpen.of_checks {l₁ l₂ : Ledger} {infos : TransferInfos} {flags : SplitFlags}
    {tail : List AccountInfo} (hclosed : ContextsClosed env flags tail l l₁)
    {s d : PodStateWithExtensions PodAccount}
    (hs : (l₁ infos.source.key).data = .account s)
    (hsource : ¬ s.base.frozen ∧ s.base.mint = infos.mint.key)
    (hkeep : ∀ k d, (l₁ k).data = .account d → ∃ d', (l₂ k).data = .account d' ∧ d'.base = d.base)
    (hd : (l₂ infos.destination.key).data = .account d)
    (hdestination : ¬ d.base.frozen ∧ d.base.mint = infos.mint.key) : EndsOpen l infos where
  source s' howner hs' := by
    obtain ⟨-, hsame, -⟩ := (hclosed.foreign infos.source.key).keeps howner
    obtain rfl := AccountData.account.inj ((hsame.trans hs').symm.trans hs)
    exact hsource
  destination d' howner hd' := by
    obtain ⟨-, hsame, -⟩ := (hclosed.foreign infos.destination.key).keeps howner
    obtain ⟨d'', hd'', hbase⟩ := hkeep _ _ (hsame.trans hd')
    obtain rfl := AccountData.account.inj (hd''.symm.trans hd)
    exact hbase ▸ hdestination

theorem executeTransfer_open {data : ConfidentialTransferData} {infos : TransferInfos}
    {cm : ConfidentialTransferMint} {tail : List AccountInfo} {executed : ExecutedTransfer}
    (h : executeTransfer x.zk env data infos cm tail l = .ok executed) : EndsOpen l infos := by
  simp only [executeTransfer, bind_eq_ok, Prod.exists, exists_unit] at h
  obtain ⟨v, hv, rest, -, authorityInfo, signers, -, -, l₂, hsource, l₃, hdestination, -⟩ := h
  simp only [processDestinationForTransfer, bind_eq_ok] at hdestination
  obtain ⟨p, hcheck, -⟩ := hdestination
  obtain ⟨s, hs, hfrozen, hmint, hkeep⟩ := sourceForTransfer_open hsource
  obtain ⟨d, hd, hopen⟩ := checkConfidentialDestination_open hcheck
  have hverified : Verified env l tail data.flags (data.contextAccounts 3)
      (fun a => (Call.mk x env (.closeAccount) tail l).Certifies a.parts none) v :=
    verifyTransferProof_eq_ok hv
  exact .of_checks hverified.closed hs ⟨hfrozen, hmint⟩ hkeep hd hopen

theorem executeTransferWithFee_open {data : ConfidentialTransferData} {infos : TransferInfos}
    {m : PodStateWithExtensions PodMint} {cm : ConfidentialTransferMint} {config : TransferFeeConfig}
    {tail : List AccountInfo} {executed : ExecutedTransfer}
    (h : executeTransferWithFee x.zk env data infos m cm config tail l = .ok executed) :
    EndsOpen l infos := by
  simp only [executeTransferWithFee, bind_eq_ok, Prod.exists, exists_unit] at h
  obtain ⟨v, hv, rest, -, authorityInfo, signers, -, -, feeConfig, -, -, l₂, hsource, l₃,
    hdestination, -⟩ := h
  simp only [processDestinationForTransferWithFee, bind_eq_ok] at hdestination
  obtain ⟨p, hcheck, -⟩ := hdestination
  obtain ⟨s, hs, hfrozen, hmint, hkeep⟩ := sourceForTransfer_open hsource
  obtain ⟨d, hd, hopen⟩ := checkConfidentialDestination_open hcheck
  have hverified : Verified env l tail data.flags (data.contextAccounts 5)
      (fun a => (Call.mk x env (.closeAccount) tail l).Certifies a.parts (some a.feeParts)) v :=
    verifyTransferWithFeeProof_eq_ok hv
  exact .of_checks hverified.closed hs ⟨hfrozen, hmint⟩ hkeep hd hopen

/-- A confidential transfer leaves frozen accounts and untransferable mints alone. -/
theorem processConfidentialTransfer_open {data : ConfidentialTransferData}
    (h : processConfidentialTransfer x.zk env data accounts l = .ok l') :
    ∃ source mint destination tail, accounts = source :: mint :: destination :: tail ∧
      ∀ k s, k = source.key ∨ k = destination.key → (l k).owner = programId →
        (l k).data = .account s → ConfidentiallyOpen l s := by
  simp only [processConfidentialTransfer, bind_eq_ok, Prod.exists, exists_unit, ensure_eq_ok,
    nextAccountInfo_eq_ok] at h
  obtain ⟨sourceInfo, r₁, rfl, mintInfo, r₂, rfl, destinationInfo, tail, rfl, -, m, hm, hmarker, cm,
    -, executed, hexecuted, -⟩ := h
  have hopen : EndsOpen l ⟨sourceInfo, mintInfo, destinationInfo⟩ := by
    unfold executeForMint at hexecuted
    split at hexecuted
    · exact executeTransfer_open hexecuted
    · exact executeTransferWithFee_open hexecuted
  refine ⟨sourceInfo, mintInfo, destinationInfo, tail, rfl, ?_⟩
  rintro k s (rfl | rfl) howner hs
  · obtain ⟨hfrozen, hmint⟩ := hopen.source s howner hs
    exact ⟨hfrozen, m, hmint ▸ hm, hmarker⟩
  · obtain ⟨hfrozen, hmint⟩ := hopen.destination s howner hs
    exact ⟨hfrozen, m, hmint ▸ hm, hmarker⟩

/-- No confidential instruction that succeeds names a frozen account, or one of
an untransferable mint. -/
theorem Call.process_confidentiallyOpen {c : Call} (h : c.process = .ok l')
    (hmoves : c.MovesConfidentially k) (hs : AccountAt c.ledger k s) :
    ConfidentiallyOpen c.ledger s := by
  obtain ⟨x, env, ix, accounts, l⟩ := c
  obtain ⟨i, hi, hkey⟩ := hmoves
  cases ix with
  | deposit =>
    obtain rfl := List.mem_singleton.mp hi
    obtain ⟨info, rest, rfl, hopen⟩ := processDeposit_open h
    obtain rfl : info.key = k := Option.some.inj hkey
    exact hopen s hs.data
  | withdraw =>
    obtain rfl := List.mem_singleton.mp hi
    obtain ⟨info, rest, rfl, hopen⟩ := processWithdraw_open h
    obtain rfl : info.key = k := Option.some.inj hkey
    exact hopen s hs.data
  | confidentialTransfer =>
    obtain ⟨source, mint, destination, tail, rfl, hopen⟩ := processConfidentialTransfer_open h
    refine hopen k s ?_ hs.owner hs.data
    rcases List.mem_pair.mp hi with rfl | rfl
    · exact Or.inl (Option.some.inj hkey).symm
    · exact Or.inr (Option.some.inj hkey).symm
  | confidentialTransferWithSplitProofs =>
    obtain ⟨source, mint, destination, tail, rfl, hopen⟩ := processConfidentialTransfer_open h
    refine hopen k s ?_ hs.owner hs.data
    rcases List.mem_pair.mp hi with rfl | rfl
    · exact Or.inl (Option.some.inj hkey).symm
    · exact Or.inr (Option.some.inj hkey).symm
  | _ => exact absurd hi (by simp [TokenInstruction.confidentialAccounts])

end BarkToken
