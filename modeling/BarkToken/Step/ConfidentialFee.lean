import BarkToken.Step.Authority
import BarkToken.Step.Confidential
import BarkToken.Step.Hook

/-!
# Confidential withheld fees, step by step (Confidential/Fee)
-/

namespace BarkToken
open Fallible CheckedWord AccountData

variable {x : Externals} {env : Env} {ix : TokenInstruction} {accounts : List AccountInfo}
  {l l' : Ledger}

/-! ### Records -/

/-- A mint whose encrypted withheld amount has changed. -/
theorem MintStep.of_confidentialWithheld {c : Call} {k : Pubkey} {s : PodStateWithExtensions PodMint}
    {v : ConfidentialTransferFeeConfig} (hget : s.tlv.get .confidentialTransferFeeConfig = some v)
    (n : ElGamalCiphertext) :
    MintStep c k s
      (s.setExtension .confidentialTransferFeeConfig { v with withheldAmount := n }) := by
  refine mintStep_setExtension (t := .confidentialTransferFeeConfig) ⟨⟨v, hget, rfl⟩, .of_single
    (a := .confidentialTransferFeeConfig) (by decide) hget (.of_eq rfl)⟩
    (Or.inl (Option.isSome_of_eq_some hget)) (Or.inl ?_)
  rw [mintWithheldAmount_setExtension (by decide)]
  exact UInt64.le_refl _

/-! ### One account -/

/-- The encrypted fees that `k` withholds for a mint, taken out of it. -/
structure ConfidentialHarvested (l l' : Ledger) (mintKey k : Pubkey)
    (s : PodStateWithExtensions PodAccount) (amount : ElGamalCiphertext) : Prop where
  owner : (l k).owner = programId
  data : (l k).data = .account s
  mint : s.base.mint = mintKey
  withheld : s.tlv.get .confidentialTransferFeeAmount = some ⟨amount⟩
  ledger : l' = l.setData k (.account (s.setExtension .confidentialTransferFeeAmount ⟨.zeroed⟩))

theorem harvestConfidential_eq_ok {mintKey k : Pubkey} {amount : ElGamalCiphertext}
    (h : harvestConfidential l mintKey k = .ok (amount, l')) :
    ∃ s, ConfidentialHarvested l l' mintKey k s amount := by
  simp only [harvestConfidential, bind_eq_ok, exists_unit, mapErr_eq_ok, ensure_eq_ok,
    checkProgramAccount_eq_ok, pure_eq_ok, Prod.mk.injEq] at h
  obtain ⟨s, hs, hmint, howner, v, hv, l₁, hwrite, rfl, rfl⟩ := h
  obtain ⟨-, rfl⟩ := Ledger.writeData_eq_ok.mp hwrite
  exact ⟨s, howner, (unpackAccount_eq_ok.mp hs).1, hmint,
    PodStateWithExtensions.getExtension_eq_ok.mp hv, rfl⟩

theorem ConfidentialHarvested.kept {mintKey k : Pubkey} {s : PodStateWithExtensions PodAccount}
    {amount : ElGamalCiphertext} (h : ConfidentialHarvested l l' mintKey k s amount) :
    KeptStep [.confidentialTransferFeeAmount] l l' := by
  rw [h.ledger]
  exact KeptStep.of_setExtension (t := .confidentialTransferFeeAmount) _
    (List.mem_singleton_self _) h.owner h.data

theorem ConfidentialHarvested.of_ne {mintKey k j : Pubkey}
    {s : PodStateWithExtensions PodAccount} {amount : ElGamalCiphertext}
    (h : ConfidentialHarvested l l' mintKey k s amount) (hne : j ≠ k) : l' j = l j := by
  rw [h.ledger, Ledger.setData_of_ne hne]

/-- One account of a harvest: it is left alone, or its fees are added up. -/
theorem harvestConfidentialInto_eq_ok {zk : ZkOps} {mintKey : Pubkey} {info : AccountInfo}
    {n n' : ElGamalCiphertext} (h : harvestConfidentialInto zk mintKey (n, l) info = .ok (n', l')) :
    info.key ≠ mintKey ∧ ((n' = n ∧ l' = l) ∨ ∃ s amount,
      ConfidentialHarvested l l' mintKey info.key s amount ∧ zk.add n amount = some n') := by
  simp only [harvestConfidentialInto, bind_eq_ok, exists_unit, borrowData_eq_ok,
    List.mem_singleton] at h
  obtain ⟨hne, h⟩ := h
  refine ⟨hne, ?_⟩
  split at h
  case h_1 amount l₁ hharvest =>
    simp only [bind_eq_ok, okOr_eq_ok, pure_eq_ok, Prod.mk.injEq] at h
    obtain ⟨total, htotal, rfl, rfl⟩ := h
    obtain ⟨s, hs⟩ := harvestConfidential_eq_ok hharvest
    exact Or.inr ⟨s, amount, hs, htotal⟩
  case h_2 =>
    obtain ⟨rfl, rfl⟩ := Prod.mk.inj (pure_eq_ok.mp h)
    exact Or.inl ⟨rfl, rfl⟩

/-! ### Harvest to the mint -/

theorem confidentialHarvestLoop_kept {zk : ZkOps} {mintKey : Pubkey} {infos : List AccountInfo}
    {s t : ElGamalCiphertext × Ledger}
    (h : loop (harvestConfidentialInto zk mintKey) infos s = .ok t) :
    KeptStep [.confidentialTransferFeeAmount] s.2 t.2 ∧ t.2 mintKey = s.2 mintKey := by
  refine loop_relation (fun s t : ElGamalCiphertext × Ledger =>
      KeptStep [.confidentialTransferFeeAmount] s.2 t.2 ∧ t.2 mintKey = s.2 mintKey)
    (fun s => ⟨.refl s.2, rfl⟩) (fun s t u hst htu => ⟨hst.1.trans htu.1, htu.2.trans hst.2⟩) ?_ h
  rintro ⟨n, l⟩ info ⟨n', l'⟩ - hpass
  obtain ⟨hne, ⟨-, rfl⟩ | ⟨s, amount, hharvested, -⟩⟩ := harvestConfidentialInto_eq_ok hpass
  · exact ⟨.refl _, rfl⟩
  · exact ⟨hharvested.kept, hharvested.of_ne (Ne.symm hne)⟩

/-- The confidential `process_harvest_withheld_tokens_to_mint`, up to its last
write. -/
structure ConfidentialHarvestedToMint (zk : ZkOps) (l l' : Ledger) (mintKey : Pubkey)
    (infos : List AccountInfo) (m : PodStateWithExtensions PodMint)
    (v : ConfidentialTransferFeeConfig) (n : ElGamalCiphertext) (l₁ : Ledger) : Prop where
  mintData : (l mintKey).data.unpackMint = .ok m
  config : m.tlv.get .confidentialTransferFeeConfig = some v
  loop : loop (harvestConfidentialInto zk mintKey) infos (v.withheldAmount, l) = .ok (n, l₁)
  write : l₁.writeData mintKey (.mint (m.setExtension .confidentialTransferFeeConfig
    { v with withheldAmount := n })) = .ok l'

theorem processConfidentialHarvestToMint_eq_ok {zk : ZkOps}
    (h : processConfidentialHarvestToMint zk accounts l = .ok l') :
    ∃ mintKey infos m v n l₁, ConfidentialHarvestedToMint zk l l' mintKey infos m v n l₁ := by
  simp only [processConfidentialHarvestToMint, bind_eq_ok, Prod.exists, exists_unit] at h
  obtain ⟨mintInfo, infos, -, m, hm, config, -, v, hv, -, n, l₁, hloop, hwrite⟩ := h
  exact ⟨mintInfo.key, infos, m, v, n, l₁, hm, PodStateWithExtensions.getExtension_eq_ok.mp hv,
    hloop, hwrite⟩

theorem processConfidentialHarvestToMint_step {c : Call} {zk : ZkOps} (hfixed : NativeMintFixed l)
    (h : processConfidentialHarvestToMint zk accounts l = .ok l') (k : Pubkey) :
    RecordStep c k (l k) (l' k) := by
  obtain ⟨mintKey, infos, m, v, n, l₁, hharvested⟩ := processConfidentialHarvestToMint_eq_ok h
  obtain ⟨hkept, hmint⟩ := confidentialHarvestLoop_kept hharvested.loop
  dsimp only at hkept hmint
  by_cases hk : k = mintKey
  · have hstep := forall_of_writeData (RecordStep.refl c) hharvested.write (fun howner => ?_) k
    · rwa [hk, hmint, ← hk] at hstep
    · rw [hmint] at howner ⊢
      exact .mint howner howner (unpackMint_eq_ok.mp hharvested.mintData).1 rfl
        (hfixed.ne_of_get hharvested.mintData hharvested.config howner)
        (.of_confidentialWithheld hharvested.config n)
  · obtain ⟨-, rfl⟩ := Ledger.writeData_eq_ok.mp hharvested.write
    rw [Ledger.setData_of_ne hk]
    exact (hkept k).recordStep (by simp)

/-! ### Withdrawals from the mint -/

/-- The withheld amount of a mint, paid into a confidential balance. -/
structure ConfidentialMintFeesPaid (c : Call) (l' : Ledger) (mintKey destination : Pubkey)
    (m : PodStateWithExtensions PodMint) (v : ConfidentialTransferFeeConfig)
    (d : PodStateWithExtensions PodAccount) (p : CiphertextCiphertextEqualityProofContext)
    (e e' : ConfidentialTransferAccount) : Prop where
  proof : c.Provides (.ciphertextCiphertextEquality p)
  ne : destination ≠ mintKey
  mintOwner : (c.ledger mintKey).owner = programId
  mintData : (c.ledger mintKey).data = .mint m
  config : m.tlv.get .confidentialTransferFeeConfig = some v
  data : (c.ledger destination).data = .account d
  mint : d.base.mint = mintKey
  extension : d.tlv.get .confidentialTransferAccount = some e
  valid : e.validAsDestination = .ok ()
  paid : ∃ balance, e.paidWithheld c.x.zk p v v.withheldAmount balance = .ok e'
  write : ∃ l₁, c.ledger.writeData destination
      (.account (d.setExtension .confidentialTransferAccount e')) = .ok l₁ ∧
    l' = l₁.setData mintKey (.mint (m.setExtension .confidentialTransferFeeConfig
      { v with withheldAmount := .zeroed }))

theorem withheldDestination_eq_ok {mintKey destination : Pubkey}
    {d : PodStateWithExtensions PodAccount}
    (h : withheldDestination l mintKey destination = .ok d) :
    destination ≠ mintKey ∧ (l destination).data = .account d ∧ d.base.mint = mintKey := by
  simp only [withheldDestination, bind_eq_ok, exists_unit, borrowData_eq_ok, List.mem_singleton,
    ensure_eq_ok, pure_eq_ok] at h
  obtain ⟨hne, d, hd, hmint, -, rfl⟩ := h
  exact ⟨hne, (unpackAccount_eq_ok.mp hd).1, hmint⟩

theorem processConfidentialWithdrawFromMint_eq_ok {balance : AeCiphertext} {offset : Int64}
    (h : processConfidentialWithdrawFromMint x.zk env balance offset accounts l = .ok l') :
    ∃ mintKey destination m v d p e e', ConfidentialMintFeesPaid ⟨x, env, ix, accounts, l⟩ l' mintKey
      destination m v d p e e' := by
  simp only [processConfidentialWithdrawFromMint, bind_eq_ok, Prod.exists, exists_unit,
    checkProgramAccount_eq_ok] at h
  obtain ⟨mintInfo, rest, -, destinationInfo, rest', -, p, rest'', hcontext, authorityInfo, signers,
    -, howner, m, hm, -, v, hv, d, hd, e, he, hvalid, e', he', l₁, hwrite, hwrite'⟩ := h
  obtain ⟨proofInfo, -, hread⟩ := verifyProof_eq_ok hcontext
  obtain ⟨hne, hdata, hmint⟩ := withheldDestination_eq_ok hd
  obtain ⟨-, hl'⟩ := Ledger.writeData_eq_ok.mp hwrite'
  exact ⟨mintInfo.key, destinationInfo.key, m, v, d, p, e, e',
    Call.provides_of_context ProofContext.ciphertextCiphertextEquality?_eq_some hread, hne, howner,
    (unpackMint_eq_ok.mp hm).1, PodStateWithExtensions.getExtension_eq_ok.mp hv, hdata, hmint,
    PodStateWithExtensions.getExtension_eq_ok.mp he, hvalid, ⟨balance, he'⟩, l₁, hwrite, hl'⟩

theorem NativeMintFixed.ne_of_mint {k : Pubkey} {s : PodStateWithExtensions PodMint}
    {t : ExtensionType} {v : t.Value} (hfixed : NativeMintFixed l) (hdata : (l k).data = .mint s)
    (hget : s.tlv.get t = some v) :
    NotNativeMint l k := by
  rintro howner rfl
  obtain ⟨-, -, htlv⟩ := hfixed howner s hdata
  rw [htlv] at hget
  simp at hget

theorem processConfidentialWithdrawFromMint_step {balance : AeCiphertext} {offset : Int64}
    (hfixed : NativeMintFixed l)
    (h : processConfidentialWithdrawFromMint x.zk env balance offset accounts l = .ok l')
    (k : Pubkey) : RecordStep ⟨x, env, ix, accounts, l⟩ k (l k) (l' k) := by
  obtain ⟨mintKey, destination, m, v, d, p, e, e', hpaid⟩ :=
    @processConfidentialWithdrawFromMint_eq_ok x env ix _ _ _ _ _ h
  obtain ⟨balance, hpays⟩ := hpaid.paid
  obtain ⟨l₁, hwrite, rfl⟩ := hpaid.write
  by_cases hk : k = mintKey
  · subst hk
    have hsame : l₁ k = l k := by
      obtain ⟨-, rfl⟩ := Ledger.writeData_eq_ok.mp hwrite
      rw [Ledger.setData_of_ne (Ne.symm hpaid.ne)]
    rw [Ledger.setData_self, hsame]
    exact .mint hpaid.mintOwner hpaid.mintOwner hpaid.mintData rfl
      (hfixed.ne_of_mint hpaid.mintData hpaid.config hpaid.mintOwner) (.of_confidentialWithheld hpaid.config _)
  · rw [Ledger.setData_of_ne hk]
    refine forall_of_writeData (RecordStep.refl _) hwrite (fun howner => ?_) k
    exact .account howner howner hpaid.data rfl (.move (UInt64.le_refl _) hpaid.extension
      (TypedStore.get_put_self _ _ _) (.paidWithheld hpaid.proof hpaid.valid hpays) rfl rfl
      (Tlv.ChangesOnly.put (t := .confidentialTransferAccount) _ _ (by simp)))

/-! ### Withdrawals from accounts -/

/-- One pass of the loop: the destination's own fees, those of one other account,
or nothing. -/
theorem gatherConfidential_eq_ok {zk : ZkOps} {mintKey destination : Pubkey} {info : AccountInfo}
    {s t : ConfidentialWithdrawal} (h : gatherConfidential zk mintKey destination s info = .ok t) :
    (∃ v, s.destination.tlv.get .confidentialTransferFeeAmount = some v ∧ t.ledger = s.ledger ∧
        t.destination = s.destination.setExtension .confidentialTransferFeeAmount ⟨.zeroed⟩ ∧
        zk.add s.withheldAmount v.withheldAmount = some t.withheldAmount) ∨
      t = s ∨ ∃ account amount, info.key ≠ mintKey ∧ info.key ≠ destination ∧
        ConfidentialHarvested s.ledger t.ledger mintKey info.key account amount ∧
        t.destination = s.destination ∧ zk.add s.withheldAmount amount = some t.withheldAmount := by
  unfold gatherConfidential at h
  split at h
  case isTrue =>
    simp only [selfHarvestConfidential, bind_eq_ok, mapErr_eq_ok, okOr_eq_ok, pure_eq_ok] at h
    obtain ⟨v, hv, total, htotal, rfl⟩ := h
    exact Or.inl ⟨v, PodStateWithExtensions.getExtension_eq_ok.mp hv, rfl, rfl, htotal⟩
  case isFalse hdestination =>
    simp only [bind_eq_ok, Prod.exists, pure_eq_ok] at h
    obtain ⟨n, l₁, hharvest, rfl⟩ := h
    obtain ⟨hne, ⟨rfl, rfl⟩ | ⟨account, amount, hharvested, hadd⟩⟩ :=
      harvestConfidentialInto_eq_ok hharvest
    · exact Or.inr (Or.inl rfl)
    · exact Or.inr (Or.inr ⟨account, amount, hne, hdestination, hharvested, rfl, hadd⟩)

/-- What the loop leaves alone. -/
structure GatherLoop (destination : Pubkey) (s t : ConfidentialWithdrawal) : Prop where
  base : t.destination.base = s.destination.base
  len : t.destination.len = s.destination.len
  changesOnly : Tlv.ChangesOnly [.confidentialTransferFeeAmount] s.destination.tlv
    t.destination.tlv
  kept : KeptStep [.confidentialTransferFeeAmount] s.ledger t.ledger
  destination : t.ledger destination = s.ledger destination

theorem GatherLoop.refl (destination : Pubkey) (s : ConfidentialWithdrawal) :
    GatherLoop destination s s := ⟨rfl, rfl, .refl _ _, .refl _, rfl⟩

theorem GatherLoop.trans {destination : Pubkey} {s t u : ConfidentialWithdrawal}
    (h : GatherLoop destination s t) (h' : GatherLoop destination t u) :
    GatherLoop destination s u :=
  ⟨h'.base.trans h.base, h'.len.trans h.len, h.changesOnly.trans h'.changesOnly,
    h.kept.trans h'.kept, h'.destination.trans h.destination⟩

theorem gatherLoop {zk : ZkOps} {mintKey destination : Pubkey} {infos : List AccountInfo}
    {s t : ConfidentialWithdrawal}
    (h : loop (gatherConfidential zk mintKey destination) infos s = .ok t) :
    GatherLoop destination s t := by
  refine loop_relation (GatherLoop destination) (GatherLoop.refl destination)
    (fun _ _ _ => GatherLoop.trans) (fun s info t _ hpass => ?_) h
  rcases gatherConfidential_eq_ok hpass with ⟨v, -, hledger, hdestination, -⟩ | rfl |
    ⟨account, amount, -, hne, hharvested, hdestination, -⟩
  · refine ⟨?_, ?_, ?_, ?_, ?_⟩
    · rw [hdestination, PodStateWithExtensions.setExtension_base]
    · rw [hdestination, PodStateWithExtensions.setExtension_len]
    · rw [hdestination]
      exact Tlv.ChangesOnly.put (t := .confidentialTransferFeeAmount) _ _
        (List.mem_singleton_self _)
    · rw [hledger]
      exact .refl _
    · rw [hledger]
  · exact .refl _ _
  · refine ⟨?_, ?_, ?_, hharvested.kept, hharvested.of_ne (Ne.symm hne)⟩
    · rw [hdestination]
    · rw [hdestination]
    · rw [hdestination]
      exact .refl _ _

/-- Withheld amounts gathered from accounts, paid into a confidential balance. -/
structure ConfidentialAccountFeesPaid (c : Call) (l' : Ledger) (mintKey destination : Pubkey)
    (infos : List AccountInfo) (v : ConfidentialTransferFeeConfig)
    (d : PodStateWithExtensions PodAccount) (p : CiphertextCiphertextEqualityProofContext)
    (gathered : ConfidentialWithdrawal) (e e' : ConfidentialTransferAccount) : Prop where
  proof : c.Provides (.ciphertextCiphertextEquality p)
  ne : destination ≠ mintKey
  mintOwner : (c.ledger mintKey).owner = programId
  config : ∃ m, (c.ledger mintKey).data = .mint m ∧
    m.tlv.get .confidentialTransferFeeConfig = some v
  data : (c.ledger destination).data = .account d
  mint : d.base.mint = mintKey
  loop : loop (gatherConfidential c.x.zk mintKey destination) infos ⟨d, .zeroed, c.ledger⟩ =
    .ok gathered
  extension : gathered.destination.tlv.get .confidentialTransferAccount = some e
  valid : e.validAsDestination = .ok ()
  paid : ∃ balance, e.paidWithheld c.x.zk p v gathered.withheldAmount balance = .ok e'
  write : gathered.ledger.writeData destination
    (.account (gathered.destination.setExtension .confidentialTransferAccount e')) = .ok l'

theorem processConfidentialWithdrawFromAccounts_eq_ok {numTokenAccounts : UInt8}
    {balance : AeCiphertext} {offset : Int64}
    (h : processConfidentialWithdrawFromAccounts x.zk env numTokenAccounts balance offset accounts l =
      .ok l') :
    ∃ mintKey destination infos v d p gathered e e', ConfidentialAccountFeesPaid
      ⟨x, env, ix, accounts, l⟩ l' mintKey destination infos v d p gathered e e' := by
  simp only [processConfidentialWithdrawFromAccounts, bind_eq_ok, Prod.exists, exists_unit,
    checkProgramAccount_eq_ok] at h
  obtain ⟨mintInfo, rest, -, destinationInfo, rest', -, p, rest'', hcontext, authorityInfo, infos,
    -, howner, m, hm, -, d, hd, gathered, hloop, e, he, hvalid, v, hv, e', he', hwrite⟩ := h
  obtain ⟨proofInfo, -, hread⟩ := verifyProof_eq_ok hcontext
  obtain ⟨hne, hdata, hmint⟩ := withheldDestination_eq_ok hd
  exact ⟨mintInfo.key, destinationInfo.key, _, v, d, p, gathered, e, e',
    Call.provides_of_context ProofContext.ciphertextCiphertextEquality?_eq_some hread, hne, howner,
    ⟨m, (unpackMint_eq_ok.mp hm).1, PodStateWithExtensions.getExtension_eq_ok.mp hv⟩, hdata, hmint,
    hloop, PodStateWithExtensions.getExtension_eq_ok.mp he, hvalid, ⟨balance, he'⟩, hwrite⟩

theorem processConfidentialWithdrawFromAccounts_step {numTokenAccounts : UInt8}
    {balance : AeCiphertext} {offset : Int64}
    (h : processConfidentialWithdrawFromAccounts x.zk env numTokenAccounts balance offset accounts l =
      .ok l') (k : Pubkey) : RecordStep ⟨x, env, ix, accounts, l⟩ k (l k) (l' k) := by
  obtain ⟨mintKey, destination, infos, v, d, p, gathered, e, e', hpaid⟩ :=
    @processConfidentialWithdrawFromAccounts_eq_ok x env ix _ _ _ _ _ _ h
  obtain ⟨balance, hpays⟩ := hpaid.paid
  obtain ⟨hbase, hlen, htlv, hkept, hsame⟩ := gatherLoop hpaid.loop
  dsimp only at hbase hlen htlv hkept hsame
  by_cases hk : k = destination
  · have hstep := forall_of_writeData (RecordStep.refl ⟨x, env, ix, accounts, l⟩) hpaid.write
      (fun howner => ?_) k
    · rwa [hk, hsame, ← hk] at hstep
    · rw [hsame] at howner ⊢
      have hget := htlv.get .confidentialTransferAccount (by simp)
      refine .account howner howner hpaid.data rfl (.move (UInt64.le_refl _)
        (hget.symm.trans hpaid.extension) (TypedStore.get_put_self _ _ _)
        (.paidWithheld hpaid.proof hpaid.valid hpays) hbase hlen ?_)
      exact (htlv.mono (by simp)).trans
        (Tlv.ChangesOnly.put (t := .confidentialTransferAccount) _ _ (by simp))
  · obtain ⟨-, rfl⟩ := Ledger.writeData_eq_ok.mp hpaid.write
    rw [Ledger.setData_of_ne hk]
    exact (hkept k).recordStep (by simp)

end BarkToken
