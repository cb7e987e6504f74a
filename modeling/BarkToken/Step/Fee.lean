import BarkToken.Step.Supply

/-!
# Withheld fees, step by step (TransferFee/Processor)
-/

namespace BarkToken
open Fallible CheckedWord AccountData

variable {c : Call} {accounts : List AccountInfo} {l l' : Ledger}

/-! ### Records -/

/-- A mint whose withheld amount has changed. -/
theorem MintStep.of_withheld {k : Pubkey} {s : PodStateWithExtensions PodMint}
    {v : TransferFeeConfig} {n : UInt64} (hget : s.tlv.get .transferFeeConfig = some v)
    (hcollected : n ≤ v.withheldAmount ∨ c.FindsFees k) :
    MintStep c k s (s.setExtension .transferFeeConfig { v with withheldAmount := n }) := by
  refine mintStep_setExtension ⟨⟨v, hget, fun hr => ⟨hr.older, hr.newer⟩, Or.inl ⟨rfl, rfl⟩⟩,
    .of_fee hget (.of_eq rfl) (.of_eq rfl)⟩ (Or.inl (Option.isSome_of_eq_some hget)) ?_
  rwa [mintWithheldAmount, mintWithheldAmount, PodStateWithExtensions.setExtension_tlv,
    TypedStore.get_put_self, hget, Option.map_some, Option.map_some, Option.getD_some,
    Option.getD_some]

/-- A withheld amount written to a mint that may not be this program's. -/
theorem recordStep_of_withheld {mintKey : Pubkey} {m : PodStateWithExtensions PodMint}
    {v : TransferFeeConfig} {n : UInt64} (hkey : NotNativeMint l mintKey)
    (hdata : (l mintKey).data = .mint m) (hget : m.tlv.get .transferFeeConfig = some v)
    (hcollected : n ≤ v.withheldAmount ∨ c.FindsFees mintKey)
    (hwrite : l.writeData mintKey (.mint (m.setExtension .transferFeeConfig
      { v with withheldAmount := n })) = .ok l') (k : Pubkey) :
    RecordStep c k (l k) (l' k) :=
  forall_of_writeData (RecordStep.refl c) hwrite
    (fun howner => .mint howner howner hdata rfl (hkey howner) (.of_withheld hget hcollected)) k

/-- An account of the program that is paid fees: it belongs to the mint of the
fees, which is not the native one, so no lamports stand behind the credit. -/
theorem AccountStep.of_fees {lamports : UInt64}
    {s s' : PodStateWithExtensions PodAccount} (hnative : s.base.isNative = none)
    (hamount : s.base.amount ≤ s'.base.amount) (hfrozen : ¬ s.base.frozen)
    (hsource : s'.base.amount = s.base.amount ∨ c.FindsFees s.base.mint)
    (hwithheld : withheldAmount s' ≤ withheldAmount s)
    (hbase : s'.base = { s.base with amount := s'.base.amount }) (hlen : s'.len = s.len)
    (htlv : Tlv.ChangesOnly [.transferFeeAmount] s.tlv s'.tlv) :
    AccountStep c lamports lamports s s' := by
  refine .credit hamount (fun hf => absurd hf hfrozen) ?_ (Or.inl hwithheld) hbase hlen
    (htlv.mono (by simp)) (fun hsome => ?_) (UInt64.le_refl _)
  · rcases hsource with hsame | hfees
    · exact Or.inl hsame
    · exact Or.inr (Or.inr (Or.inr hfees))
  · rw [hnative] at hsome
    simp at hsome

/-! ### One account -/

/-- An account of the mint that no longer withholds anything, or any record left
alone. -/
inductive HarvestedRecord (mintKey : Pubkey) (r r' : AccountRecord) : Prop
  | kept (h : r' = r)
  | emptied {s v} (howner : r.owner = programId) (hdata : r.data = .account s)
      (hmint : s.base.mint = mintKey) (hget : s.tlv.get .transferFeeAmount = some v)
      (h : r' = { r with data := .account (s.setExtension .transferFeeAmount ⟨0⟩) })

/-- What harvesting does to the ledger. -/
def HarvestStep (mintKey : Pubkey) (l l' : Ledger) : Prop :=
  ∀ k, HarvestedRecord mintKey (l k) (l' k)

theorem HarvestStep.refl (mintKey : Pubkey) (l : Ledger) : HarvestStep mintKey l l :=
  fun _ => .kept rfl

/-- Fees that have been taken are not taken again. -/
theorem HarvestedRecord.trans {mintKey : Pubkey} {r r' r'' : AccountRecord}
    (h : HarvestedRecord mintKey r r') (h' : HarvestedRecord mintKey r' r'') :
    HarvestedRecord mintKey r r'' := by
  cases h with
  | kept h => exact h ▸ h'
  | emptied howner hdata hmint hget h =>
    subst h
    cases h' with
    | kept h' => exact .emptied howner hdata hmint hget h'
    | emptied _ hdata' _ _ h' =>
      obtain rfl := AccountData.account.inj hdata'
      refine .emptied howner hdata hmint hget ?_
      simpa only [PodStateWithExtensions.setExtension, TypedStore.put_put] using h'

theorem HarvestStep.trans {mintKey : Pubkey} {l₁ : Ledger} (h : HarvestStep mintKey l l₁)
    (h' : HarvestStep mintKey l₁ l') : HarvestStep mintKey l l' := fun k => (h k).trans (h' k)

/-- Harvested accounts keep everything but their fees. -/
theorem HarvestStep.record {mintKey : Pubkey} (h : HarvestStep mintKey l l') (k : Pubkey) :
    RecordStep c k (l k) (l' k) := by
  cases h k with
  | kept hsame => exact hsame ▸ .refl c k _
  | emptied howner hdata hmint hget hemptied =>
    rw [hemptied]
    refine .account howner howner hdata rfl (.credit (UInt64.le_refl _) (fun _ => rfl) (Or.inl rfl)
      (Or.inl ?_) rfl rfl ?_ (fun _ => Nat.le_refl _) (UInt64.le_refl _))
    · simp [withheldAmount, UInt64.le_iff_toNat_le]
    · exact Tlv.ChangesOnly.put (t := .transferFeeAmount) _ _ (by simp)

/-- Whatever fees are left after a harvest were there before. -/
theorem HarvestStep.findsFees {mintKey k : Pubkey} {s : PodStateWithExtensions PodAccount}
    (h : HarvestStep mintKey c.ledger l') (howner : (l' k).owner = programId)
    (hdata : (l' k).data = .account s) (hmint : s.base.mint = mintKey)
    (hfees : withheldAmount s ≠ 0) : c.FindsFees mintKey := by
  cases h k with
  | kept hsame => exact Or.inl ⟨k, s, hsame ▸ howner, hsame ▸ hdata, hmint, hfees⟩
  | emptied _ _ _ _ hemptied =>
    rw [hemptied] at hdata
    obtain rfl := AccountData.account.inj hdata
    simp [withheldAmount] at hfees

/-- The fees that `k` withholds for a mint, taken out of it. -/
structure Harvested (l l' : Ledger) (mintKey k : Pubkey) (s : PodStateWithExtensions PodAccount)
    (amount : UInt64) : Prop where
  owner : (l k).owner = programId
  data : (l k).data = .account s
  mint : s.base.mint = mintKey
  withheld : s.tlv.get .transferFeeAmount = some ⟨amount⟩
  ledger : l' = l.setData k (.account (s.setExtension .transferFeeAmount ⟨0⟩))

theorem harvestFromAccount_eq_ok {mintKey k : Pubkey} {amount : UInt64}
    (h : harvestFromAccount l mintKey k = .ok (amount, l')) :
    ∃ s, Harvested l l' mintKey k s amount := by
  simp only [harvestFromAccount, bind_eq_ok, exists_unit, mapErr_eq_ok, ensure_eq_ok,
    checkProgramAccount_eq_ok, pure_eq_ok, Prod.mk.injEq] at h
  obtain ⟨s, hs, hmint, howner, v, hv, l₁, hwrite, rfl, rfl⟩ := h
  obtain ⟨-, rfl⟩ := Ledger.writeData_eq_ok.mp hwrite
  exact ⟨s, howner, (unpackAccount_eq_ok.mp hs).1, hmint,
    PodStateWithExtensions.getExtension_eq_ok.mp hv, rfl⟩

theorem Harvested.step {mintKey k : Pubkey} {s : PodStateWithExtensions PodAccount}
    {amount : UInt64} (h : Harvested l l' mintKey k s amount) : HarvestStep mintKey l l' := by
  intro j
  rw [h.ledger]
  by_cases hj : j = k
  · subst hj
    exact .emptied h.owner h.data h.mint h.withheld Ledger.setData_self
  · exact .kept (Ledger.setData_of_ne hj)

/-- Taking fees that are not zero finds some. -/
theorem Harvested.findsFees {mintKey k : Pubkey} {s : PodStateWithExtensions PodAccount}
    {l₁ : Ledger} {amount : UInt64} (h : Harvested l₁ l' mintKey k s amount)
    (hstep : HarvestStep mintKey c.ledger l₁) (hamount : amount ≠ 0) : c.FindsFees mintKey := by
  refine hstep.findsFees h.owner h.data h.mint ?_
  rwa [withheldAmount, h.withheld]

theorem Harvested.of_ne {mintKey k j : Pubkey} {s : PodStateWithExtensions PodAccount}
    {amount : UInt64} (h : Harvested l l' mintKey k s amount) (hne : j ≠ k) : l' j = l j := by
  rw [h.ledger, Ledger.setData_of_ne hne]

/-! ### Harvest to the mint -/

/-- One pass of the loop leaves the ledger alone or harvests one account. -/
theorem harvestToMint_eq_ok {mintKey : Pubkey} {info : AccountInfo} {n n' : UInt64}
    (h : harvestToMint mintKey (n, l) info = .ok (n', l')) :
    info.key ≠ mintKey ∧ ((n' = n ∧ l' = l) ∨ ∃ s amount,
      Harvested l l' mintKey info.key s amount ∧ n'.toNat = n.toNat + amount.toNat) := by
  simp only [harvestToMint, bind_eq_ok, exists_unit, borrowData_eq_ok, List.mem_singleton] at h
  obtain ⟨hne, h⟩ := h
  refine ⟨hne, ?_⟩
  split at h
  case h_1 amount l₁ hharvest =>
    simp only [bind_eq_ok, okOr_eq_ok, pure_eq_ok, Prod.mk.injEq] at h
    obtain ⟨total, htotal, rfl, rfl⟩ := h
    obtain ⟨s, hs⟩ := harvestFromAccount_eq_ok hharvest
    exact Or.inr ⟨s, amount, hs, checkedAdd_eq_some.mp htotal⟩
  case h_2 =>
    obtain ⟨rfl, rfl⟩ := Prod.mk.inj (pure_eq_ok.mp h)
    exact Or.inl ⟨rfl, rfl⟩

theorem harvestLoop_step {mintKey : Pubkey} {infos : List AccountInfo} {s t : UInt64 × Ledger}
    (h : loop (harvestToMint mintKey) infos s = .ok t) :
    HarvestStep mintKey s.2 t.2 ∧ t.2 mintKey = s.2 mintKey := by
  refine loop_relation (fun s t : UInt64 × Ledger =>
      HarvestStep mintKey s.2 t.2 ∧ t.2 mintKey = s.2 mintKey)
    (fun s => ⟨.refl _ s.2, rfl⟩) (fun s t u hst htu => ⟨hst.1.trans htu.1, htu.2.trans hst.2⟩) ?_ h
  rintro ⟨n, l⟩ info ⟨n', l'⟩ - hpass
  obtain ⟨hne, ⟨-, rfl⟩ | ⟨s, amount, hharvested, -⟩⟩ := harvestToMint_eq_ok hpass
  · exact ⟨.refl _ _, rfl⟩
  · exact ⟨hharvested.step, hharvested.of_ne (Ne.symm hne)⟩

/-- The sum grows only by fees that are there. -/
theorem harvestLoop_findsFees {mintKey : Pubkey} {infos : List AccountInfo} {n n' : UInt64}
    {l₁ : Ledger} (h : loop (harvestToMint mintKey) infos (n, c.ledger) = .ok (n', l₁)) :
    n' = n ∨ c.FindsFees mintKey := by
  refine (loop_invariant (fun t : UInt64 × Ledger => HarvestStep mintKey c.ledger t.2 ∧
    (t.1 = n ∨ c.FindsFees mintKey)) ?_ ⟨.refl _ _, Or.inl rfl⟩ h).2
  rintro ⟨m, l⟩ info ⟨m', l'⟩ - ⟨hstep, hsum⟩ hpass
  obtain ⟨-, ⟨rfl, rfl⟩ | ⟨s, amount, hharvested, hamount⟩⟩ := harvestToMint_eq_ok hpass
  · exact ⟨hstep, hsum⟩
  · refine ⟨hstep.trans hharvested.step, ?_⟩
    by_cases hzero : amount = 0
    · rw [hzero, UInt64.toNat_zero, Nat.add_zero] at hamount
      exact UInt64.toNat_inj.mp hamount ▸ hsum
    · exact Or.inr (hharvested.findsFees hstep hzero)

/-- `process_harvest_withheld_tokens_to_mint`, up to its last write. -/
structure HarvestedToMint (l l' : Ledger) (mintKey : Pubkey) (infos : List AccountInfo)
    (m : PodStateWithExtensions PodMint) (v : TransferFeeConfig) (n : UInt64) (l₁ : Ledger) :
    Prop where
  mintData : (l mintKey).data.unpackMint = .ok m
  config : m.tlv.get .transferFeeConfig = some v
  loop : loop (harvestToMint mintKey) infos (v.withheldAmount, l) = .ok (n, l₁)
  write : l₁.writeData mintKey (.mint (m.setExtension .transferFeeConfig
    { v with withheldAmount := n })) = .ok l'

theorem processHarvestWithheldTokensToMint_eq_ok
    (h : processHarvestWithheldTokensToMint accounts l = .ok l') :
    ∃ mintKey infos m v n l₁, HarvestedToMint l l' mintKey infos m v n l₁ := by
  simp only [processHarvestWithheldTokensToMint, bind_eq_ok, Prod.exists] at h
  obtain ⟨mintInfo, infos, -, m, hm, v, hv, n, l₁, hloop, hwrite⟩ := h
  exact ⟨mintInfo.key, infos, m, v, n, l₁, hm, PodStateWithExtensions.getExtension_eq_ok.mp hv,
    hloop, hwrite⟩

theorem processHarvestWithheldTokensToMint_step (hcoherent : Coherent c.ledger)
    (h : processHarvestWithheldTokensToMint accounts c.ledger = .ok l') (k : Pubkey) :
    RecordStep c k (c.ledger k) (l' k) := by
  obtain ⟨mintKey, infos, m, v, n, l₁, hharvested⟩ := processHarvestWithheldTokensToMint_eq_ok h
  obtain ⟨hkept, hmint⟩ := harvestLoop_step hharvested.loop
  dsimp only at hkept hmint
  have hcollected : n ≤ v.withheldAmount ∨ c.FindsFees mintKey := by
    rcases harvestLoop_findsFees hharvested.loop with rfl | hfees
    · exact Or.inl (UInt64.le_refl _)
    · exact Or.inr hfees
  by_cases hk : k = mintKey
  · have hdata : (l₁ mintKey).data = .mint m := by
      rw [hmint]
      exact (unpackMint_eq_ok.mp hharvested.mintData).1
    have hkey : NotNativeMint l₁ mintKey := fun howner =>
      hcoherent.fixed.ne_of_get hharvested.mintData hharvested.config (by rwa [hmint] at howner)
    have hstep := recordStep_of_withheld hkey hdata hharvested.config hcollected hharvested.write k
    rwa [hk, hmint, ← hk] at hstep
  · obtain ⟨-, rfl⟩ := Ledger.writeData_eq_ok.mp hharvested.write
    rw [Ledger.setData_of_ne hk]
    exact hkept.record k

/-! ### Withdrawals from the mint -/

/-- The mint's withheld amount, paid to an account of it. -/
structure MintFeesPaid (l l' : Ledger) (mintKey destination : Pubkey)
    (m : PodStateWithExtensions PodMint) (v : TransferFeeConfig)
    (d : PodStateWithExtensions PodAccount) (newAmount : UInt64) : Prop where
  ne : destination ≠ mintKey
  mintOwner : (l mintKey).owner = programId
  mintData : (l mintKey).data.unpackMint = .ok m
  config : m.tlv.get .transferFeeConfig = some v
  data : (l destination).data = .account d
  mint : d.base.mint = mintKey
  notFrozen : ¬ d.base.frozen
  amount : newAmount.toNat = d.base.amount.toNat + v.withheldAmount.toNat
  write : (l.setData mintKey (.mint (m.setExtension .transferFeeConfig
    { v with withheldAmount := 0 }))).writeData destination
      (.account { d with base := { d.base with amount := newAmount } }) = .ok l'

theorem processWithdrawWithheldTokensFromMint_eq_ok
    (h : processWithdrawWithheldTokensFromMint accounts l = .ok l') :
    ∃ mintKey destination m v d newAmount, MintFeesPaid l l' mintKey destination m v d newAmount := by
  simp only [processWithdrawWithheldTokensFromMint, bind_eq_ok, Prod.exists, exists_unit,
    okOr_eq_ok, ensure_eq_ok, borrowData_eq_ok, checkProgramAccount_eq_ok, List.mem_singleton] at h
  obtain ⟨mintInfo, rest, -, destinationInfo, rest', -, authorityInfo, signers, -, howner, m, hm, v,
    hv, key, -, -, hne, d, hd, hmint, hfrozen, newAmount, hamount, l₁, hwrite, hwrite'⟩ := h
  obtain ⟨-, rfl⟩ := Ledger.writeData_eq_ok.mp hwrite
  exact ⟨mintInfo.key, destinationInfo.key, m, v, d, newAmount, hne, howner, hm,
    PodStateWithExtensions.getExtension_eq_ok.mp hv, (unpackAccount_eq_ok.mp hd).1, hmint, hfrozen,
    checkedAdd_eq_some.mp hamount, hwrite'⟩

theorem MintFeesPaid.findsFees {mintKey destination : Pubkey} {m : PodStateWithExtensions PodMint}
    {v : TransferFeeConfig} {d : PodStateWithExtensions PodAccount} {newAmount : UInt64}
    (h : MintFeesPaid c.ledger l' mintKey destination m v d newAmount) :
    newAmount = d.base.amount ∨ c.FindsFees mintKey := by
  by_cases hzero : v.withheldAmount = 0
  · have hamount := h.amount
    rw [hzero, UInt64.toNat_zero, Nat.add_zero] at hamount
    exact Or.inl (UInt64.toNat_inj.mp hamount)
  · refine Or.inr (Or.inr ⟨m, h.mintOwner, (unpackMint_eq_ok.mp h.mintData).1, ?_⟩)
    rwa [mintWithheldAmount, h.config]

theorem processWithdrawWithheldTokensFromMint_step (hcoherent : Coherent c.ledger)
    (h : processWithdrawWithheldTokensFromMint accounts c.ledger = .ok l') (k : Pubkey) :
    RecordStep c k (c.ledger k) (l' k) := by
  obtain ⟨mintKey, destination, m, v, d, newAmount, hpaid⟩ :=
    processWithdrawWithheldTokensFromMint_eq_ok h
  have hkey := hcoherent.fixed.ne_of_get hpaid.mintData hpaid.config hpaid.mintOwner
  obtain ⟨howned, hl'⟩ := Ledger.writeData_eq_ok.mp hpaid.write
  by_cases hk : k = mintKey
  · subst hk
    rw [hl', Ledger.setData_of_ne (Ne.symm hpaid.ne), Ledger.setData_self]
    exact .mint hpaid.mintOwner hpaid.mintOwner (unpackMint_eq_ok.mp hpaid.mintData).1 rfl hkey
      (.of_withheld hpaid.config (Or.inl (by simp [UInt64.le_iff_toNat_le])))
  · have hsame := Ledger.setData_of_ne (l := c.ledger) (d := .mint (m.setExtension .transferFeeConfig
      { v with withheldAmount := 0 })) hk
    have hstep := forall_of_writeData (RecordStep.refl c) hpaid.write (fun howner => ?_) k
    · rwa [hsame] at hstep
    · rw [Ledger.setData_of_ne hpaid.ne] at howner ⊢
      refine .account howner howner hpaid.data rfl
        (.of_fees ?_ ?_ hpaid.notFrozen (hpaid.mint ▸ hpaid.findsFees) (UInt64.le_refl _) rfl rfl
          (.refl _ _))
      · exact hcoherent.isNative_eq_none howner hpaid.data (hpaid.mint ▸ hkey)
      · rw [UInt64.le_iff_toNat_le, hpaid.amount]
        exact Nat.le_add_right _ _

/-! ### Withdrawals from accounts -/

/-- The destination collects its own fees and those of others. -/
structure Collected (d d' : PodStateWithExtensions PodAccount) : Prop where
  base : d'.base = { d.base with amount := d'.base.amount }
  len : d'.len = d.len
  amount : d.base.amount ≤ d'.base.amount
  withheld : withheldAmount d' ≤ withheldAmount d
  changesOnly : Tlv.ChangesOnly [.transferFeeAmount] d.tlv d'.tlv

theorem Collected.refl (d : PodStateWithExtensions PodAccount) : Collected d d :=
  ⟨rfl, rfl, UInt64.le_refl _, UInt64.le_refl _, .refl _ _⟩

theorem Collected.trans {d d' d'' : PodStateWithExtensions PodAccount} (h : Collected d d')
    (h' : Collected d' d'') : Collected d d'' where
  base := by rw [h'.base, h.base]
  len := h'.len.trans h.len
  amount := UInt64.le_trans h.amount h'.amount
  withheld := UInt64.le_trans h'.withheld h.withheld
  changesOnly := h.changesOnly.trans h'.changesOnly

theorem selfHarvest_eq_ok {d d' : PodStateWithExtensions PodAccount}
    (h : selfHarvest d = .ok d') :
    Collected d d' ∧ withheldAmount d' = 0 ∧
      d'.base.amount.toNat = d.base.amount.toNat + (withheldAmount d).toNat := by
  simp only [selfHarvest, bind_eq_ok, mapErr_eq_ok, okOr_eq_ok, pure_eq_ok] at h
  obtain ⟨v, hv, amount, hamount, rfl⟩ := h
  have hv := PodStateWithExtensions.getExtension_eq_ok.mp hv
  have hamount := checkedAdd_eq_some.mp hamount
  refine ⟨⟨rfl, rfl, ?_, by simp [withheldAmount, UInt64.le_iff_toNat_le],
    Tlv.ChangesOnly.put (t := .transferFeeAmount) _ _ (List.mem_singleton_self _)⟩, ?_, ?_⟩
  · rw [UInt64.le_iff_toNat_le]
    dsimp only
    omega
  · simp [withheldAmount]
  · simp only [withheldAmount, hv, Option.map_some, Option.getD_some]
    exact hamount

/-- One pass of the loop: the destination's own fees, those of one other account,
or nothing. -/
theorem withdrawFromAccount_eq_ok {mintKey destination : Pubkey} {info : AccountInfo}
    {d d' : PodStateWithExtensions PodAccount}
    (h : withdrawFromAccount mintKey destination (d, l) info = .ok (d', l')) :
    (l' = l ∧ selfHarvest d = .ok d') ∨ (l' = l ∧ d' = d) ∨
      ∃ s amount newAmount, info.key ≠ mintKey ∧ info.key ≠ destination ∧
        Harvested l l' mintKey info.key s amount ∧
        d' = { d with base := { d.base with amount := newAmount } } ∧
        newAmount.toNat = d.base.amount.toNat + amount.toNat := by
  unfold withdrawFromAccount at h
  split at h
  case isTrue =>
    simp only [bind_eq_ok, pure_eq_ok, Prod.mk.injEq] at h
    obtain ⟨d₁, hself, rfl, rfl⟩ := h
    exact Or.inl ⟨rfl, hself⟩
  case isFalse hdestination =>
    simp only [bind_eq_ok, exists_unit, borrowData_eq_ok, List.mem_singleton] at h
    obtain ⟨hne, h⟩ := h
    split at h
    case h_1 amount l₁ hharvest =>
      simp only [bind_eq_ok, okOr_eq_ok, pure_eq_ok, Prod.mk.injEq] at h
      obtain ⟨newAmount, hnew, rfl, rfl⟩ := h
      obtain ⟨s, hs⟩ := harvestFromAccount_eq_ok hharvest
      exact Or.inr (Or.inr ⟨s, amount, newAmount, hne, hdestination, hs, rfl,
        checkedAdd_eq_some.mp hnew⟩)
    case h_2 =>
      obtain ⟨rfl, rfl⟩ := Prod.mk.inj (pure_eq_ok.mp h)
      exact Or.inr (Or.inl ⟨rfl, rfl⟩)

/-- What the loop leaves alone: the destination's record, and all but fees of the
other accounts. -/
structure WithdrawLoop (mintKey destination : Pubkey)
    (s t : PodStateWithExtensions PodAccount × Ledger) : Prop where
  collected : Collected s.1 t.1
  kept : HarvestStep mintKey s.2 t.2
  destination : t.2 destination = s.2 destination

theorem withdrawLoop {mintKey destination : Pubkey} {infos : List AccountInfo}
    {s t : PodStateWithExtensions PodAccount × Ledger}
    (h : loop (withdrawFromAccount mintKey destination) infos s = .ok t) :
    WithdrawLoop mintKey destination s t := by
  refine loop_relation (WithdrawLoop mintKey destination) (fun s => ⟨.refl _, .refl _ _, rfl⟩)
    (fun s t u hst htu => ⟨hst.collected.trans htu.collected, hst.kept.trans htu.kept,
      htu.destination.trans hst.destination⟩) ?_ h
  rintro ⟨d, l⟩ info ⟨d', l'⟩ - hpass
  rcases withdrawFromAccount_eq_ok hpass with ⟨rfl, hself⟩ | ⟨rfl, rfl⟩ |
    ⟨s, amount, newAmount, -, hne, hharvested, rfl, hnew⟩
  · exact ⟨(selfHarvest_eq_ok hself).1, .refl _ _, rfl⟩
  · exact ⟨.refl _, .refl _ _, rfl⟩
  · refine ⟨⟨rfl, rfl, ?_, UInt64.le_refl _, .refl _ _⟩, hharvested.step,
      hharvested.of_ne (Ne.symm hne)⟩
    rw [UInt64.le_iff_toNat_le]
    exact hnew ▸ Nat.le_add_right _ _

/-- The destination gains only fees that are there, its own included. -/
theorem withdrawLoop_findsFees {mintKey destination : Pubkey} {infos : List AccountInfo}
    {d d' : PodStateWithExtensions PodAccount} {l₁ : Ledger}
    (howner : (c.ledger destination).owner = programId)
    (hdata : (c.ledger destination).data = .account d) (hmint : d.base.mint = mintKey)
    (h : loop (withdrawFromAccount mintKey destination) infos (d, c.ledger) = .ok (d', l₁)) :
    d'.base.amount = d.base.amount ∨ c.FindsFees mintKey := by
  refine (loop_invariant (fun t : PodStateWithExtensions PodAccount × Ledger =>
    WithdrawLoop mintKey destination (d, c.ledger) t ∧
      (t.1.base.amount = d.base.amount ∨ c.FindsFees mintKey)) ?_
    ⟨⟨.refl _, .refl _ _, rfl⟩, Or.inl rfl⟩ h).2
  rintro ⟨e, l⟩ info ⟨e', l'⟩ - ⟨hloop, hsum⟩ hpass
  have hpass' : WithdrawLoop mintKey destination (e, l) (e', l') :=
    withdrawLoop (loop_cons_eq_ok.mpr ⟨_, hpass, loop_nil _ _⟩)
  refine ⟨⟨hloop.collected.trans hpass'.collected, hloop.kept.trans hpass'.kept,
    hpass'.destination.trans hloop.destination⟩, ?_⟩
  rcases withdrawFromAccount_eq_ok hpass with ⟨rfl, hself⟩ | ⟨rfl, rfl⟩ |
    ⟨s, amount, newAmount, -, -, hharvested, rfl, hnew⟩
  · obtain ⟨-, -, hamount⟩ := selfHarvest_eq_ok hself
    by_cases hzero : withheldAmount e = 0
    · rw [hzero, UInt64.toNat_zero, Nat.add_zero] at hamount
      exact UInt64.toNat_inj.mp hamount ▸ hsum
    · -- Its own fees have not grown since the start.
      refine Or.inr (Or.inl ⟨destination, d, howner, hdata, hmint, fun hnone => hzero ?_⟩)
      have hle := hloop.collected.withheld
      dsimp only at hle
      rw [hnone] at hle
      exact UInt64.le_antisymm hle (by simp [UInt64.le_iff_toNat_le])
  · exact hsum
  · by_cases hzero : amount = 0
    · rw [hzero, UInt64.toNat_zero, Nat.add_zero] at hnew
      exact UInt64.toNat_inj.mp hnew ▸ hsum
    · exact Or.inr (hharvested.findsFees hloop.kept hzero)

/-- `process_withdraw_withheld_tokens_from_accounts`, up to its last write. -/
structure AccountFeesPaid (l l' : Ledger) (mintKey destination : Pubkey)
    (infos : List AccountInfo) (d d' : PodStateWithExtensions PodAccount) (l₁ : Ledger) : Prop where
  ne : destination ≠ mintKey
  mintOwner : (l mintKey).owner = programId
  key : ∃ m v, (l mintKey).data.unpackMint = .ok m ∧ m.tlv.get .transferFeeConfig = some v
  data : (l destination).data = .account d
  mint : d.base.mint = mintKey
  notFrozen : ¬ d.base.frozen
  loop : loop (withdrawFromAccount mintKey destination) infos (d, l) = .ok (d', l₁)
  write : l₁.writeData destination (.account d') = .ok l'

theorem processWithdrawWithheldTokensFromAccounts_eq_ok {numTokenAccounts : UInt8}
    (h : processWithdrawWithheldTokensFromAccounts numTokenAccounts accounts l = .ok l') :
    ∃ mintKey destination infos d d' l₁,
      AccountFeesPaid l l' mintKey destination infos d d' l₁ := by
  simp only [processWithdrawWithheldTokensFromAccounts, bind_eq_ok, Prod.exists, exists_unit,
    okOr_eq_ok, ensure_eq_ok, borrowData_eq_ok, checkProgramAccount_eq_ok, List.mem_singleton] at h
  obtain ⟨mintInfo, rest, -, destinationInfo, rest', -, authorityInfo, infos, -, howner, m, hm, v,
    hv, key, -, -, hne, d, hd, hmint, hfrozen, d', l₁, hloop, hwrite⟩ := h
  exact ⟨mintInfo.key, destinationInfo.key, _, d, d', l₁, hne, howner,
    ⟨m, v, hm, PodStateWithExtensions.getExtension_eq_ok.mp hv⟩, (unpackAccount_eq_ok.mp hd).1,
    hmint, hfrozen, hloop, hwrite⟩

theorem processWithdrawWithheldTokensFromAccounts_step {numTokenAccounts : UInt8}
    (hcoherent : Coherent c.ledger)
    (h : processWithdrawWithheldTokensFromAccounts numTokenAccounts accounts c.ledger = .ok l')
    (k : Pubkey) : RecordStep c k (c.ledger k) (l' k) := by
  obtain ⟨mintKey, destination, infos, d, d', l₁, hpaid⟩ :=
    processWithdrawWithheldTokensFromAccounts_eq_ok h
  obtain ⟨m, v, hm, hv⟩ := hpaid.key
  have hkey := hcoherent.fixed.ne_of_get hm hv hpaid.mintOwner
  obtain ⟨hcollected, hkept, hsame⟩ := withdrawLoop hpaid.loop
  dsimp only at hcollected hkept hsame
  by_cases hk : k = destination
  · have hstep := forall_of_writeData (RecordStep.refl c) hpaid.write (fun howner => ?_) k
    · rwa [hk, hsame, ← hk] at hstep
    · rw [hsame] at howner ⊢
      have hfees := withdrawLoop_findsFees howner hpaid.data hpaid.mint hpaid.loop
      exact .account howner howner hpaid.data rfl (.of_fees
        (hcoherent.isNative_eq_none howner hpaid.data (hpaid.mint ▸ hkey)) hcollected.amount
        hpaid.notFrozen (hpaid.mint ▸ hfees) hcollected.withheld hcollected.base hcollected.len
        hcollected.changesOnly)
  · obtain ⟨-, rfl⟩ := Ledger.writeData_eq_ok.mp hpaid.write
    rw [Ledger.setData_of_ne hk]
    exact hkept.record k

end BarkToken
