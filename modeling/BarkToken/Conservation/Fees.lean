import BarkToken.Conservation.Public

/-!
# Withheld fees on their way to a mint or an account

A harvest takes out of accounts what it adds to the mint, a withdrawal takes
from the mint or from accounts what it adds to the destination. Inside a loop
the harvested part is held outside the ledger, so the loops keep a sum of both.
-/

namespace BarkToken
open Fallible CheckedWord AccountData

variable {R : Type} [CommRing R] {D : Decryption R} {W : ElGamalPubkey} {M : Pubkey}
  {accounts : List AccountInfo} {l l' : Ledger}

/-! ### One record -/

/-- An account whose withheld amount is taken out. -/
theorem held_of_withheld {s : PodStateWithExtensions PodAccount} {amount : UInt64}
    (hget : s.tlv.get .transferFeeAmount = some ⟨amount⟩) :
    held D W (s.setExtension .transferFeeAmount ⟨0⟩) - held D W s = -value R amount := by
  have hbefore : withheldAmount s = amount := by simp [withheldAmount, hget]
  have hafter : withheldAmount (s.setExtension .transferFeeAmount ⟨0⟩) = 0 := by
    simp [withheldAmount]
  have hchange := Tlv.ChangesOnly.put (t := .transferFeeAmount) s.tlv ⟨0⟩
    (List.mem_singleton_self _)
  have hconfidential : D.confidential (s.setExtension .transferFeeAmount ⟨0⟩).tlv =
      D.confidential s.tlv := Decryption.confidential_congr (hchange.get _ (by simp))
  have hwithheld : D.withheld W (s.setExtension .transferFeeAmount ⟨0⟩).tlv =
      D.withheld W s.tlv := Decryption.withheld_congr (hchange.get _ (by simp))
  rw [held, held, hbefore, hafter, hconfidential, hwithheld, value_zero]
  simp only [PodStateWithExtensions.setExtension]
  abel

/-- An account that is paid in the open. -/
theorem held_of_amount {d : PodStateWithExtensions PodAccount} {amount newAmount : UInt64}
    (h : newAmount.toNat = d.base.amount.toNat + amount.toNat) :
    held D W { d with base := { d.base with amount := newAmount } } =
      held D W d + value R amount := by
  have hamount : value R newAmount = value R d.base.amount + value R amount := value_add h
  simp only [held, hamount, withheldAmount]
  abel

/-- A mint whose withheld amount is set. -/
theorem issued_of_withheld {m : PodStateWithExtensions PodMint} {v : TransferFeeConfig}
    (hget : m.tlv.get .transferFeeConfig = some v) (n : UInt64) :
    issued D W (m.setExtension .transferFeeConfig { v with withheldAmount := n }) - issued D W m =
      value R v.withheldAmount - value R n := by
  have hbefore : mintWithheldAmount m = v.withheldAmount := by simp [mintWithheldAmount, hget]
  have hafter : mintWithheldAmount
      (m.setExtension .transferFeeConfig { v with withheldAmount := n }) = n := by
    simp [mintWithheldAmount]
  have hconfidential : D.mintWithheld W
      (m.setExtension .transferFeeConfig { v with withheldAmount := n }).tlv =
        D.mintWithheld W m.tlv := by
    simp [Decryption.mintWithheld]
  rw [issued, issued, hbefore, hafter, hconfidential]
  simp only [PodStateWithExtensions.setExtension]
  abel

theorem Harvested.imbalance_eq {mintKey k : Pubkey} {s : PodStateWithExtensions PodAccount}
    {amount : UInt64} (h : Harvested l l' mintKey k s amount) :
    imbalance D W M l' + share M mintKey (value R amount) = imbalance D W M l := by
  have hwrite : imbalance D W M (l.setData k (.account (s.setExtension .transferFeeAmount ⟨0⟩))) =
      imbalance D W M l +
        share M s.base.mint (held D W (s.setExtension .transferFeeAmount ⟨0⟩) - held D W s) :=
    imbalance_setAccount h.owner h.data rfl
  rw [h.ledger, hwrite, held_of_withheld h.withheld, h.mint, map_neg]
  abel

/-! ### Harvest to the mint -/

theorem harvestLoop_imbalance {mintKey : Pubkey} {infos : List AccountInfo}
    {s t : UInt64 × Ledger} (h : loop (harvestToMint mintKey) infos s = .ok t) :
    imbalance D W M t.2 + share M mintKey (value R t.1) =
      imbalance D W M s.2 + share M mintKey (value R s.1) := by
  refine loop_relation (fun s t : UInt64 × Ledger =>
      imbalance D W M t.2 + share M mintKey (value R t.1) =
        imbalance D W M s.2 + share M mintKey (value R s.1))
    (fun _ => rfl) (fun _ _ _ hst htu => htu.trans hst) ?_ h
  rintro ⟨n, l⟩ info ⟨n', l'⟩ - hpass
  obtain ⟨-, ⟨rfl, rfl⟩ | ⟨s, amount, hharvested, hn⟩⟩ := harvestToMint_eq_ok hpass
  · rfl
  · dsimp only
    rw [value_add hn, map_add, ← hharvested.imbalance_eq]
    abel

theorem processHarvestWithheldTokensToMint_imbalance
    (h : processHarvestWithheldTokensToMint accounts l = .ok l') :
    imbalance D W M l' = imbalance D W M l := by
  obtain ⟨mintKey, infos, m, v, n, l₁, hharvested⟩ := processHarvestWithheldTokensToMint_eq_ok h
  have hloop := harvestLoop_imbalance (D := D) (W := W) (M := M) hharvested.loop
  have hdata : (l₁ mintKey).data = .mint m := by
    have hsame : l₁ mintKey = l mintKey := (harvestLoop_step hharvested.loop).2
    rw [hsame]
    exact (unpackMint_eq_ok.mp hharvested.mintData).1
  dsimp only at hloop
  rw [imbalance_writeMint hdata hharvested.write, issued_of_withheld hharvested.config, map_sub,
    sub_sub_eq_add_sub, hloop]
  abel

/-! ### Withdrawals -/

theorem processWithdrawWithheldTokensFromMint_imbalance
    (h : processWithdrawWithheldTokensFromMint accounts l = .ok l') :
    imbalance D W M l' = imbalance D W M l := by
  obtain ⟨mintKey, destination, m, v, d, newAmount, hpaid⟩ :=
    processWithdrawWithheldTokensFromMint_eq_ok h
  have hdata : ((l.setData mintKey (.mint (m.setExtension .transferFeeConfig
      { v with withheldAmount := 0 }))) destination).data = .account d := by
    rw [Ledger.setData_of_ne hpaid.ne]
    exact hpaid.data
  have hwrite : imbalance D W M l' = imbalance D W M (l.setData mintKey (.mint
      (m.setExtension .transferFeeConfig { v with withheldAmount := 0 }))) +
        share M d.base.mint
          (held D W { d with base := { d.base with amount := newAmount } } - held D W d) :=
    imbalance_writeAccount hdata rfl hpaid.write
  rw [hwrite, imbalance_setMint hpaid.mintOwner (unpackMint_eq_ok.mp hpaid.mintData).1,
    issued_of_withheld hpaid.config, value_zero, sub_zero, hpaid.mint, held_of_amount hpaid.amount,
    add_sub_cancel_left]
  abel

/-- The destination's own fees become part of its amount. -/
theorem selfHarvest_held_eq {d d' : PodStateWithExtensions PodAccount}
    (h : selfHarvest d = .ok d') : held D W d' = held D W d := by
  obtain ⟨hcollected, hwithheld, hamount⟩ := selfHarvest_eq_ok h
  have hamount : value R d'.base.amount = value R d.base.amount + value R (withheldAmount d) :=
    value_add hamount
  rw [held, held, hamount, hwithheld, value_zero,
    Decryption.confidential_congr (hcollected.changesOnly.get _ (by simp)),
    Decryption.withheld_congr (hcollected.changesOnly.get _ (by simp))]
  abel

theorem withdrawLoop_imbalance {mintKey destination : Pubkey} {infos : List AccountInfo}
    {s t : PodStateWithExtensions PodAccount × Ledger}
    (h : loop (withdrawFromAccount mintKey destination) infos s = .ok t) :
    imbalance D W M t.2 + share M mintKey (held D W t.1) =
      imbalance D W M s.2 + share M mintKey (held D W s.1) := by
  refine loop_relation (fun s t : PodStateWithExtensions PodAccount × Ledger =>
      imbalance D W M t.2 + share M mintKey (held D W t.1) =
        imbalance D W M s.2 + share M mintKey (held D W s.1))
    (fun _ => rfl) (fun _ _ _ hst htu => htu.trans hst) ?_ h
  rintro ⟨d, l⟩ info ⟨d', l'⟩ - hpass
  rcases withdrawFromAccount_eq_ok hpass with ⟨rfl, hself⟩ | ⟨rfl, rfl⟩ |
    ⟨s, amount, newAmount, -, -, hharvested, rfl, hnew⟩
  · dsimp only
    rw [selfHarvest_held_eq hself]
  · rfl
  · dsimp only
    rw [held_of_amount hnew, map_add, ← hharvested.imbalance_eq]
    abel

theorem processWithdrawWithheldTokensFromAccounts_imbalance {numTokenAccounts : UInt8}
    (h : processWithdrawWithheldTokensFromAccounts numTokenAccounts accounts l = .ok l') :
    imbalance D W M l' = imbalance D W M l := by
  obtain ⟨mintKey, destination, infos, d, d', l₁, hpaid⟩ :=
    processWithdrawWithheldTokensFromAccounts_eq_ok h
  have hloop := withdrawLoop_imbalance (D := D) (W := W) (M := M) hpaid.loop
  obtain ⟨hcollected, -, hsame⟩ := withdrawLoop hpaid.loop
  dsimp only at hloop hcollected hsame
  have hmint : d'.base.mint = d.base.mint := by rw [hcollected.base]
  have hdata : (l₁ destination).data = .account d := by rw [hsame, hpaid.data]
  rw [imbalance_writeAccount hdata hmint hpaid.write, hpaid.mint, map_sub]
  linear_combination hloop

/-! ### Instructions that are not confidential -/

/-- A public instruction keeps the imbalance of every mint that it does not close. -/
theorem Call.process_imbalance {c : Call} (hl : WellFormedLedger c.ledger) (hM : M ≠ nativeMint)
    (hpublic : c.ix.isConfidential = false) (hclose : ¬ c.ClosesMint M)
    (h : c.process = .ok l') : imbalance D W M l' = imbalance D W M c.ledger := by
  obtain ⟨x, env, ix, accounts, l⟩ := c
  cases Outcome.of_process hl.coherent h with
  | neutral hstep => exact KeyedSum.total_congr fun k => (hstep k).contribution_eq hM (hl k)
  | confidential hix => exact absurd (hpublic.symm.trans hix) (by simp)
  | transfer hix hindex h =>
    exact processTransfer_imbalance x hindex (TokenInstruction.isTransferOrBurn_of_isTransfer hix).2 h
  | mintTo _ h => exact processMintTo_imbalance x env h
  | burn _ h => exact processBurn_imbalance x h
  | close hix h =>
    obtain ⟨source, destination, authorityInfo, signers, haccounts, hclosed⟩ :=
      processCloseAccount_eq_ok h
    have hkey : (Call.mk x env ix accounts l).key 0 = some source.key := by
      rw [Call.key, haccounts]
      rfl
    rw [hclosed.imbalance_eq, hclosed.contribution_eq_zero hl hM, sub_zero]
    rintro m hm rfl
    exact hclose ⟨⟨hix, hkey⟩, m, hclosed.owner, hm⟩
  | withdrawFromMint _ h => exact processWithdrawWithheldTokensFromMint_imbalance h
  | withdrawFromAccounts _ h => exact processWithdrawWithheldTokensFromAccounts_imbalance h
  | harvest _ h => exact processHarvestWithheldTokensToMint_imbalance h
  | confidentialTransfer hix =>
    cases hix <;> simp [TokenInstruction.isConfidential] at hpublic
  | confidentialWithdrawFromMint hix =>
    obtain rfl := hix
    simp [TokenInstruction.isConfidential] at hpublic
  | confidentialWithdrawFromAccounts hix =>
    obtain rfl := hix
    simp [TokenInstruction.isConfidential] at hpublic
  | confidentialHarvest hix =>
    obtain rfl := hix
    simp [TokenInstruction.isConfidential] at hpublic

end BarkToken
