import BarkToken.Conservation.Valuation
import Mathlib.Tactic.LinearCombination

/-!
# Handlers that move tokens in the open

Transfers, issues, burns and the three fee instructions leave the imbalance of
every mint but the native one as it is, for any decryption. Closing takes away
what the closed record contributes.
-/

namespace BarkToken
open Fallible CheckedWord AccountData

variable {R : Type} [CommRing R] {D : Decryption R} {W : ElGamalPubkey} {M : Pubkey}
  {env : Env} {accounts : List AccountInfo} {l l' : Ledger}

/-- With the same extensions, what an account holds changes with its amount. -/
theorem held_of_tlv {s s' : PodStateWithExtensions PodAccount} (h : s'.tlv = s.tlv) :
    held D W s' - held D W s = value R s'.base.amount - value R s.base.amount := by
  rw [held, held, withheldAmount, withheldAmount, h]
  abel

/-- With the same extensions, what a mint has issued changes with its supply. -/
theorem issued_of_tlv {s s' : PodStateWithExtensions PodMint} (h : s'.tlv = s.tlv) :
    issued D W s' - issued D W s = value R s'.base.supply - value R s.base.supply := by
  rw [issued, issued, mintWithheldAmount, mintWithheldAmount, h]
  abel

/-! ### Transfers -/

/-- The destination gets the amount, the fee among it withheld. -/
theorem Credited.held_eq {d d' : PodStateWithExtensions PodAccount} {amount fee : UInt64}
    (h : Credited d d' amount fee) : held D W d' - held D W d = value R amount := by
  have hamount : value R d'.base.amount + value R fee = value R d.base.amount + value R amount := by
    simp only [value, ← Nat.cast_add, h.credit]
  have hwithheld : value R (withheldAmount d') = value R (withheldAmount d) + value R fee :=
    value_add h.withheld
  rw [held, held, hwithheld, Decryption.confidential_congr (h.changesOnly.get _ (by simp)),
    Decryption.withheld_congr (h.changesOnly.get _ (by simp))]
  linear_combination hamount

theorem Transferred.imbalance_eq {c : Call} {source destination : Pubkey}
    {s d s' d' : PodStateWithExtensions PodAccount} {amount fee : UInt64}
    (h : Transferred c l' source destination s d s' d' amount fee) :
    imbalance D W M l' = imbalance D W M c.ledger := by
  obtain ⟨base, hauth, hs'⟩ := h.authority
  have hbase : s'.base.mint = s.base.mint ∧ s'.tlv = s.tlv := by
    rw [hs']
    exact ⟨hauth.base_eq.1, rfl⟩
  have hdebit : held D W s' - held D W s = -value R amount := by
    have hamount : value R s.base.amount = value R s'.base.amount + value R amount :=
      value_add h.debit.symm
    rw [held_of_tlv hbase.2, hamount]
    abel
  have hmint : d'.base.mint = d.base.mint := by rw [h.credited.base]
  rw [imbalance, KeyedSum.total_of_two _ h.ne h.others,
    contribution_of_account h.sourceOwner h.sourceData,
    contribution_of_account h.destinationOwner h.destinationData,
    contribution_of_account ((h.owner source).trans h.sourceOwner) h.sourceData',
    contribution_of_account ((h.owner destination).trans h.destinationOwner) h.destinationData',
    hbase.1, hmint, ← h.mint, ← map_sub, ← map_sub, hdebit, h.credited.held_eq, map_neg, imbalance]
  abel

theorem processTransfer_imbalance (x : Externals) {ix : TokenInstruction} {amount : UInt64}
    {decimals : Option UInt8} {fee : Option UInt64}
    (hindex : ix.authorityIndex l accounts = some (if decimals.isSome then 3 else 2))
    (hnum : ix.numTokenAccounts = 0)
    (h : processTransfer env amount decimals fee accounts l = .ok l') :
    imbalance D W M l' = imbalance D W M l := by
  rcases processTransfer_eq_ok (x := x) hindex hnum h with
    rfl | ⟨source, destination, s, d, s', d', fee', l₁, hmoved, hhook, -⟩
  · rfl
  · rw [hhook.imbalance_eq (by decide) (by decide) (by decide)]
    exact hmoved.imbalance_eq

/-! ### MintTo and Burn -/

theorem SupplyChanged.imbalance_eq {k mintKey : Pubkey} {s s' : PodStateWithExtensions PodAccount}
    {m m' : PodStateWithExtensions PodMint} (h : SupplyChanged l l' k mintKey s s' m m')
    (hsame : value R s'.base.amount - value R s.base.amount =
      value R m'.base.supply - value R m.base.supply) :
    imbalance D W M l' = imbalance D W M l := by
  have hm : m'.tlv = m.tlv := by rw [h.mint]
  rw [h.ledger, imbalance_setMint (s := m) (by rw [Ledger.setData_owner]; exact h.mintOwner)
      (by rw [Ledger.setData_of_ne (Ne.symm h.ne)]; exact h.mintData),
    imbalance_setAccount h.owner h.data h.base, held_of_tlv h.tlv, issued_of_tlv hm, hsame, h.key]
  abel

theorem processMintTo_imbalance (x : Externals) (env : Env) {amount : UInt64} {decimals : Option UInt8}
    (h : processMintTo amount decimals accounts l = .ok l') :
    imbalance D W M l' = imbalance D W M l := by
  obtain ⟨k, mintKey, s, m, newAmount, supply, -, hchanged, hamount, hsupply⟩ :=
    @processMintTo_eq_ok x env _ _ _ _ _ h
  refine hchanged.imbalance_eq ?_
  dsimp only
  rw [value_add hamount, value_add hsupply]
  abel

theorem processBurn_imbalance (x : Externals) {amount : UInt64} {decimals : Option UInt8}
    (h : processBurn env amount decimals accounts l = .ok l') :
    imbalance D W M l' = imbalance D W M l := by
  obtain ⟨k, mintKey, s, base, m, newAmount, supply, hchanged, -, hamount, hsupply⟩ :=
    processBurn_eq_ok (x := x) h
  refine hchanged.imbalance_eq ?_
  dsimp only
  rw [value_add hamount.symm, value_add hsupply.symm]
  abel

/-! ### Closing -/

theorem Closed.imbalance_eq {source destination : Pubkey} {authorityInfo : AccountInfo}
    {signers : List AccountInfo} (h : Closed env l l' source destination authorityInfo signers) :
    imbalance D W M l' = imbalance D W M l - contribution D W M source (l source) := by
  have hsource : contribution D W M source (l' source) = 0 := by
    rw [h.source']
    exact contribution_of_zeroed rfl
  rw [imbalance, KeyedSum.total_of_two _ h.ne h.others, hsource,
    contribution_congr (D := D) (W := W) (M := M) h.destinationOwner h.destinationData, imbalance]
  abel

/-- An account may be closed when nothing is left on it. -/
theorem Closed.held_eq_zero {source destination : Pubkey} {authorityInfo : AccountInfo}
    {signers : List AccountInfo} {s : PodStateWithExtensions PodAccount}
    (h : Closed env l l' source destination authorityInfo signers)
    (hs : WellFormedAccount (l source).lamports s) (hdata : (l source).data = .account s)
    (hnative : s.base.isNative = none) : held D W s = 0 := by
  obtain ⟨hamount, -, hclosable⟩ := h.of_account (hdata ▸ hs.unpackAccount)
  simp only [checkClosable, bind_eq_ok, exists_unit, ensure_eq_ok] at hclosable
  obtain ⟨hconfidential, hencrypted, hfee⟩ := hclosable
  have hzero : s.base.amount = 0 := hamount hnative
  have hwithheld : withheldAmount s = 0 := by
    unfold withheldAmount
    cases hget : s.tlv.get .transferFeeAmount with
    | none => rfl
    | some v => exact hfee v hget
  have hbalance : D.confidential s.tlv = 0 := by
    unfold Decryption.confidential
    cases hget : s.tlv.get .confidentialTransferAccount with
    | none => rfl
    | some e =>
      obtain ⟨hlo, hhi, havailable⟩ := hconfidential e hget
      simp only [Decryption.balance, hlo, hhi, havailable, D.zeroed, mul_zero, add_zero]
  have hfees : D.withheld W s.tlv = 0 := by
    unfold Decryption.withheld
    cases hget : s.tlv.get .confidentialTransferFeeAmount with
    | none => rfl
    | some v =>
      dsimp only
      rw [hencrypted v hget, D.zeroed]
  rw [held, hzero, hwithheld, hbalance, hfees, value_zero]
  simp

/-- Closing anything but the mint itself costs the mint nothing. -/
theorem Closed.contribution_eq_zero {source destination : Pubkey} {authorityInfo : AccountInfo}
    {signers : List AccountInfo} (hl : WellFormedLedger l) (hM : M ≠ nativeMint)
    (h : Closed env l l' source destination authorityInfo signers)
    (hmint : ∀ m, (l source).data = .mint m → source ≠ M) :
    contribution D W M source (l source) = 0 := by
  have hwf := hl source
  cases hwf with
  | foreign hne => exact contribution_of_foreign hne
  | zeroed hdata => exact contribution_of_zeroed hdata
  | multisig hdata => exact contribution_of_multisig hdata
  | mint hdata =>
    rw [contribution_of_mint h.owner hdata, share_of_ne (hmint _ hdata), neg_zero]
  | @account s hdata hs =>
    rw [contribution_of_account h.owner hdata]
    by_cases hkey : s.base.mint = M
    · rw [h.held_eq_zero hs hdata, map_zero]
      exact hl.coherent.isNative_eq_none h.owner hdata (hkey ▸ hM)
    · exact share_of_ne hkey _

end BarkToken
