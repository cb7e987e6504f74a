import BarkToken.Invariant.WellFormed
import Mathlib.Algebra.Group.Hom.Basic

/-!
# What the tokens of a mint add up to

Every record counts for what it holds of a mint: a token account for its
amount, its withheld fees and its encrypted balances, and the mint itself for
its withheld fees less its supply. The sum over all records is the mint's
imbalance.
-/

namespace BarkToken
open Fallible CheckedWord AccountData

/-- What ciphertexts are worth, under the secret key behind each public key. -/
structure Decryption (R : Type) [CommRing R] where
  decrypt : ElGamalPubkey → ElGamalCiphertext → R
  zeroed : ∀ p, decrypt p .zeroed = 0

/-- The decryption that counts public balances only. -/
def Decryption.blind (R : Type) [CommRing R] : Decryption R := ⟨fun _ _ => 0, fun _ => rfl⟩

section Valuation

variable {R : Type} [CommRing R] (D : Decryption R) (W : ElGamalPubkey)

/-- All three encrypted balances of an account. -/
def Decryption.balance (e : ConfidentialTransferAccount) : R :=
  D.decrypt e.elgamalPubkey e.availableBalance + D.decrypt e.elgamalPubkey e.pendingBalanceLo +
    2 ^ 16 * D.decrypt e.elgamalPubkey e.pendingBalanceHi

/-- The encrypted balances of an extension area, zero without the extension. -/
def Decryption.confidential (m : Tlv) : R :=
  match m.get .confidentialTransferAccount with
  | some e => D.balance e
  | none => 0

/-- The encrypted fees that an account withholds. -/
def Decryption.withheld (m : Tlv) : R :=
  match m.get .confidentialTransferFeeAmount with
  | some v => D.decrypt W v.withheldAmount
  | none => 0

/-- What an account holds. -/
def held (s : PodStateWithExtensions PodAccount) : R :=
  value R s.base.amount + value R (withheldAmount s) + D.confidential s.tlv + D.withheld W s.tlv

/-- The encrypted fees that a mint withholds. -/
def Decryption.mintWithheld (m : Tlv) : R :=
  match m.get .confidentialTransferFeeConfig with
  | some v => D.decrypt W v.withheldAmount
  | none => 0

/-- What a mint has issued and does not hold itself. -/
def issued (s : PodStateWithExtensions PodMint) : R :=
  value R s.base.supply - value R (mintWithheldAmount s) - D.mintWithheld W s.tlv

/-- What counts for the mint `M` if it concerns the mint at `k`. -/
def share (M k : Pubkey) : R →+ R := if k = M then AddMonoidHom.id R else 0

@[simp] theorem share_self (M : Pubkey) (a : R) : share M M a = a := by simp [share]

@[simp] theorem share_of_ne {M k : Pubkey} (h : k ≠ M) (a : R) : share M k a = 0 := by
  simp [share, h]

/-- What a record contributes to the imbalance of the mint `M`. -/
def contribution (M k : Pubkey) (r : AccountRecord) : R :=
  if r.owner = programId then
    match r.data with
    | .account s => share M s.base.mint (held D W s)
    | .mint s => -share M k (issued D W s)
    | _ => 0
  else 0

/-- All that the accounts of `M` and `M` itself hold, less its supply. -/
def imbalance (M : Pubkey) (l : Ledger) : R := KeyedSum.total (contribution D W M) l

end Valuation

section Contribution

variable {R : Type} [CommRing R] {D : Decryption R} {W : ElGamalPubkey} {M k : Pubkey}
  {r r' : AccountRecord}

theorem contribution_of_foreign (h : r.owner ≠ programId) : contribution D W M k r = 0 := if_neg h

theorem contribution_of_account {s : PodStateWithExtensions PodAccount}
    (howner : r.owner = programId) (hdata : r.data = .account s) :
    contribution D W M k r = share M s.base.mint (held D W s) := by
  simp only [contribution, if_pos howner, hdata]

theorem contribution_of_mint {s : PodStateWithExtensions PodMint} (howner : r.owner = programId)
    (hdata : r.data = .mint s) : contribution D W M k r = -share M k (issued D W s) := by
  simp only [contribution, if_pos howner, hdata]

theorem contribution_of_zeroed {len : ℕ} {tlv : Tlv} (hdata : r.data = .zeroed len tlv) :
    contribution D W M k r = 0 := by
  simp only [contribution, hdata, ite_self]

theorem contribution_of_multisig {m : PodMultisig} (hdata : r.data = .multisig m) :
    contribution D W M k r = 0 := by
  simp only [contribution, hdata, ite_self]

theorem contribution_congr (howner : r'.owner = r.owner) (hdata : r'.data = r.data) :
    contribution D W M k r' = contribution D W M k r := by
  simp only [contribution, howner, hdata]

/-! ### Values that depend on some extensions only -/

theorem withheldAmount_congr {s s' : PodStateWithExtensions PodAccount}
    (h : s'.tlv.get .transferFeeAmount = s.tlv.get .transferFeeAmount) :
    withheldAmount s' = withheldAmount s := by
  rw [withheldAmount, h, withheldAmount]

theorem Decryption.confidential_congr {m m' : Tlv}
    (h : m'.get .confidentialTransferAccount = m.get .confidentialTransferAccount) :
    D.confidential m' = D.confidential m := by
  rw [Decryption.confidential, h, Decryption.confidential]

theorem Decryption.withheld_congr {m m' : Tlv}
    (h : m'.get .confidentialTransferFeeAmount = m.get .confidentialTransferFeeAmount) :
    D.withheld W m' = D.withheld W m := by
  rw [Decryption.withheld, h, Decryption.withheld]

/-- An account keeps what it holds when neither its amount nor one of the
extensions that count changes. -/
theorem held_congr {s s' : PodStateWithExtensions PodAccount} {ts : List ExtensionType}
    (hamount : s'.base.amount = s.base.amount) (htlv : Tlv.ChangesOnly ts s.tlv s'.tlv)
    (hfee : ExtensionType.transferFeeAmount ∉ ts)
    (hconfidential : ExtensionType.confidentialTransferAccount ∉ ts)
    (hwithheld : ExtensionType.confidentialTransferFeeAmount ∉ ts) :
    held D W s' = held D W s := by
  rw [held, held, hamount, withheldAmount_congr (htlv.get _ hfee),
    Decryption.confidential_congr (htlv.get _ hconfidential),
    Decryption.withheld_congr (htlv.get _ hwithheld)]

/-- The mint's withheld amounts and supply are all that counts. -/
theorem issued_congr {c : Call} {s s' : PodStateWithExtensions PodMint} (h : MintUpdate c k s s') :
    issued D W s' = issued D W s := by
  have hconfidential : D.mintWithheld W s'.tlv = D.mintWithheld W s.tlv := by
    have hmap := h.confidentialWithheld
    unfold Decryption.mintWithheld
    cases hs : s.tlv.get .confidentialTransferFeeConfig with
    | none =>
      rw [hs, Option.map_none, Option.map_eq_none_iff] at hmap
      rw [hmap]
    | some v =>
      rw [hs, Option.map_some, Option.map_eq_some_iff] at hmap
      obtain ⟨v', hv', heq⟩ := hmap
      rw [hv']
      dsimp only
      rw [heq]
  rw [issued, issued, h.supply, hconfidential, mintWithheldAmount, mintWithheldAmount, h.withheld]

/-! ### Steps that move nothing -/

theorem ForeignRecord.contribution_eq (h : ForeignRecord k r r') :
    contribution D W M k r' = contribution D W M k r := by
  by_cases howner : r.owner = programId
  · obtain ⟨howner', hdata, -⟩ := h.keeps howner
    exact contribution_congr (howner'.trans howner.symm) hdata
  · rw [contribution_of_foreign howner]
    by_cases howner' : r'.owner = programId
    · obtain ⟨-, len, hdata⟩ := h.creates howner howner'
      exact contribution_of_zeroed hdata
    · exact contribution_of_foreign howner'

/-- Two states of one account, what it holds being the same. -/
theorem contribution_eq_of_held {s s' : PodStateWithExtensions PodAccount}
    (howner : r.owner = programId) (howner' : r'.owner = programId) (hdata : r.data = .account s)
    (hdata' : r'.data = .account s') (hmint : s'.base.mint = s.base.mint)
    (hheld : held D W s' = held D W s) :
    contribution D W M k r' = contribution D W M k r := by
  rw [contribution_of_account howner hdata, contribution_of_account howner' hdata', hmint, hheld]

theorem KeptRecord.contribution_eq {ts : List ExtensionType} (h : KeptRecord ts k r r')
    (hfee : ExtensionType.transferFeeAmount ∉ ts)
    (hconfidential : ExtensionType.confidentialTransferAccount ∉ ts)
    (hwithheld : ExtensionType.confidentialTransferFeeAmount ∉ ts) :
    contribution D W M k r' = contribution D W M k r := by
  rcases h with hf | ⟨howner, howner', -, s, s', hdata, hdata', hbase, -, htlv⟩
  · exact hf.contribution_eq
  · exact contribution_eq_of_held howner howner' hdata hdata' (by rw [hbase])
      (held_congr (by rw [hbase]) htlv hfee hconfidential hwithheld)

theorem AccountUpdate.held_eq {c : Call} {lamports' : UInt64}
    {s s' : PodStateWithExtensions PodAccount} (h : AccountUpdate c k lamports' s s') :
    s'.base.mint = s.base.mint ∧ held D W s' = held D W s := by
  cases h with
  | memo =>
    exact ⟨rfl, held_congr rfl (Tlv.ChangesOnly.put (t := .memoTransfer) _ _
      (List.mem_singleton_self _)) (by decide) (by decide) (by decide)⟩
  | guard =>
    exact ⟨rfl, held_congr rfl (Tlv.ChangesOnly.put (t := .cpiGuard) _ _
      (List.mem_singleton_self _)) (by decide) (by decide) (by decide)⟩
  | _ => exact ⟨rfl, rfl⟩

/-- A mint starts with no supply and nothing withheld. -/
theorem issued_of_fresh {s : PodStateWithExtensions PodMint} (hsupply : s.base.supply = 0)
    (h : s.tlv.Fresh) : issued D W s = 0 := by
  have hwithheld : mintWithheldAmount s = 0 := by
    unfold mintWithheldAmount
    cases hs : s.tlv.get .transferFeeConfig with
    | none => rfl
    | some v => exact h.withheld v hs
  have hconfidential : D.mintWithheld W s.tlv = 0 := by
    unfold Decryption.mintWithheld
    cases hs : s.tlv.get .confidentialTransferFeeConfig with
    | none => rfl
    | some v =>
      dsimp only
      rw [h.confidentialWithheld v hs, D.zeroed]
  rw [issued, hsupply, hwithheld, hconfidential, value_zero, sub_zero, sub_zero]

/-- An account of any mint but the native one starts with nothing. -/
theorem NewAccount.held_eq_zero {c : Call} {lamports : UInt64} {tlv : Tlv}
    {s : PodStateWithExtensions PodAccount} {mint : PodStateWithExtensions PodMint}
    (htlv : FreshData tlv) (hhead : ∀ e ∈ tlv.head?, e.1.accountType = .account)
    (h : NewAccount c k lamports tlv s mint) (hmint : s.base.mint ≠ nativeMint) :
    held D W s = 0 := by
  have hwithheld : withheldAmount s = 0 := by
    unfold withheldAmount
    cases hs : s.tlv.get .transferFeeAmount with
    | none => rfl
    | some v =>
      rcases h.withheld v hs with hzero | hold
      · exact hzero
      · rw [htlv.get_eq_none hhead (by decide)] at hold
        simp at hold
  have hconfidential : D.confidential s.tlv = 0 := by
    rw [Decryption.confidential, h.get_eq_none htlv hhead (Or.inl rfl)]
  have hfees : D.withheld W s.tlv = 0 := by
    rw [Decryption.withheld, h.get_eq_none htlv hhead (Or.inr rfl)]
  rw [held, (h.nonNative hmint).2, hwithheld, hconfidential, hfees, value_zero]
  simp

/-- Nothing that a neutral step does counts for a mint other than the native one. -/
theorem NeutralStep.contribution_eq {c : Call} (hM : M ≠ nativeMint) (hr : WellFormed k r)
    (h : NeutralStep c k r r') : contribution D W M k r' = contribution D W M k r := by
  cases h with
  | foreign h => exact h.contribution_eq
  | account howner howner' hdata hdata' _ h =>
    obtain ⟨hmint, hheld⟩ := h.held_eq (D := D) (W := W)
    exact contribution_eq_of_held howner howner' hdata hdata' hmint hheld
  | sync howner howner' hdata hdata' _ hnative =>
    have hmint := (hr.of_account howner hdata).native.mp (Option.isSome_of_eq_some hnative)
    rw [contribution_of_account howner hdata, contribution_of_account howner' hdata',
      share_of_ne (hmint ▸ Ne.symm hM), share_of_ne (hmint ▸ Ne.symm hM)]
  | mint howner howner' hdata hdata' _ h =>
    rw [contribution_of_mint howner hdata, contribution_of_mint howner' hdata', issued_congr h]
  | extend _ _ hdata hdata' =>
    rw [contribution_of_zeroed hdata, contribution_of_zeroed hdata']
  | initMint _ _ howner howner' hdata hdata' _ _ hsupply =>
    obtain ⟨-, hfresh⟩ := hr.of_zeroed howner hdata
    rw [contribution_of_zeroed hdata, contribution_of_mint howner' hdata',
      issued_of_fresh hsupply hfresh.toFresh, map_zero, neg_zero]
  | createNativeMint hkey howner howner' hdata' =>
    have hne : r.owner ≠ programId := by
      rw [howner]
      exact Ne.symm programId_ne_systemProgram
    rw [contribution_of_foreign hne, contribution_of_mint howner' hdata',
      share_of_ne (hkey ▸ Ne.symm hM), neg_zero]
  | @initAccount len tlv s mint howner howner' hdata hdata' hhead _ h =>
    rw [contribution_of_zeroed hdata, contribution_of_account howner' hdata']
    by_cases hmint : s.base.mint = M
    · rw [h.held_eq_zero (hr.of_zeroed howner hdata).2 hhead (hmint ▸ hM), map_zero]
    · exact share_of_ne hmint _
  | initMultisig _ _ _ _ hdata hdata' =>
    rw [contribution_of_multisig hdata']
    rcases hdata with ⟨tlv, hzero⟩ | ⟨m, hmultisig, -⟩
    · rw [contribution_of_zeroed hzero]
    · rw [contribution_of_multisig hmultisig]
  | withdrawExcess howner howner' hdata =>
    exact contribution_congr (howner'.trans howner.symm) hdata

/-! ### Writes -/

variable {l l' : Ledger}

theorem imbalance_setAccount {s s' : PodStateWithExtensions PodAccount}
    (howner : (l k).owner = programId) (hdata : (l k).data = .account s)
    (hmint : s'.base.mint = s.base.mint) :
    imbalance D W M (l.setData k (.account s')) =
      imbalance D W M l + share M s.base.mint (held D W s' - held D W s) := by
  rw [imbalance, Ledger.setData, KeyedSum.total_update, contribution_of_account howner hdata,
    contribution_of_account (r := { l k with data := .account s' }) (s := s') howner rfl, hmint,
    ← map_sub, imbalance]

theorem imbalance_setMint {s s' : PodStateWithExtensions PodMint}
    (howner : (l k).owner = programId) (hdata : (l k).data = .mint s) :
    imbalance D W M (l.setData k (.mint s')) =
      imbalance D W M l - share M k (issued D W s' - issued D W s) := by
  rw [imbalance, Ledger.setData, KeyedSum.total_update, contribution_of_mint howner hdata,
    contribution_of_mint (r := { l k with data := .mint s' }) (s := s') howner rfl, map_sub,
    imbalance]
  abel

/-- A write to an account that is not this program's changes nothing at all. -/
theorem imbalance_writeAccount {s s' : PodStateWithExtensions PodAccount}
    (hdata : (l k).data = .account s) (hmint : s'.base.mint = s.base.mint)
    (h : l.writeData k (.account s') = .ok l') :
    imbalance D W M l' =
      imbalance D W M l + share M s.base.mint (held D W s' - held D W s) := by
  obtain ⟨howner | hsame, rfl⟩ := Ledger.writeData_eq_ok.mp h
  · exact imbalance_setAccount howner hdata hmint
  · obtain rfl := AccountData.account.inj (hdata.symm.trans hsame)
    rw [Ledger.setData_eq_self hsame, sub_self, map_zero, add_zero]

theorem imbalance_writeMint {s s' : PodStateWithExtensions PodMint}
    (hdata : (l k).data = .mint s) (h : l.writeData k (.mint s') = .ok l') :
    imbalance D W M l' =
      imbalance D W M l - share M k (issued D W s' - issued D W s) := by
  obtain ⟨howner | hsame, rfl⟩ := Ledger.writeData_eq_ok.mp h
  · exact imbalance_setMint howner hdata
  · obtain rfl := AccountData.mint.inj (hdata.symm.trans hsame)
    rw [Ledger.setData_eq_self hsame, sub_self, map_zero, sub_zero]

theorem KeptStep.imbalance_eq {ts : List ExtensionType} (h : KeptStep ts l l')
    (hfee : ExtensionType.transferFeeAmount ∉ ts)
    (hconfidential : ExtensionType.confidentialTransferAccount ∉ ts)
    (hwithheld : ExtensionType.confidentialTransferFeeAmount ∉ ts) :
    imbalance D W M l' = imbalance D W M l :=
  KeyedSum.total_congr fun k => (h k).contribution_eq hfee hconfidential hwithheld

theorem ForeignStep.imbalance_eq (h : ForeignStep l l') :
    imbalance D W M l' = imbalance D W M l :=
  KeyedSum.total_congr fun k => (h k).contribution_eq

end Contribution

end BarkToken
