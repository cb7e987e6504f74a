import BarkToken.Step.Process

/-!
# What becomes of an account and of a mint

A live account or mint goes through a successful instruction as an account or as
a mint, or is closed; and every account after it was there before, or has just
been made for a mint of this program.
-/

namespace BarkToken
open Fallible AccountData

/-- A token account of this program at `k`. -/
structure AccountAt (l : Ledger) (k : Pubkey) (s : PodStateWithExtensions PodAccount) : Prop where
  owner : (l k).owner = programId
  data : (l k).data = .account s

/-- A mint of this program at `k`. -/
structure MintAt (l : Ledger) (k : Pubkey) (m : PodStateWithExtensions PodMint) : Prop where
  owner : (l k).owner = programId
  data : (l k).data = .mint m

theorem AccountAt.unique {l : Ledger} {k : Pubkey} {s s' : PodStateWithExtensions PodAccount}
    (h : AccountAt l k s) (h' : AccountAt l k s') : s = s' :=
  AccountData.account.inj (h.data.symm.trans h'.data)

theorem MintAt.unique {l : Ledger} {k : Pubkey} {m m' : PodStateWithExtensions PodMint}
    (h : MintAt l k m) (h' : MintAt l k m') : m = m' :=
  AccountData.mint.inj (h.data.symm.trans h'.data)

/-- `CloseAccount` with `k` in first place. -/
def Call.Closes (c : Call) (k : Pubkey) : Prop := c.ix = .closeAccount ∧ c.key 0 = some k

/-- The call closes the mint `M`. -/
def Call.ClosesMint (c : Call) (M : Pubkey) : Prop :=
  c.Closes M ∧ ∃ m, MintAt c.ledger M m

/-- A token account before and after a successful instruction that does not
close it, with the lamports under it. -/
inductive AccountChange (c : Call) (k : Pubkey) (lamports lamports' : UInt64)
    (s : PodStateWithExtensions PodAccount) : PodStateWithExtensions PodAccount → Prop
  | kept (hlamports : lamports ≤ lamports') : AccountChange c k lamports lamports' s s
  | withdrawExcess (hnative : s.base.isNative = none) : AccountChange c k lamports lamports' s s
  | update {s'} (hlamports : lamports ≤ lamports') (h : AccountUpdate c k lamports' s s') :
      AccountChange c k lamports lamports' s s'
  | sync {reserve newAmount} (hlamports : lamports ≤ lamports')
      (hnative : s.base.isNative = some reserve)
      (hamount : newAmount.toNat + reserve.toNat = lamports.toNat) (hle : s.base.amount ≤ newAmount) :
      AccountChange c k lamports lamports' s { s with base := { s.base with amount := newAmount } }
  | confidential {s'} (hlamports : lamports ≤ lamports') (h : ConfidentialStep c s s') :
      AccountChange c k lamports lamports' s s'
  | moved {s'} (h : AccountStep c lamports lamports' s s') : AccountChange c k lamports lamports' s s'

section Records

variable {c : Call} {k : Pubkey} {r r' : AccountRecord}

theorem NeutralStep.of_account {s : PodStateWithExtensions PodAccount}
    (h : NeutralStep c k r r') (hs : (AccountData.account s).unpackAccount = .ok s)
    (howner : r.owner = programId) (hdata : r.data = .account s) :
    ∃ s', r'.owner = programId ∧ r'.data = .account s' ∧
      AccountChange c k r.lamports r'.lamports s s' := by
  cases h with
  | foreign h =>
    obtain ⟨howner', hdata', hlamports⟩ := h.keeps howner
    exact ⟨s, howner', hdata'.trans hdata, .kept hlamports⟩
  | account _ howner' hd hd' hlamports h =>
    obtain rfl := AccountData.account.inj (hd.symm.trans hdata)
    exact ⟨_, howner', hd', .update hlamports h⟩
  | sync _ howner' hd hd' hlamports hnative hamount hle =>
    obtain rfl := AccountData.account.inj (hd.symm.trans hdata)
    exact ⟨_, howner', hd', .sync hlamports hnative hamount hle⟩
  | withdrawExcess _ howner' hd hnative =>
    exact ⟨s, howner', hd.trans hdata, .withdrawExcess (hnative s (hdata ▸ hs))⟩
  | mint _ _ hd => exact absurd (hd.symm.trans hdata) (by simp)
  | extend _ _ hd => exact absurd (hd.symm.trans hdata) (by simp)
  | initMint _ _ _ _ hd => exact absurd (hd.symm.trans hdata) (by simp)
  | createNativeMint _ hsystem =>
    exact absurd (howner.symm.trans hsystem) programId_ne_systemProgram
  | initAccount _ _ hd => exact absurd (hd.symm.trans hdata) (by simp)
  | initMultisig _ _ _ _ hd =>
    rcases hd with ⟨tlv, hd⟩ | ⟨m, hd, -⟩ <;> exact absurd (hd.symm.trans hdata) (by simp)

/-- A token account is still there after an instruction, unless it was closed. -/
theorem RecordStep.of_account {s : PodStateWithExtensions PodAccount}
    (h : RecordStep c k r r') (hs : (AccountData.account s).unpackAccount = .ok s)
    (howner : r.owner = programId) (hdata : r.data = .account s) :
    (∃ s', r'.owner = programId ∧ r'.data = .account s' ∧
      AccountChange c k r.lamports r'.lamports s s') ∨
      c.Closes k ∧ r'.owner = systemProgram ∧ r'.data = .zeroed 0 [] := by
  cases h with
  | locally h =>
    cases h with
    | neutral h => exact Or.inl (h.of_account hs howner hdata)
    | confidential _ howner' hd hd' hlamports h =>
      obtain rfl := AccountData.account.inj (hd.symm.trans hdata)
      exact Or.inl ⟨_, howner', hd', .confidential hlamports h⟩
  | account _ howner' hd hd' h =>
    obtain rfl := AccountData.account.inj (hd.symm.trans hdata)
    exact Or.inl ⟨_, howner', hd', .moved h⟩
  | mint _ _ hd => exact absurd (hd.symm.trans hdata) (by simp)
  | close hix hkey _ howner' hdata' => exact Or.inr ⟨⟨hix, hkey⟩, howner', hdata'⟩

/-- A mint is still there after an instruction, unless it was closed. -/
theorem RecordStep.of_mint {m : PodStateWithExtensions PodMint}
    (h : RecordStep c k r r') (howner : r.owner = programId) (hdata : r.data = .mint m) :
    (∃ m', r'.owner = programId ∧ r'.data = .mint m' ∧ (m' = m ∨ MintStep c k m m')) ∨
      c.Closes k ∧ r'.owner = systemProgram ∧ r'.data = .zeroed 0 [] := by
  cases h with
  | locally h =>
    cases h with
    | neutral h =>
      cases h with
      | foreign h =>
        obtain ⟨howner', hdata', -⟩ := h.keeps howner
        exact Or.inl ⟨m, howner', hdata'.trans hdata, Or.inl rfl⟩
      | mint _ howner' hd hd' _ h =>
        obtain rfl := AccountData.mint.inj (hd.symm.trans hdata)
        exact Or.inl ⟨_, howner', hd', Or.inr h.toMintStep⟩
      | withdrawExcess _ howner' hd => exact Or.inl ⟨m, howner', hd.trans hdata, Or.inl rfl⟩
      | account _ _ hd => exact absurd (hd.symm.trans hdata) (by simp)
      | sync _ _ hd => exact absurd (hd.symm.trans hdata) (by simp)
      | extend _ _ hd => exact absurd (hd.symm.trans hdata) (by simp)
      | initMint _ _ _ _ hd => exact absurd (hd.symm.trans hdata) (by simp)
      | createNativeMint _ hsystem =>
        exact absurd (howner.symm.trans hsystem) programId_ne_systemProgram
      | initAccount _ _ hd => exact absurd (hd.symm.trans hdata) (by simp)
      | initMultisig _ _ _ _ hd =>
        rcases hd with ⟨tlv, hd⟩ | ⟨m, hd, -⟩ <;> exact absurd (hd.symm.trans hdata) (by simp)
    | confidential _ _ hd => exact absurd (hd.symm.trans hdata) (by simp)
  | account _ _ hd => exact absurd (hd.symm.trans hdata) (by simp)
  | mint _ howner' hd hd' _ h =>
    obtain rfl := AccountData.mint.inj (hd.symm.trans hdata)
    exact Or.inl ⟨_, howner', hd', Or.inr h⟩
  | close hix hkey _ howner' hdata' => exact Or.inr ⟨⟨hix, hkey⟩, howner', hdata'⟩

/-- Nothing changes the mint of an account. -/
theorem AccountUpdate.mint_eq {lamports' : UInt64} {s s' : PodStateWithExtensions PodAccount}
    (h : AccountUpdate c k lamports' s s') : s'.base.mint = s.base.mint := by
  cases h <;> rfl

theorem ConfidentialStep.mint_eq {s s' : PodStateWithExtensions PodAccount}
    (h : ConfidentialStep c s s') : s'.base.mint = s.base.mint := by
  cases h with
  | configure _ _ hbase => rw [hbase]
  | update _ _ hs => rw [hs]

theorem AccountStep.mint_eq {lamports lamports' : UInt64}
    {s s' : PodStateWithExtensions PodAccount} (h : AccountStep c lamports lamports' s s') :
    s'.base.mint = s.base.mint := by
  cases h with
  | debit _ hauth _ _ _ hbase =>
    rw [hbase]
    exact hauth.base_eq.1
  | credit _ _ _ _ hbase => rw [hbase]
  | move _ _ _ _ hbase => rw [hbase]
  | harvested _ hbase => rw [hbase]

/-- An account after an instruction was there before it, for the same mint, or
is new. -/
theorem RecordStep.account_origin {s' : PodStateWithExtensions PodAccount}
    (h : RecordStep c k r r') (howner' : r'.owner = programId) (hdata' : r'.data = .account s') :
    (∃ s, r.owner = programId ∧ r.data = .account s ∧ s'.base.mint = s.base.mint) ∨
      ∃ len tlv mint, r.owner = programId ∧ r.data = .zeroed len tlv ∧
        (∀ e ∈ tlv.head?, e.1.accountType = .account) ∧ NewAccount c k r'.lamports tlv s' mint := by
  cases h with
  | locally h =>
    cases h with
    | neutral h =>
      cases h with
      | foreign h =>
        by_cases howner : r.owner = programId
        · obtain ⟨-, hd, -⟩ := h.keeps howner
          exact Or.inl ⟨s', howner, hd.symm.trans hdata', rfl⟩
        · obtain ⟨-, len, hd⟩ := h.creates howner howner'
          exact absurd (hd.symm.trans hdata') (by simp)
      | account howner _ hd hd' _ h =>
        obtain rfl := AccountData.account.inj (hd'.symm.trans hdata')
        exact Or.inl ⟨_, howner, hd, h.mint_eq⟩
      | sync howner _ hd hd' =>
        obtain rfl := AccountData.account.inj (hd'.symm.trans hdata')
        exact Or.inl ⟨_, howner, hd, rfl⟩
      | withdrawExcess howner _ hd => exact Or.inl ⟨s', howner, hd.symm.trans hdata', rfl⟩
      | initAccount howner _ hd hd' hhead _ h =>
        obtain rfl := AccountData.account.inj (hd'.symm.trans hdata')
        exact Or.inr ⟨_, _, _, howner, hd, hhead, h⟩
      | mint _ _ _ hd' => exact absurd (hd'.symm.trans hdata') (by simp)
      | extend _ _ _ hd' => exact absurd (hd'.symm.trans hdata') (by simp)
      | initMint _ _ _ _ _ hd' => exact absurd (hd'.symm.trans hdata') (by simp)
      | createNativeMint _ _ _ hd' => exact absurd (hd'.symm.trans hdata') (by simp)
      | initMultisig _ _ _ _ _ hd' => exact absurd (hd'.symm.trans hdata') (by simp)
    | confidential howner _ hd hd' _ h =>
      obtain rfl := AccountData.account.inj (hd'.symm.trans hdata')
      exact Or.inl ⟨_, howner, hd, h.mint_eq⟩
  | account howner _ hd hd' h =>
    obtain rfl := AccountData.account.inj (hd'.symm.trans hdata')
    exact Or.inl ⟨_, howner, hd, h.mint_eq⟩
  | mint _ _ _ hd' => exact absurd (hd'.symm.trans hdata') (by simp)
  | close _ _ _ _ hd' => exact absurd (hd'.symm.trans hdata') (by simp)

/-- What `InitializeMint` makes of zeroed data. -/
structure NewMint (c : Call) (k : Pubkey) (r : AccountRecord) (m : PodStateWithExtensions PodMint) :
    Prop where
  instruction : ∃ d a f rent, c.ix = .initializeMint d a f rent
  key : c.key 0 = some k
  data : r.data = .zeroed m.len m.tlv
  head : ∀ e ∈ m.tlv.head?, e.1.accountType = .mint
  supply : m.base.supply = 0
  combination : checkForInvalidMintExtensionCombinations m.extensionTypes = .ok ()
  frozen : defaultState m = some .frozen → m.base.freezeAuthority.isSome
  base : ∃ d a f rent, c.ix = .initializeMint d a f rent ∧ m.base = ⟨some a, 0, d, true, f⟩
  len : mintLen ≤ m.len

/-- A mint after an instruction was there before it, is new, or is the native
mint. -/
theorem RecordStep.mint_origin {m' : PodStateWithExtensions PodMint}
    (h : RecordStep c k r r') (howner' : r'.owner = programId) (hdata' : r'.data = .mint m') :
    (∃ m, r.owner = programId ∧ r.data = .mint m ∧ (m' = m ∨ MintStep c k m m')) ∨
      (r.owner = programId ∧ NewMint c k r m') ∨
      (k = nativeMint ∧ r.owner = systemProgram ∧ m' = ⟨⟨none, 0, 9, true, none⟩, mintLen, []⟩) := by
  cases h with
  | locally h =>
    cases h with
    | neutral h =>
      cases h with
      | foreign h =>
        by_cases howner : r.owner = programId
        · exact Or.inl ⟨m', howner, (h.keeps howner).2.1.symm.trans hdata', Or.inl rfl⟩
        · obtain ⟨-, len, hzero⟩ := h.creates howner howner'
          exact absurd (hzero.symm.trans hdata') (by simp)
      | mint howner _ hd hd' _ h =>
        obtain rfl := AccountData.mint.inj (hd'.symm.trans hdata')
        exact Or.inl ⟨_, howner, hd, Or.inr h.toMintStep⟩
      | withdrawExcess howner _ hd =>
        exact Or.inl ⟨m', howner, hd.symm.trans hdata', Or.inl rfl⟩
      | initMint hix hkey howner _ hd hd' hhead _ hsupply hcombination hfrozen hbase
          hlen =>
        obtain rfl := AccountData.mint.inj (hd'.symm.trans hdata')
        exact Or.inr (Or.inl ⟨howner, hix, hkey, hd, hhead, hsupply, hcombination, hfrozen, hbase,
          hlen⟩)
      | createNativeMint hkey howner _ hd' =>
        exact Or.inr (Or.inr ⟨hkey, howner, AccountData.mint.inj (hdata'.symm.trans hd')⟩)
      | account _ _ _ hd' => exact absurd (hd'.symm.trans hdata') (by simp)
      | sync _ _ _ hd' => exact absurd (hd'.symm.trans hdata') (by simp)
      | extend _ _ _ hd' => exact absurd (hd'.symm.trans hdata') (by simp)
      | initAccount _ _ _ hd' => exact absurd (hd'.symm.trans hdata') (by simp)
      | initMultisig _ _ _ _ _ hd' => exact absurd (hd'.symm.trans hdata') (by simp)
    | confidential _ _ _ hd' => exact absurd (hd'.symm.trans hdata') (by simp)
  | account _ _ _ hd' => exact absurd (hd'.symm.trans hdata') (by simp)
  | mint howner _ hd hd' _ h =>
    obtain rfl := AccountData.mint.inj (hd'.symm.trans hdata')
    exact Or.inl ⟨_, howner, hd, Or.inr h⟩
  | close _ _ _ _ hd' => exact absurd (hd'.symm.trans hdata') (by simp)

/-- Zeroed data was zeroed before, or has just been handed over. -/
theorem RecordStep.zeroed_origin {len : ℕ} {tlv : Tlv} (h : RecordStep c k r r')
    (howner' : r'.owner = programId) (hdata' : r'.data = .zeroed len tlv) :
    r.owner ≠ programId ∨ ∃ tlv, r.data = .zeroed len tlv := by
  by_cases howner : r.owner = programId
  · right
    cases h with
    | locally h =>
      cases h with
      | neutral h =>
        cases h with
        | foreign h => exact ⟨tlv, (h.keeps howner).2.1.symm.trans hdata'⟩
        | extend _ _ hd hd' =>
          obtain ⟨rfl, -⟩ := AccountData.zeroed.inj (hd'.symm.trans hdata')
          exact ⟨_, hd⟩
        | withdrawExcess _ _ hd => exact ⟨tlv, hd.symm.trans hdata'⟩
        | account _ _ _ hd' => exact absurd (hd'.symm.trans hdata') (by simp)
        | sync _ _ _ hd' => exact absurd (hd'.symm.trans hdata') (by simp)
        | mint _ _ _ hd' => exact absurd (hd'.symm.trans hdata') (by simp)
        | initMint _ _ _ _ _ hd' => exact absurd (hd'.symm.trans hdata') (by simp)
        | createNativeMint _ _ _ hd' => exact absurd (hd'.symm.trans hdata') (by simp)
        | initAccount _ _ _ hd' => exact absurd (hd'.symm.trans hdata') (by simp)
        | initMultisig _ _ _ _ _ hd' => exact absurd (hd'.symm.trans hdata') (by simp)
      | confidential _ _ _ hd' => exact absurd (hd'.symm.trans hdata') (by simp)
    | account _ _ _ hd' => exact absurd (hd'.symm.trans hdata') (by simp)
    | mint _ _ _ hd' => exact absurd (hd'.symm.trans hdata') (by simp)
    | close _ _ _ howner'' =>
      exact absurd (howner'.symm.trans howner'') programId_ne_systemProgram
  · exact Or.inl howner

end Records

end BarkToken
