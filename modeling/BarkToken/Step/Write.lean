import BarkToken.Step.Change

/-!
# Reading handlers backwards

The rules that all handler proofs share: how a write shows at each key, and how
a check of `validate_owner` becomes the authority of a call.
-/

namespace BarkToken
open Fallible

/-! ### Writes -/

section Writes

variable {R : Pubkey → AccountRecord → AccountRecord → Prop} {l l' : Ledger} {k : Pubkey}

/-- A write to one key, where an untouched record is related to itself. -/
theorem forall_of_update (hrefl : ∀ j r, R j r r) {r : AccountRecord} (hk : R k (l k) r) (j : Pubkey) :
    R j (l j) (Function.update l k r j) := by
  by_cases h : j = k
  · subst h
    rwa [Function.update_self]
  · rw [Function.update_of_ne h]
    exact hrefl j (l j)

/-- A data write matters only at an account of this program. -/
theorem forall_of_writeData (hrefl : ∀ j r, R j r r) {d : AccountData}
    (h : l.writeData k d = .ok l')
    (hk : (l k).owner = programId → R k (l k) { l k with data := d }) (j : Pubkey) :
    R j (l j) (l' j) := by
  obtain ⟨howner | hsame, rfl⟩ := Ledger.writeData_eq_ok.mp h
  · exact forall_of_update hrefl (hk howner) j
  · rw [Ledger.setData_eq_self hsame]
    exact hrefl j (l j)

end Writes

theorem NeutralStep.refl (c : Call) (k : Pubkey) (r : AccountRecord) : NeutralStep c k r r :=
  .foreign (ForeignRecord.refl k r)

theorem LocalStep.refl (c : Call) (k : Pubkey) (r : AccountRecord) : LocalStep c k r r :=
  .neutral (.refl c k r)

theorem RecordStep.refl (c : Call) (k : Pubkey) (r : AccountRecord) : RecordStep c k r r :=
  .locally (.refl c k r)

theorem RecordStep.of_foreign {c : Call} {k : Pubkey} {r r' : AccountRecord}
    (h : ForeignRecord k r r') : RecordStep c k r r' := .locally (.neutral (.foreign h))

/-! ### Native accounts -/

/-- The native mint has no authority and no extension, so no setting of it can
be changed. -/
def NativeMintFixed (l : Ledger) : Prop :=
  (l nativeMint).owner = programId → ∀ mint, (l nativeMint).data = .mint mint →
    mint.base.mintAuthority = none ∧ mint.base.freezeAuthority = none ∧ mint.tlv = []

/-- The account at `k` is not the native mint, if it is the program's at all. -/
def NotNativeMint (l : Ledger) (k : Pubkey) : Prop := (l k).owner = programId → k ≠ nativeMint

/-- The accounts of the native mint are the native accounts. -/
def NativeByMint (l : Ledger) : Prop :=
  ∀ k s, (l k).owner = programId → (l k).data = .account s →
    (s.base.isNative.isSome ↔ s.base.mint = nativeMint)

/-- What the steps rely on in the ledger they start from. -/
structure Coherent (l : Ledger) : Prop where
  fixed : NativeMintFixed l
  native : NativeByMint l

theorem Coherent.mint_ne {l : Ledger} {k : Pubkey} {s : PodStateWithExtensions PodAccount}
    (h : Coherent l) (howner : (l k).owner = programId) (hdata : (l k).data = .account s)
    (hnone : s.base.isNative = none) : s.base.mint ≠ nativeMint := by
  rw [Ne, ← h.native k s howner hdata, hnone]
  simp

theorem Coherent.isNative_eq_none {l : Ledger} {k : Pubkey} {s : PodStateWithExtensions PodAccount}
    (h : Coherent l) (howner : (l k).owner = programId) (hdata : (l k).data = .account s)
    (hne : s.base.mint ≠ nativeMint) : s.base.isNative = none := by
  rw [← Option.not_isSome_iff_eq_none, h.native k s howner hdata]
  exact hne

/-! ### Checks -/

theorem checkProgramAccount_eq_ok {owner : Pubkey} {u : Unit} :
    checkProgramAccount owner = .ok u ↔ owner = programId := ensure_eq_ok

theorem borrowData_eq_ok {held : List Pubkey} {k : Pubkey} {u : Unit} :
    borrowData held k = .ok u ↔ k ∉ held := ensure_eq_ok

theorem checkCpiGuard_eq_ok {env : Env} {account : PodStateWithExtensions PodAccount}
    {blocked : TokenError} {u : Unit} :
    checkCpiGuard env account blocked = .ok u ↔ ¬ (lockCpi account = true ∧ env.inCpi) := ensure_eq_ok

theorem takeExpectedMint_eq_ok {decimals : Option UInt8} {accounts rest : List AccountInfo}
    {mint : Option (AccountInfo × UInt8)} :
    takeExpectedMint decimals accounts = .ok (mint, rest) ↔
      (decimals = none ∧ mint = none ∧ accounts = rest) ∨
        ∃ d info, decimals = some d ∧ mint = some (info, d) ∧ accounts = info :: rest := by
  cases decimals with
  | none =>
    simp only [takeExpectedMint, pure_eq_ok, Prod.mk.injEq, reduceCtorEq, false_and,
      exists_false, or_false, true_and]
    exact and_congr_left' eq_comm
  | some d =>
    simp only [takeExpectedMint, bind_eq_ok, Prod.exists, nextAccountInfo_eq_ok, pure_eq_ok,
      Prod.mk.injEq]
    constructor
    · rintro ⟨info, rest', rfl, rfl, rfl⟩
      exact Or.inr ⟨d, info, rfl, rfl, rfl⟩
    · rintro (⟨h, -⟩ | ⟨d', info, h, rfl, rfl⟩)
      · simp at h
      · obtain rfl := Option.some.inj h
        exact ⟨info, rest, rfl, rfl, rfl⟩

/-! ### Authorities -/

section Authority

variable {x : Externals} {env : Env} {ix : TokenInstruction} {l : Ledger}
  {accounts signers : List AccountInfo} {info : AccountInfo} {key : Pubkey}

theorem Call.authorisedBy {i : ℕ} (hindex : ix.authorityIndex l accounts = some i)
    (hdrop : accounts.drop i = info :: signers) (hnum : ix.numTokenAccounts = 0)
    (h : validateOwner l key info signers = .ok ()) :
    (Call.mk x env ix accounts l).AuthorisedBy key :=
  ⟨info, signers, TokenInstruction.authority_eq_rest hindex hdrop hnum, h⟩

theorem Call.AuthorisedBy.names {c : Call} (h : c.AuthorisedBy key) : c.NamesAuthority key :=
  TokenInstruction.AuthorisedBy.names h

theorem Call.NamesAuthority.unique {c : Call} {key' : Pubkey} (h : c.NamesAuthority key)
    (h' : c.NamesAuthority key') : key = key' :=
  TokenInstruction.NamesAuthority.unique h h'

end Authority

end BarkToken
