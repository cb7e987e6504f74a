import BarkToken.Invariant.Accounts
import BarkToken.Program.Replay

/-!
# What a delegate can spend (processor.rs:391-418, 1030-1083, 536-627)

From one approval to the next, a delegate takes no more out of an account than it
was approved for, however its transfers and burns are interleaved with other
instructions.
-/

namespace BarkToken
open Fallible AccountData Transition

/-! ### Spending -/

instance {ix : TokenInstruction} {l : Ledger} {accounts : List AccountInfo} {key : Pubkey} :
    Decidable (ix.AuthorisedBy l accounts key) :=
  match h : ix.authority l accounts with
  | none => isFalse (by rintro ⟨_, _, h', -⟩; simp [h] at h')
  | some (info, signers) =>
    decidable_of_iff ((validateOwner l key info signers).isOk = true) (by
      simp only [TokenInstruction.AuthorisedBy, h, Option.some.injEq, Prod.mk.injEq]
      constructor
      · intro hok
        refine ⟨info, signers, ⟨rfl, rfl⟩, ?_⟩
        cases hv : validateOwner l key info signers with
        | ok => rfl
        | error => simp [hv, Except.isOk, Except.toBool] at hok
      · rintro ⟨_, _, ⟨rfl, rfl⟩, hv⟩
        rw [hv]
        rfl)

instance {c : Call} {key : Pubkey} : Decidable (c.AuthorisedBy key) :=
  inferInstanceAs (Decidable (c.ix.AuthorisedBy _ _ _))

/-- The amount of the token account at `k`. -/
def Ledger.amountAt (l : Ledger) (k : Pubkey) : ℕ :=
  match (l k).data with
  | .account s => s.base.amount.toNat
  | _ => 0

theorem AccountAt.amountAt {l : Ledger} {k : Pubkey} {s : PodStateWithExtensions PodAccount}
    (h : AccountAt l k s) : l.amountAt k = s.base.amount.toNat := by
  rw [Ledger.amountAt, h.data]

/-- What `d` takes out of `A` in one transfer or burn that it authorises. -/
def Call.spends (A d : Pubkey) (c : Call) (l' : Ledger) : List ℕ :=
  if c.ix.isTransferOrBurn = true ∧ c.AuthorisedBy d then [c.ledger.amountAt A - l'.amountAt A]
  else []

/-- `d` stays a mere delegate of `A`: the account is neither closed nor approved
again, and `d` is not its owner or the permanent delegate of its mint. -/
structure Call.KeepsDelegate (A d : Pubkey) (c : Call) : Prop where
  lives : ¬ c.Closes A
  approves : ∀ d' amount, ¬ c.Approves A d' amount
  owner : ∀ s, AccountAt c.ledger A s →
    s.base.owner ≠ d ∧ ¬ s.base.ownedBySystemProgramOrIncinerator
  permanent : ∀ s, AccountAt c.ledger A s → ¬ PermanentDelegateAt c.ledger s.base.mint d

/-- Runs in which `d` stays a mere delegate, with the amounts that it takes out. -/
abbrev DelegatedRun (x : Externals) (A d : Pubkey) :
    Ledger × List ℕ → List Event → Ledger × List ℕ → Prop :=
  RecordedRun x (fun c => c.Succeeds → c.KeepsDelegate A d) (Call.spends A d)

section Step

variable {c : Call} {A d : Pubkey} {lamports lamports' : UInt64} {l' : Ledger}
  {s s' : PodStateWithExtensions PodAccount}

/-- The allowance after `spent` was taken out of it: so much less, or gone with
its delegate. -/
def AllowanceStep (s s' : PodStateWithExtensions PodAccount) (spent : ℕ) : Prop :=
  (s'.base.delegate = s.base.delegate ∧
    s'.base.delegatedAmount.toNat + spent = s.base.delegatedAmount.toNat) ∨
  (s'.base.delegate = none ∧ spent ≤ s.base.delegatedAmount.toNat)

theorem allowanceStep_of_base (hd : s'.base.delegate = s.base.delegate)
    (ha : s'.base.delegatedAmount = s.base.delegatedAmount) : AllowanceStep s s' 0 :=
  Or.inl ⟨hd, by rw [ha, Nat.add_zero]⟩

theorem AccountUpdate.allowanceStep (h : AccountUpdate c A lamports' s s')
    (happrove : ∀ d' amount, ¬ c.Approves A d' amount) : AllowanceStep s s' 0 := by
  cases h with
  | approve hix => exact absurd hix (happrove _ _)
  | revoke => exact Or.inr ⟨rfl, Nat.zero_le _⟩
  | setOwner => exact Or.inr ⟨rfl, Nat.zero_le _⟩
  | _ => exact allowanceStep_of_base rfl rfl

/-- A debit that `d` authorises comes out of its allowance, since nothing else
entitles it; one that it does not authorise leaves the allowance alone. -/
theorem DebitAuthority.allowanceStep {amount newAmount : UInt64} {base : PodAccount}
    (h : DebitAuthority c s amount base) (hkeeps : c.KeepsDelegate A d)
    (hs : AccountAt c.ledger A s) (hd : s.base.delegate = some d ∨ s.base.delegate = none)
    (hbase : s'.base = { base with amount := newAmount }) :
    AllowanceStep s s' (if c.AuthorisedBy d then amount.toNat else 0) := by
  have hkey {key : Pubkey} (hauth : c.AuthorisedBy key) (hne : key ≠ d) : ¬ c.AuthorisedBy d :=
    fun hauth' => hne (hauth.names.unique hauth'.names)
  cases h with
  | permanentDelegate hpermanent hauth =>
    rw [if_neg (hkey hauth fun e => hkeeps.permanent s hs (e ▸ hpermanent))]
    exact allowanceStep_of_base (by rw [hbase]) (by rw [hbase])
  | @delegate d' remaining hdelegate hauth hremaining =>
    rcases hd with hd | hd
    · obtain rfl := Option.some.inj (hdelegate.symm.trans hd)
      rw [if_pos hauth]
      by_cases hzero : remaining = 0
      · exact Or.inr ⟨by rw [hbase, if_pos hzero], by omega⟩
      · exact Or.inl ⟨by rw [hbase, if_neg hzero], by rw [hbase]; exact hremaining⟩
    · exact absurd (hdelegate.symm.trans hd) (by simp)
  | owner hauth =>
    rw [if_neg (hkey hauth (hkeeps.owner s hs).1)]
    exact allowanceStep_of_base (by rw [hbase]) (by rw [hbase])
  | burn _ howned => exact absurd howned (hkeeps.owner s hs).2

/-- A step that does not lower the amount uses no allowance. -/
theorem AllowanceStep.of_le (h : AllowanceStep s s' 0) (hle : s.base.amount ≤ s'.base.amount) :
    AllowanceStep s s' (if c.ix.isTransferOrBurn = true ∧ c.AuthorisedBy d then
      s.base.amount.toNat - s'.base.amount.toNat else 0) := by
  rw [UInt64.le_iff_toNat_le] at hle
  rwa [Nat.sub_eq_zero_of_le hle, ite_self]

/-- What one instruction does to the allowance. -/
theorem AccountChange.allowanceStep (h : AccountChange c A lamports lamports' s s')
    (hkeeps : c.KeepsDelegate A d) (hs : AccountAt c.ledger A s)
    (hd : s.base.delegate = some d ∨ s.base.delegate = none) :
    AllowanceStep s s' (if c.ix.isTransferOrBurn = true ∧ c.AuthorisedBy d then
      s.base.amount.toNat - s'.base.amount.toNat else 0) := by
  cases h with
  | kept => exact .of_le (allowanceStep_of_base rfl rfl) (UInt64.le_refl _)
  | withdrawExcess => exact .of_le (allowanceStep_of_base rfl rfl) (UInt64.le_refl _)
  | update _ h =>
    refine (h.allowanceStep hkeeps.approves).of_le ?_
    cases h <;> exact UInt64.le_refl _
  | sync _ _ _ hle => exact .of_le (allowanceStep_of_base rfl rfl) hle
  | confidential _ h =>
    cases h with
    | configure _ _ hbase =>
      exact .of_le (allowanceStep_of_base (by rw [hbase]) (by rw [hbase]))
        (by rw [hbase]; exact UInt64.le_refl _)
    | update _ h hs' =>
      rw [hs']
      cases h with
      | deposited hix =>
        rw [if_neg fun hspends => by simp [hix, TokenInstruction.isTransferOrBurn] at hspends]
        exact allowanceStep_of_base rfl rfl
      | withdrawn _ _ _ _ _ hamount =>
        refine .of_le (allowanceStep_of_base rfl rfl) ?_
        rw [UInt64.le_iff_toNat_le]
        dsimp only
        omega
      | _ => exact .of_le (allowanceStep_of_base rfl rfl) (UInt64.le_refl _)
  | moved h =>
    cases h with
    | @debit base amount newAmount hix hauth _ _ hamount hbase =>
      have hdebit := hauth.allowanceStep hkeeps hs hd hbase
      have hspent : s.base.amount.toNat - s'.base.amount.toNat = amount.toNat := by
        rw [hbase]
        dsimp only
        omega
      rw [hspent]
      simpa only [hix, true_and] using hdebit
    | credit hle _ _ _ hbase =>
      exact .of_le (allowanceStep_of_base (by rw [hbase]) (by rw [hbase])) (by rw [hbase]; exact hle)
    | move _ _ _ _ hbase =>
      exact .of_le (allowanceStep_of_base (by rw [hbase]) (by rw [hbase]))
        (by rw [hbase]; exact UInt64.le_refl _)
    | harvested _ hbase =>
      exact .of_le (allowanceStep_of_base (by rw [hbase]) (by rw [hbase]))
        (by rw [hbase]; exact UInt64.le_refl _)

end Step

/-! ### Along a run -/

/-- What `d` has taken out of `A` so far, and what it may still take out. -/
structure AllowanceLeft (A d : Pubkey) (approved : ℕ) (l : Ledger) (spent : List ℕ)
    (s : PodStateWithExtensions PodAccount) : Prop where
  account : AccountAt l A s
  delegate : s.base.delegate = some d ∨ s.base.delegate = none
  total : spent.sum + s.base.delegatedAmount.toNat ≤ approved
  rest : s.base.delegate = some d → spent.sum + s.base.delegatedAmount.toNat = approved

section Run

variable {c : Call} {A d : Pubkey} {approved : ℕ} {l l' : Ledger} {spent spent' : List ℕ}
  {s : PodStateWithExtensions PodAccount} {x : Externals} {events : List Event}

theorem Call.process_allowanceLeft (hl : WellFormedLedger c.ledger) (hok : c.process = .ok l')
    (hkeeps : c.KeepsDelegate A d) (h : AllowanceLeft A d approved c.ledger spent s) :
    ∃ s', AllowanceLeft A d approved l' (spent ++ c.spends A d l') s' := by
  rcases Call.process_accountAt hl hok h.account with ⟨s', hs', hchange⟩ | ⟨hcloses, -⟩
  · have hsum : (spent ++ c.spends A d l').sum = spent.sum +
        (if c.ix.isTransferOrBurn = true ∧ c.AuthorisedBy d then
          s.base.amount.toNat - s'.base.amount.toNat else 0) := by
      rw [List.sum_append, Call.spends, h.account.amountAt, hs'.amountAt]
      split <;> simp
    have hnone := (hs'.wellFormed (Call.process_wellFormed hl hok)).delegate
    have htotal := h.total
    rcases hchange.allowanceStep hkeeps h.account h.delegate with ⟨hd, hrest⟩ | ⟨hd, hle⟩
    · refine ⟨s', hs', hd ▸ h.delegate, by rw [hsum]; omega, fun hsome => ?_⟩
      have := h.rest (hd ▸ hsome)
      rw [hsum]
      omega
    · refine ⟨s', hs', Or.inr hd, ?_, fun hsome => absurd (hsome.symm.trans hd) (by simp)⟩
      rw [hsum, hnone hd, UInt64.toNat_zero]
      omega
  · exact absurd hcloses hkeeps.lives

/-- The allowance is accounted for along every run in which `d` stays a mere
delegate. -/
theorem DelegatedRun.allowanceLeft (hrun : DelegatedRun x A d (l, spent) events (l', spent'))
    (hl : WellFormedLedger l) (h : AllowanceLeft A d approved l spent s) :
    WellFormedLedger l' ∧ ∃ s', AllowanceLeft A d approved l' spent' s' :=
  RecordedRun.invariant (fun l spent => WellFormedLedger l ∧ ∃ s, AllowanceLeft A d approved l spent s)
    (fun _ l' _ _ hP ⟨hl, _, h⟩ hok =>
      ⟨Call.process_wellFormed hl hok, Call.process_allowanceLeft hl hok (hP ⟨l', hok⟩) h⟩)
    (fun _ _ _ ⟨hl, s, h⟩ hf =>
      ⟨hf.wellFormed hl, s, hf.keeps_accountAt h.account, h.delegate, h.total, h.rest⟩)
    hrun ⟨hl, s, h⟩

end Run

/-! ### Approval and revocation -/

/-- `Revoke` on the account `k`. -/
def Call.Revokes (c : Call) (k : Pubkey) : Prop := c.ix = .revoke ∧ c.key 0 = some k

section Handlers

variable {c : Call} {A d : Pubkey} {amount : UInt64} {lamports lamports' : UInt64} {l' : Ledger}
  {s s' : PodStateWithExtensions PodAccount}

/-- `Approve` leaves an account whose delegate may spend the approved amount. -/
theorem Call.process_approves (h : c.process = .ok l') (happroves : c.Approves A d amount)
    (hs : AccountAt c.ledger A s) :
    ∃ s', AccountAt l' A s' ∧ s'.base.delegate = some d ∧ s'.base.delegatedAmount = amount := by
  obtain ⟨x, env, ix, accounts, l⟩ := c
  obtain ⟨decimals, rfl, hkey, hdelegate⟩ := happroves
  have h : processApprove env amount decimals accounts l = .ok l' := h
  simp only [processApprove, bind_eq_ok, Prod.exists, exists_unit, nextAccountInfo_eq_ok,
    takeExpectedMint_eq_ok, ensure_eq_ok] at h
  obtain ⟨sourceInfo, rest, rfl, mint, rest', hmint, delegateInfo, rest'', rfl, ownerInfo, signers,
    rfl, source, -, -, -, -, -, hwrite⟩ := h
  obtain rfl : sourceInfo.key = A := Option.some.inj hkey
  obtain ⟨-, rfl⟩ := Ledger.writeData_eq_ok.mp hwrite
  refine ⟨_, ⟨by rw [Ledger.setData_owner]; exact hs.owner,
    congrArg AccountRecord.data Ledger.setData_self⟩, ?_, rfl⟩
  rcases hmint with ⟨rfl, -, rfl⟩ | ⟨dec, info, rfl, -, rfl⟩
  · exact hdelegate
  · exact hdelegate

theorem Call.process_revokes (h : c.process = .ok l') (hrevokes : c.Revokes A)
    (hs' : AccountAt l' A s') : s'.base.delegate = none := by
  obtain ⟨x, env, ix, accounts, l⟩ := c
  obtain ⟨rfl, hkey⟩ := hrevokes
  have h : processRevoke accounts l = .ok l' := h
  simp only [processRevoke, bind_eq_ok, Prod.exists, exists_unit, nextAccountInfo_eq_ok,
    ensure_eq_ok] at h
  obtain ⟨sourceInfo, rest, rfl, authorityInfo, signers, rfl, source, -, -, -, hwrite⟩ := h
  obtain rfl : sourceInfo.key = A := Option.some.inj hkey
  obtain ⟨-, rfl⟩ := Ledger.writeData_eq_ok.mp hwrite
  have hdata := (congrArg AccountRecord.data Ledger.setData_self).symm.trans hs'.data
  obtain rfl := AccountData.account.inj hdata
  rfl

/-- A new owner starts without a delegate. -/
theorem AccountChange.delegate_of_owner (h : AccountChange c A lamports lamports' s s')
    (hne : s'.base.owner ≠ s.base.owner) : s'.base.delegate = none := by
  cases h with
  | kept => exact absurd rfl hne
  | withdrawExcess => exact absurd rfl hne
  | update _ h =>
    cases h with
    | setOwner => rfl
    | _ => exact absurd rfl hne
  | sync => exact absurd rfl hne
  | confidential _ h =>
    cases h with
    | configure _ _ hbase => exact absurd (by rw [hbase]) hne
    | update _ _ hs => exact absurd (by rw [hs]) hne
  | moved h =>
    cases h with
    | debit _ hauth _ _ _ hbase => exact absurd (by rw [hbase]; exact hauth.base_eq.2.1) hne
    | credit _ _ _ _ hbase => exact absurd (by rw [hbase]) hne
    | move _ _ _ _ hbase => exact absurd (by rw [hbase]) hne
    | harvested _ hbase => exact absurd (by rw [hbase]) hne

end Handlers

/-! ### The cap -/

/-- After the delegate is revoked, the owner changes or the allowance is used up,
nothing is left to take out. -/
theorem AllowanceLeft.ended {c : Call} {A d : Pubkey} {approved : ℕ} {l' : Ledger} {spent : List ℕ}
    {s s' : PodStateWithExtensions PodAccount} (h : AllowanceLeft A d approved c.ledger spent s)
    (hl : WellFormedLedger c.ledger) (hok : c.process = .ok l') (hkeeps : c.KeepsDelegate A d)
    (hs' : AccountAt l' A s')
    (hend : c.Revokes A ∨ s'.base.owner ≠ s.base.owner ∨ s'.base.delegatedAmount = 0) :
    AllowanceLeft A d 0 l' [] s' := by
  have hchange := Call.process_accountChange hl hok h.account hs'
  have hnone := (hs'.wellFormed (Call.process_wellFormed hl hok)).delegate
  have hzero : s'.base.delegatedAmount = 0 := by
    rcases hend with hrevokes | howner | hzero
    · exact hnone (Call.process_revokes hok hrevokes hs')
    · exact hnone (hchange.delegate_of_owner howner)
    · exact hzero
  refine ⟨hs', ?_, by simp [hzero], fun _ => by simp [hzero]⟩
  rcases hchange.allowanceStep hkeeps h.account h.delegate with ⟨hd, -⟩ | ⟨hd, -⟩
  · exact hd ▸ h.delegate
  · exact Or.inr hd

/-- The delegation cap: an account without a delegate has no allowance, and after
an approval of `amount`, a delegate that stays a mere delegate takes out `amount`
at most, its allowance being what is left, and nothing more once it is revoked, the
owner changes or the allowance is used up. -/
theorem delegation_capped (x : Externals) :
    (∀ (l : Ledger) (A : Pubkey) (s : PodStateWithExtensions PodAccount), Reachable x l →
      AccountAt l A s → s.base.delegate = none → s.base.delegatedAmount = 0) ∧
    ∀ (c : Call) (A d : Pubkey) (amount : UInt64) (l₁ l : Ledger)
      (s₀ : PodStateWithExtensions PodAccount) (events : List Event) (spent : List ℕ),
      Reachable x c.ledger → AccountAt c.ledger A s₀ → c.process = .ok l₁ → c.Approves A d amount →
      DelegatedRun x A d (l₁, []) events (l, spent) →
      spent.sum ≤ amount.toNat ∧
      ∃ s, AccountAt l A s ∧
        (s.base.delegate = some d → s.base.delegatedAmount.toNat = amount.toNat - spent.sum) ∧
        ∀ (c' : Call) (l' l'' : Ledger) (s' : PodStateWithExtensions PodAccount)
          (more : List Event) (spent' : List ℕ), c'.ledger = l → c'.process = .ok l' →
          c'.KeepsDelegate A d → AccountAt l' A s' →
          c'.Revokes A ∨ s'.base.owner ≠ s.base.owner ∨ s'.base.delegatedAmount = 0 →
          DelegatedRun x A d (l', []) more (l'', spent') → spent'.sum = 0 := by
  refine ⟨fun l A s hreach hs => (hs.wellFormed hreach.wellFormed).delegate, ?_⟩
  intro c A d amount l₁ l s₀ events spent hreach hs₀ hok happroves hrun
  obtain ⟨s₁, hs₁, hdelegate, hamount⟩ := Call.process_approves hok happroves hs₀
  have hstart : AllowanceLeft A d amount.toNat l₁ [] s₁ :=
    ⟨hs₁, Or.inl hdelegate, by simp [hamount], fun _ => by simp [hamount]⟩
  obtain ⟨hl, s, hleft⟩ :=
    DelegatedRun.allowanceLeft hrun (Call.process_wellFormed hreach.wellFormed hok) hstart
  have htotal := hleft.total
  refine ⟨by omega, s, hleft.account, fun hd => by have := hleft.rest hd; omega, ?_⟩
  rintro c' l' l'' s' more spent' rfl hok' hkeeps hs' hend hmore
  obtain ⟨-, s'', hleft'⟩ := DelegatedRun.allowanceLeft hmore (Call.process_wellFormed hl hok')
    (hleft.ended hl hok' hkeeps hs' hend)
  have := hleft'.total
  omega

/-! ### A delegate that spends its allowance -/

/-- The owner of ten tokens approves a delegate for three. -/
def approveThree : Call :=
  ⟨.refusing, .plain 0, .approve 3 none, [⟨⟨2⟩, false⟩, ⟨⟨8⟩, false⟩, ⟨⟨7⟩, true⟩],
    fundedLedger⟩

def approvedLedger : Ledger :=
  execute .refusing (.plain 0) approveThree.ix approveThree.accounts approveThree.ledger

/-- The delegate burns two of them. -/
def burnTwo : Event := .instruction (.plain 0) (.burn 2 none) [⟨⟨2⟩, false⟩, ⟨⟨1⟩, false⟩, ⟨⟨8⟩, true⟩]

def burntLedger : Ledger :=
  execute .refusing (.plain 0) (.burn 2 none) [⟨⟨2⟩, false⟩, ⟨⟨1⟩, false⟩, ⟨⟨8⟩, true⟩] approvedLedger

set_option maxRecDepth 2000 in
/-- One is left to it. -/
theorem delegation_capped_burn :
    ∃ s, AccountAt burntLedger ⟨2⟩ s ∧
      (s.base.delegate = some ⟨8⟩ → s.base.delegatedAmount.toNat = 3 - 2) := by
  have hs₀ : AccountAt approveThree.ledger ⟨2⟩ (fundedAccount 10 0 none) := ⟨by decide, by decide⟩
  have hs₁ : AccountAt approvedLedger ⟨2⟩ (fundedAccount 10 3 (some ⟨8⟩)) := ⟨by decide, by decide⟩
  have hm : MintAt approvedLedger ⟨1⟩ ⟨⟨some ⟨5⟩, 10, 2, true, none⟩, 82, []⟩ :=
    ⟨by decide, by decide⟩
  obtain ⟨l₁, hok⟩ : approveThree.Succeeds := Call.succeeds_of_isOk (by decide)
  obtain rfl : approvedLedger = l₁ := execute_of_process hok
  have hkeeps : (Call.mk .refusing (.plain 0) (.burn 2 none)
      [⟨⟨2⟩, false⟩, ⟨⟨1⟩, false⟩, ⟨⟨8⟩, true⟩] approvedLedger).KeepsDelegate ⟨2⟩ ⟨8⟩ := by
    refine ⟨fun hclose => (nomatch hclose.1), fun _ _ ⟨_, hix, _⟩ => (nomatch hix), ?_, ?_⟩
    · intro s hs
      obtain rfl := hs.unique hs₁
      decide
    · intro s hs
      obtain rfl := hs.unique hs₁
      rintro ⟨m, hunpack, hd⟩
      obtain rfl := AccountData.mint.inj (hm.data.symm.trans (unpackMint_eq_ok.mp hunpack).1)
      exact absurd hd (by decide)
  have hrun : DelegatedRun .refusing ⟨2⟩ ⟨8⟩ (approvedLedger, []) [burnTwo] (burntLedger, [2]) :=
    Run.single ⟨⟨fun _ => hkeeps, rfl⟩, by decide⟩
  obtain ⟨-, s, hs, hrest, -⟩ := (delegation_capped .refusing).2 approveThree ⟨2⟩ ⟨8⟩ 3 approvedLedger
    burntLedger _ _ _ (blankLedger_genesis.reachable_replay fundedCalls) hs₀ hok ⟨none, rfl, rfl, rfl⟩ hrun
  exact ⟨s, hs, hrest⟩

end BarkToken
