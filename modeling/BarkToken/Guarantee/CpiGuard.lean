import BarkToken.Guarantee.Debits

/-!
# The CPI guard (extension/cpi_guard)

An owner whose signature only reaches this program through other programs cannot be
robbed of a locked account: those programs can neither hand it over nor let anyone else
into it, nor unlock it, and closing it pays the owner. The guard does not watch the
confidential side, so they can still move its tokens there.
-/

namespace BarkToken
open Fallible AccountData Transition

/-- The keys that speak for the account itself. -/
def principals (s : PodStateWithExtensions PodAccount) : Set Pubkey :=
  {key | key = s.base.owner ∨ s.base.closeAuthority = some key}

/-- Keys of `S` authorise the call from inside other programs only. -/
def Call.OnlyInCpi (c : Call) (S : Set Pubkey) : Prop :=
  ∀ key ∈ S, c.AuthorisedBy key → c.env.inCpi

/-- `s'` is the locked account `s` later on, with no one let in. -/
structure StaysLocked (s s' : PodStateWithExtensions PodAccount) : Prop where
  locked : lockCpi s' = true
  mint : s'.base.mint = s.base.mint
  owner : s'.base.owner = s.base.owner
  closeAuthority : s'.base.closeAuthority = none ∨ s'.base.closeAuthority = s.base.closeAuthority
  delegate : s'.base.delegate = none ∨ s'.base.delegate = s.base.delegate
  delegatedAmount : s'.base.delegatedAmount ≤ s.base.delegatedAmount

/-- What still takes tokens out of a locked account: a deposit, which credits the
account's own pending balance with them, and the delegates. -/
inductive Call.PassesGuard (c : Call) (s s' : PodStateWithExtensions PodAccount) : Prop
  | deposit {amount decimals e e'} (hix : c.ix = .deposit amount decimals)
      (hauth : c.AuthorisedBy s.base.owner)
      (hamount : s'.base.amount.toNat + amount.toNat = s.base.amount.toNat)
      (hget : s.tlv.get .confidentialTransferAccount = some e)
      (hpending : e.deposited c.x.zk amount = .ok e')
      (hget' : s'.tlv.get .confidentialTransferAccount = some e')
  | delegate {d} (hd : s.base.delegate = some d) (hauth : c.AuthorisedBy d)
      (hallowed : s.base.amount.toNat ≤ s'.base.amount.toNat + s.base.delegatedAmount.toNat)
  | permanentDelegate {d} (hd : PermanentDelegateAt c.ledger s.base.mint d) (hauth : c.AuthorisedBy d)

section Step

variable {c : Call} {k : Pubkey} {lamports lamports' : UInt64} {l' : Ledger}
  {s s' s'' : PodStateWithExtensions PodAccount}

theorem StaysLocked.refl (hlock : lockCpi s = true) : StaysLocked s s :=
  ⟨hlock, rfl, rfl, Or.inr rfl, Or.inr rfl, UInt64.le_refl _⟩

theorem StaysLocked.trans (h : StaysLocked s s') (h' : StaysLocked s' s'') : StaysLocked s s'' where
  locked := h'.locked
  mint := h'.mint.trans h.mint
  owner := h'.owner.trans h.owner
  closeAuthority := by
    rcases h'.closeAuthority with hnone | hsame
    · exact Or.inl hnone
    · rw [hsame]
      exact h.closeAuthority
  delegate := by
    rcases h'.delegate with hnone | hsame
    · exact Or.inl hnone
    · rw [hsame]
      exact h.delegate
  delegatedAmount := UInt64.le_trans h'.delegatedAmount h.delegatedAmount

theorem StaysLocked.principals_subset (h : StaysLocked s s') : principals s' ⊆ principals s := by
  rintro key (rfl | hclose)
  · exact Or.inl h.owner
  · rcases h.closeAuthority with hnone | hsame
    · rw [hnone] at hclose
      cases hclose
    · exact Or.inr (hsame ▸ hclose)

theorem closeAuthority_mem_principals (s : PodStateWithExtensions PodAccount) :
    s.base.closeAuthority.getD s.base.owner ∈ principals s := by
  cases hclose : s.base.closeAuthority with
  | none => exact Or.inl rfl
  | some key => exact Or.inr hclose

theorem Call.OnlyInCpi.owner (h : c.OnlyInCpi (principals s)) (hauth : c.AuthorisedBy s.base.owner) :
    c.env.inCpi := h _ (Or.inl rfl) hauth

theorem lockCpi_eq (hguard : s'.tlv.get .cpiGuard = s.tlv.get .cpiGuard) : lockCpi s' = lockCpi s := by
  rw [lockCpi, lockCpi, hguard]

/-- A change of what the account holds lets no one in. -/
theorem StaysLocked.of_base (hlock : lockCpi s = true)
    (hguard : s'.tlv.get .cpiGuard = s.tlv.get .cpiGuard)
    (hbase : ∃ amount isNative state,
      s'.base = { s.base with amount := amount, isNative := isNative, state := state }) :
    StaysLocked s s' := by
  obtain ⟨amount, isNative, state, hbase⟩ := hbase
  refine ⟨(lockCpi_eq hguard).trans hlock, ?_, ?_, Or.inr ?_, Or.inr ?_, ?_⟩
  · rw [hbase]
  · rw [hbase]
  · rw [hbase]
  · rw [hbase]
  · rw [hbase]
    exact UInt64.le_refl _

theorem AccountUpdate.staysLocked (h : AccountUpdate c k lamports' s s') (hlock : lockCpi s = true)
    (honly : c.OnlyInCpi (principals s)) : StaysLocked s s' := by
  cases h with
  | approve _ hauth _ hguard => exact absurd ⟨hlock, honly.owner hauth⟩ hguard
  | revoke => exact ⟨hlock, rfl, rfl, Or.inr rfl, Or.inl rfl, UInt64.zero_le⟩
  | setOwner _ _ _ hguard =>
    rw [hlock] at hguard
    cases hguard
  | @setCloseAuthority closeAuthority hauth _ hguard =>
    have hcpi := honly _ (closeAuthority_mem_principals s) hauth
    have hnone : closeAuthority = none :=
      Option.not_isSome_iff_eq_none.mp fun hsome => hguard ⟨hlock, hcpi, hsome⟩
    exact ⟨hlock, rfl, rfl, Or.inl hnone, Or.inr rfl, UInt64.le_refl _⟩
  | setState => exact .of_base hlock rfl ⟨_, _, _, rfl⟩
  | memo => exact .of_base hlock (TypedStore.get_put_of_ne _ _ (by decide)) ⟨_, _, _, rfl⟩
  | guard hauth hcpi => exact absurd (honly.owner hauth) hcpi
  | reallocate => exact .of_base hlock rfl ⟨_, _, _, rfl⟩

theorem ConfidentialStep.staysLocked (h : ConfidentialStep c s s') (hlock : lockCpi s = true) :
    StaysLocked s s' := by
  cases h with
  | configure _ _ hbase _ _ _ _ _ _ htlv =>
    exact .of_base hlock (htlv.get _ (by simp)) ⟨_, _, _, hbase⟩
  | update _ _ hs =>
    subst hs
    exact .of_base hlock (TypedStore.get_put_of_ne _ _ (by decide)) ⟨_, _, _, rfl⟩

theorem DebitAuthority.staysLocked {amount newAmount : UInt64} {base : PodAccount}
    (h : DebitAuthority c s amount base) (hlock : lockCpi s = true)
    (hbase : s'.base = { base with amount := newAmount })
    (hguard : s'.tlv.get .cpiGuard = s.tlv.get .cpiGuard) : StaysLocked s s' := by
  cases h with
  | @delegate d remaining hd _ hremaining =>
    refine ⟨(lockCpi_eq hguard).trans hlock, ?_, ?_, Or.inr ?_, ?_, ?_⟩
    · rw [hbase]
    · rw [hbase]
    · rw [hbase]
    · rw [hbase]
      dsimp only
      split
      · exact Or.inl rfl
      · exact Or.inr rfl
    · rw [hbase, UInt64.le_iff_toNat_le]
      dsimp only
      omega
  | permanentDelegate | owner | burn => exact .of_base hlock hguard ⟨_, _, _, hbase⟩

theorem AccountStep.staysLocked (h : AccountStep c lamports lamports' s s')
    (hlock : lockCpi s = true) : StaysLocked s s' := by
  cases h with
  | debit _ hauth _ _ _ hbase _ htlv => exact hauth.staysLocked hlock hbase (htlv.get _ (by simp))
  | credit _ _ _ _ hbase _ htlv => exact .of_base hlock (htlv.get _ (by simp)) ⟨_, _, _, hbase⟩
  | move _ _ _ _ hbase _ htlv => exact .of_base hlock (htlv.get _ (by simp)) ⟨_, _, _, hbase⟩
  | harvested _ hbase _ htlv => exact .of_base hlock (htlv.get _ (by simp)) ⟨_, _, _, hbase⟩

/-- Whatever happens to a locked account, no one is let in. -/
theorem AccountChange.staysLocked (h : AccountChange c k lamports lamports' s s')
    (hlock : lockCpi s = true) (honly : c.OnlyInCpi (principals s)) : StaysLocked s s' := by
  cases h with
  | kept => exact .refl hlock
  | withdrawExcess => exact .refl hlock
  | update _ h => exact h.staysLocked hlock honly
  | sync => exact .of_base hlock rfl ⟨_, _, _, rfl⟩
  | confidential _ h => exact h.staysLocked hlock
  | moved h => exact h.staysLocked hlock

theorem DebitAuthority.passesGuard {amount : UInt64} {base : PodAccount}
    (h : DebitAuthority c s amount base) (hlock : lockCpi s = true)
    (hopen : ¬ s.base.ownedBySystemProgramOrIncinerator) (honly : c.OnlyInCpi (principals s))
    (hamount : s'.base.amount.toNat + amount.toNat = s.base.amount.toNat) : c.PassesGuard s s' := by
  cases h with
  | permanentDelegate hd hauth => exact .permanentDelegate hd hauth
  | delegate hd hauth hremaining => exact .delegate hd hauth (by omega)
  | owner hauth hguard => exact absurd ⟨hlock, honly.owner hauth⟩ hguard
  | burn _ howned => exact absurd howned hopen

/-- The owner takes tokens out only by a deposit into its own confidential balance. -/
theorem AccountChange.passesGuard (h : AccountChange c k lamports lamports' s s')
    (hlock : lockCpi s = true) (hopen : ¬ s.base.ownedBySystemProgramOrIncinerator)
    (honly : c.OnlyInCpi (principals s)) (hlt : s'.base.amount < s.base.amount) :
    c.PassesGuard s s' := by
  rw [UInt64.lt_iff_toNat_lt] at hlt
  cases h with
  | kept => exact absurd hlt (lt_irrefl _)
  | withdrawExcess => exact absurd hlt (lt_irrefl _)
  | update _ h => cases h <;> exact absurd hlt (lt_irrefl _)
  | sync _ _ _ hle => exact absurd hlt (Nat.not_lt.mpr (UInt64.le_iff_toNat_le.mp hle))
  | confidential _ h =>
    cases h with
    | configure _ _ hbase => exact absurd hlt (by rw [hbase]; exact lt_irrefl _)
    | update hget h hs =>
      subst hs
      cases h with
      | deposited hix hauth _ _ _ hamount hpending =>
        exact .deposit hix hauth hamount hget hpending (TypedStore.get_put_self _ _ _)
      | withdrawn _ _ _ _ _ hamount =>
        dsimp only at hlt
        omega
      | _ => exact absurd hlt (lt_irrefl _)
  | moved h =>
    cases h with
    | debit _ hauth _ _ hamount hbase =>
      refine hauth.passesGuard hlock hopen honly ?_
      rw [hbase]
      exact hamount
    | credit hle _ _ _ hbase =>
      rw [hbase] at hlt
      exact absurd hlt (Nat.not_lt.mpr (UInt64.le_iff_toNat_le.mp hle))
    | move _ _ _ _ hbase => exact absurd hlt (by rw [hbase]; exact lt_irrefl _)
    | harvested _ hbase => exact absurd hlt (by rw [hbase]; exact lt_irrefl _)

/-- Closing a locked account pays the owner. -/
theorem Call.process_closes_locked (hok : c.process = .ok l') (hcloses : c.Closes k)
    (hs : (c.ledger k).data.unpackAccount = .ok s) (hlock : lockCpi s = true)
    (hopen : ¬ s.base.ownedBySystemProgramOrIncinerator) (honly : c.OnlyInCpi (principals s)) :
    c.key 1 = some s.base.owner ∧ (l' s.base.owner).lamports.toNat =
      (c.ledger s.base.owner).lamports.toNat + (c.ledger k).lamports.toNat := by
  obtain ⟨x, env, ix, accounts, l⟩ := c
  obtain ⟨rfl, hkey⟩ := hcloses
  obtain ⟨source, destination, authorityInfo, signers, rfl, hclosed⟩ := processCloseAccount_eq_ok hok
  obtain rfl : source.key = k := Option.some.inj hkey
  obtain ⟨-, hauth, -⟩ := hclosed.of_account hs
  rw [authorizeClose, if_pos hopen] at hauth
  simp only [bind_eq_ok, exists_unit, ensure_eq_ok] at hauth
  have hcpi := honly _ (closeAuthority_mem_principals s)
    (Call.authorisedBy (i := 2) rfl rfl rfl hauth.2)
  have hdestination : destination.key = s.base.owner :=
    not_not.mp fun hne => hauth.1 ⟨hlock, hcpi, hne⟩
  rw [← hdestination]
  exact ⟨rfl, hclosed.destinationLamports⟩

end Step

/-- Runs in which the principals of a locked account authorise only from inside other
programs, and the account is not closed. -/
abbrev LockedRun (x : Externals) (k : Pubkey) (s : PodStateWithExtensions PodAccount) :
    Ledger → List Event → Ledger → Prop :=
  RunWhere x fun c => c.Succeeds → c.OnlyInCpi (principals s) ∧ ¬ c.Closes k

/-- The guard holds over whole runs, for an owner that is neither the system program nor
the incinerator. As long as it and the close authority authorise only from inside other
programs, a locked account keeps its owner, stays locked, and gets no delegate, no larger
allowance and no close authority; and whichever such instruction comes next, what it takes
out goes to the account's own confidential balance or is a delegate's doing, and if it
closes the account the owner is paid. -/
theorem cpiGuard_holds {x : Externals} {k : Pubkey} {l l' : Ledger} {events : List Event}
    {s : PodStateWithExtensions PodAccount} (hreach : Reachable x l) (hs : AccountAt l k s)
    (hlock : lockCpi s = true) (hopen : ¬ s.base.ownedBySystemProgramOrIncinerator)
    (hrun : LockedRun x k s l events l') :
    ∃ s', AccountAt l' k s' ∧ StaysLocked s s' ∧
      ∀ (c : Call) (l'' : Ledger), c.ledger = l' → c.OnlyInCpi (principals s) →
        c.process = .ok l'' →
        (∀ s'', AccountAt l'' k s'' → s''.base.amount < s'.base.amount → c.PassesGuard s' s'') ∧
        (c.Closes k → c.key 1 = some s.base.owner ∧ (l'' s.base.owner).lamports.toNat =
          (l' s.base.owner).lamports.toNat + (l' k).lamports.toNat) := by
  obtain ⟨hl', s', hs', hstays⟩ := RunWhere.account_invariant (StaysLocked s)
    (fun c hP hok => (hP hok).2)
    (fun c l' t t' _ hP _ hok _ hchange h =>
      h.trans (hchange.staysLocked h.locked fun key hkey hauth =>
        (hP ⟨l', hok⟩).1 key (h.principals_subset hkey) hauth))
    hrun hreach.wellFormed hs (.refl hlock)
  refine ⟨s', hs', hstays, ?_⟩
  rintro c l'' rfl honly hok
  have honly' : c.OnlyInCpi (principals s') :=
    fun key hkey => honly key (hstays.principals_subset hkey)
  have hopen' : ¬ s'.base.ownedBySystemProgramOrIncinerator := by
    unfold PodAccount.ownedBySystemProgramOrIncinerator at hopen ⊢
    rwa [hstays.owner]
  refine ⟨fun s'' hs'' hlt => ?_, fun hcloses => ?_⟩
  · exact (Call.process_accountChange hl' hok hs' hs'').passesGuard hstays.locked hopen' honly' hlt
  · have hpaid := Call.process_closes_locked hok hcloses ((congrArg unpackAccount hs'.data).trans
      (hs'.wellFormed hl').unpackAccount) hstays.locked hopen' honly'
    rw [hstays.owner] at hpaid
    exact hpaid

/-! ### A program that asks for an allowance -/

/-- An account with ten tokens whose owner has locked it. -/
def lockedLedger : Ledger :=
  replay .refusing (fundedCalls ++
      [(.plain 0, .toggleCpiGuard true, [⟨⟨2⟩, false⟩, ⟨⟨7⟩, true⟩])])
    (.ofList [(⟨1⟩, ⟨1, programId, .zeroed 82 []⟩), (⟨2⟩, ⟨1, programId, .zeroed 171 []⟩)])

def lockedAccount : PodStateWithExtensions PodAccount :=
  { fundedAccount 10 0 none with len := 171, tlv := [⟨.cpiGuard, ⟨true⟩⟩] }

/-- One call deep. -/
def calledEnv : Env := { Env.plain 0 with stackHeight := 2 }

set_option maxRecDepth 2000 in
/-- The program has the owner's signature, and yet no allowance afterwards. -/
theorem cpiGuard_holds_approve :
    ∃ s', AccountAt (execute .refusing calledEnv (.approve 5 none)
        [⟨⟨2⟩, false⟩, ⟨⟨8⟩, false⟩, ⟨⟨7⟩, true⟩] lockedLedger) ⟨2⟩ s' ∧
      lockCpi s' = true ∧ s'.base.delegate = none := by
  have hgen : Genesis (.ofList [(⟨1⟩, ⟨1, programId, .zeroed 82 []⟩),
      (⟨2⟩, ⟨1, programId, .zeroed 171 []⟩)]) := .ofList (by decide) (by decide)
  have hs : AccountAt lockedLedger ⟨2⟩ lockedAccount := ⟨by decide, by decide⟩
  have hrun : LockedRun .refusing ⟨2⟩ lockedAccount lockedLedger
      [.instruction calledEnv (.approve 5 none) [⟨⟨2⟩, false⟩, ⟨⟨8⟩, false⟩, ⟨⟨7⟩, true⟩]]
      (execute .refusing calledEnv (.approve 5 none)
        [⟨⟨2⟩, false⟩, ⟨⟨8⟩, false⟩, ⟨⟨7⟩, true⟩] lockedLedger) := by
    refine Run.single ⟨fun _ => ⟨fun _ _ _ => ?_, fun hcloses => ?_⟩, rfl⟩
    · show 1 < 2
      omega
    · exact absurd hcloses.1 (by simp)
  obtain ⟨s', hs', hstays, -⟩ :=
    cpiGuard_holds (hgen.reachable_replay _) hs (by decide) (by decide) hrun
  exact ⟨s', hs', hstays.locked, hstays.delegate.elim id id⟩

end BarkToken
