import BarkToken.Invariant.Accounts
import BarkToken.Program.Replay
import BarkToken.Step.ConfidentialChecks

/-!
# Frozen accounts

No instruction but `ThawAccount` changes the base state of a frozen account, no
confidential instruction that moves tokens succeeds on it, and it can only be
closed when nothing is left in it.
-/

namespace BarkToken
open Fallible AccountData Transition

/-- `ThawAccount` on the account `k`. -/
def Call.Thaws (c : Call) (k : Pubkey) : Prop :=
  c.ix = .toggleFreezeAccount false ∧ c.key 0 = some k

/-- Nothing is left in the account, in the open, withheld or encrypted. -/
structure Emptied (s : PodStateWithExtensions PodAccount) : Prop where
  amount : s.base.amount = 0
  withheld : ∀ v, s.tlv.get .transferFeeAmount = some v → v.withheldAmount = 0
  confidential : ∀ e, s.tlv.get .confidentialTransferAccount = some e →
    e.pendingBalanceLo = .zeroed ∧ e.pendingBalanceHi = .zeroed ∧ e.availableBalance = .zeroed
  confidentialWithheld : ∀ v, s.tlv.get .confidentialTransferFeeAmount = some v →
    v.withheldAmount = .zeroed

section Step

variable {c : Call} {k : Pubkey} {lamports lamports' : UInt64} {l' : Ledger}
  {s s' : PodStateWithExtensions PodAccount}

theorem AccountUpdate.frozen_base (h : AccountUpdate c k lamports' s s') (hfrozen : s.base.frozen)
    (hnative : s.base.isNative = none) (hthaw : ¬ c.Thaws k) : s'.base = s.base := by
  cases h with
  | approve _ _ hnot => exact absurd hfrozen hnot
  | revoke _ hnot => exact absurd hfrozen hnot
  | setOwner _ hnot => exact absurd hfrozen hnot
  | setCloseAuthority _ hnot => exact absurd hfrozen hnot
  | @setState freeze _ _ hix hkey =>
    cases freeze with
    | false => exact absurd ⟨hix, hkey⟩ hthaw
    | true =>
      unfold PodAccount.frozen at hfrozen
      simp only [if_true, ← hfrozen]
  | memo => rfl
  | guard => rfl
  | reallocate _ _ hnone => simp only [hnone hnative, ← hnative]

theorem ConfidentialUpdate.frozen_amount {base : PodAccount} {e e' : ConfidentialTransferAccount}
    {newAmount : UInt64} (h : ConfidentialUpdate c base e e' newAmount) (hfrozen : base.frozen) :
    newAmount = base.amount := by
  cases h with
  | deposited _ _ hnot => exact absurd hfrozen hnot
  | withdrawn _ _ hnot => exact absurd hfrozen hnot
  | _ => rfl

theorem ConfidentialStep.frozen_base (h : ConfidentialStep c s s') (hfrozen : s.base.frozen) :
    s'.base = s.base := by
  cases h with
  | configure _ _ hbase => exact hbase
  | update _ h hs =>
    rw [hs, h.frozen_amount hfrozen]

theorem AccountStep.frozen_base (h : AccountStep c lamports lamports' s s') (hfrozen : s.base.frozen) :
    s'.base = s.base := by
  cases h with
  | debit _ _ hnot => exact absurd hfrozen hnot
  | credit _ hsame _ _ hbase => rw [hbase, hsame hfrozen]
  | move _ _ _ _ hbase => exact hbase
  | harvested _ hbase => exact hbase

/-- A frozen account that is not thawed keeps its base state. -/
theorem AccountChange.frozen_base (h : AccountChange c k lamports lamports' s s')
    (hfrozen : s.base.frozen) (hnative : s.base.isNative = none) (hthaw : ¬ c.Thaws k) :
    s'.base = s.base := by
  cases h with
  | kept => rfl
  | withdrawExcess => rfl
  | update _ h => exact h.frozen_base hfrozen hnative hthaw
  | sync _ hsome => exact absurd (hsome.symm.trans hnative) (by simp)
  | confidential _ h => exact h.frozen_base hfrozen
  | moved h => exact h.frozen_base hfrozen

/-- An account that does not hold wrapped lamports is empty when it is closed. -/
theorem Call.process_closes_emptied (h : c.process = .ok l') (hcloses : c.Closes k)
    (hs : AccountAt c.ledger k s) (hok : (AccountData.account s).unpackAccount = .ok s)
    (hnative : s.base.isNative = none) : Emptied s := by
  obtain ⟨x, env, ix, accounts, l⟩ := c
  obtain ⟨rfl, hkey⟩ := hcloses
  obtain ⟨source, destination, authorityInfo, signers, rfl, hclosed⟩ := processCloseAccount_eq_ok h
  obtain rfl : source.key = k := Option.some.inj hkey
  obtain ⟨hamount, -, hclosable⟩ := hclosed.of_account ((congrArg unpackAccount hs.data).trans hok)
  simp only [checkClosable, bind_eq_ok, exists_unit, ensure_eq_ok] at hclosable
  obtain ⟨hconfidential, hencrypted, hfee⟩ := hclosable
  exact ⟨hamount hnative, hfee, hconfidential, hencrypted⟩

end Step

/-- Runs that neither thaw the account nor close it. -/
abbrev FrozenRun (x : Externals) (A : Pubkey) : Ledger → List Event → Ledger → Prop :=
  RunWhere x fun c => c.Succeeds → ¬ c.Thaws A ∧ ¬ c.Closes A

theorem FrozenRun.keeps_base {x : Externals} {A : Pubkey} {l l' : Ledger} {events : List Event}
    {s : PodStateWithExtensions PodAccount} (hrun : FrozenRun x A l events l')
    (hl : WellFormedLedger l) (hs : AccountAt l A s) (hfrozen : s.base.frozen) :
    WellFormedLedger l' ∧ ∃ s', AccountAt l' A s' ∧ s'.base = s.base := by
  have hnative : s.base.isNative = none := (hs.wellFormed hl).frozen hfrozen
  refine RunWhere.account_invariant (fun s' => s'.base = s.base) (fun c hP hok => (hP hok).2)
    (fun c l' t t' _ hP _ hok _ hchange hbase => ?_) hrun hl hs rfl
  exact (hchange.frozen_base (hbase ▸ hfrozen) (hbase ▸ hnative) (hP ⟨l', hok⟩).1).trans hbase

/-- Frozen accounts are inert. As long as it is neither thawed nor closed, a
frozen account keeps its base state, and whatever instruction comes next, it is
no confidential one on the account, and if it neither thaws the account nor keeps
its base state, it closes an empty account. -/
theorem frozenAccount_inert {x : Externals} {A : Pubkey} {l l' : Ledger} {events : List Event}
    {s : PodStateWithExtensions PodAccount} (hreach : Reachable x l) (hs : AccountAt l A s)
    (hfrozen : s.base.frozen) (hrun : FrozenRun x A l events l') :
    ∃ s', AccountAt l' A s' ∧ s'.base = s.base ∧
      ∀ (c : Call) (l'' : Ledger), c.ledger = l' → c.process = .ok l'' →
        ¬ c.MovesConfidentially A ∧
        (c.Thaws A ∨ (∃ s'', AccountAt l'' A s'' ∧ s''.base = s.base) ∨
          c.Closes A ∧ Emptied s') := by
  obtain ⟨hl', s', hs', hbase⟩ := hrun.keeps_base hreach.wellFormed hs hfrozen
  refine ⟨s', hs', hbase, ?_⟩
  rintro c l'' rfl hok
  have hfrozen' : s'.base.frozen := hbase ▸ hfrozen
  have hnative : s'.base.isNative = none := (hs'.wellFormed hl').frozen hfrozen'
  refine ⟨fun hmoves => (Call.process_confidentiallyOpen hok hmoves hs').notFrozen hfrozen', ?_⟩
  by_cases hthaw : c.Thaws A
  · exact Or.inl hthaw
  · rcases Call.process_accountAt hl' hok hs' with ⟨s'', hs'', hchange⟩ | ⟨hcloses, -⟩
    · exact Or.inr (Or.inl ⟨s'', hs'', (hchange.frozen_base hfrozen' hnative hthaw).trans hbase⟩)
    · exact Or.inr (Or.inr ⟨hcloses, Call.process_closes_emptied hok hcloses hs'
        (hs'.wellFormed hl').unpackAccount hnative⟩)

/-! ### An account that starts frozen -/

/-- Room for a default-frozen mint, and for an account of it. -/
def frozenSampleLedger : Ledger :=
  .ofList [(⟨1⟩, ⟨1, programId, .zeroed 171 []⟩), (⟨2⟩, ⟨1, programId, .zeroed 165 []⟩)]

def frozenSampleCalls : List (Env × TokenInstruction × List AccountInfo) :=
  [(.plain 0, .initializeDefaultAccountState .frozen, [⟨⟨1⟩, false⟩]),
   (.plain 0, .initializeMint 2 ⟨5⟩ (some ⟨6⟩) false, [⟨⟨1⟩, false⟩]),
   (.plain 0, .initializeAccount3 ⟨7⟩, [⟨⟨2⟩, false⟩, ⟨⟨1⟩, false⟩])]

def frozenSampleAccount : PodStateWithExtensions PodAccount :=
  ⟨{ mint := ⟨1⟩, owner := ⟨7⟩, amount := 0, delegate := none, state := .frozen, isNative := none,
     delegatedAmount := 0, closeAuthority := none }, 165, []⟩

/-- Its owner cannot appoint a delegate. -/
theorem frozenAccount_inert_approve :
    ∃ s, AccountAt (execute .refusing (.plain 0) (.approve 3 none)
        [⟨⟨2⟩, false⟩, ⟨⟨8⟩, false⟩, ⟨⟨7⟩, true⟩]
        (replay .refusing frozenSampleCalls frozenSampleLedger)) ⟨2⟩ s ∧
      s.base = frozenSampleAccount.base := by
  have hgen : Genesis frozenSampleLedger := .ofList (by decide) (by decide)
  have hs : AccountAt (replay .refusing frozenSampleCalls frozenSampleLedger) ⟨2⟩
      frozenSampleAccount := ⟨by decide, by decide⟩
  have hrun : FrozenRun .refusing ⟨2⟩ (replay .refusing frozenSampleCalls frozenSampleLedger)
      [.instruction (.plain 0) (.approve 3 none) [⟨⟨2⟩, false⟩, ⟨⟨8⟩, false⟩, ⟨⟨7⟩, true⟩]]
      (execute .refusing (.plain 0) (.approve 3 none) [⟨⟨2⟩, false⟩, ⟨⟨8⟩, false⟩, ⟨⟨7⟩, true⟩]
        (replay .refusing frozenSampleCalls frozenSampleLedger)) :=
    Run.single ⟨fun _ => ⟨fun hthaw => (nomatch hthaw.1), fun hclose => (nomatch hclose.1)⟩, rfl⟩
  obtain ⟨s, hs', hbase, -⟩ :=
    frozenAccount_inert (hgen.reachable_replay frozenSampleCalls) hs rfl hrun
  exact ⟨s, hs', hbase⟩

end BarkToken
