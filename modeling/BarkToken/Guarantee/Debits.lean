import BarkToken.Invariant.Accounts
import BarkToken.Program.Replay

/-!
# Who can take tokens out of an account

A debit needs the owner, the delegate within its allowance, or the permanent
delegate of the mint; deleting an account needs its close authority. Accounts of
the system program and of the incinerator can be emptied and closed by anyone.
-/

namespace BarkToken
open Fallible AccountData Transition

/-- Someone who may debit the account by `decrease` has authorised the call. -/
inductive Call.DebitsWith (c : Call) (s : PodStateWithExtensions PodAccount) (decrease : ℕ) : Prop
  | owner (hauth : c.AuthorisedBy s.base.owner)
  | delegate {d} (hd : s.base.delegate = some d) (hauth : c.AuthorisedBy d)
      (hallowed : decrease ≤ s.base.delegatedAmount.toNat)
  | permanentDelegate {d} (hd : PermanentDelegateAt c.ledger s.base.mint d) (hauth : c.AuthorisedBy d)
  | burn (hix : c.ix.isBurn = true) (howned : s.base.ownedBySystemProgramOrIncinerator)

section Step

variable {c : Call} {k : Pubkey} {lamports lamports' : UInt64} {l' : Ledger}
  {s s' : PodStateWithExtensions PodAccount}

theorem DebitAuthority.debitsWith {amount : UInt64} {base : PodAccount} {decrease : ℕ}
    (h : DebitAuthority c s amount base) (hle : decrease ≤ amount.toNat) :
    c.DebitsWith s decrease := by
  cases h with
  | permanentDelegate hd hauth => exact .permanentDelegate hd hauth
  | delegate hd hauth hremaining => exact .delegate hd hauth (by omega)
  | owner hauth => exact .owner hauth
  | burn hix howned =>
    obtain ⟨amount, decimals, hix⟩ := hix
    exact .burn (by rw [hix]; rfl) howned

/-- Of the changes of an account, only a deposit and the debits of transfers and
burns take tokens out of it. -/
theorem AccountChange.debitsWith (h : AccountChange c k lamports lamports' s s')
    (hlt : s'.base.amount < s.base.amount) :
    c.DebitsWith s (s.base.amount.toNat - s'.base.amount.toNat) := by
  rw [UInt64.lt_iff_toNat_lt] at hlt
  cases h with
  | kept => exact absurd hlt (lt_irrefl _)
  | withdrawExcess => exact absurd hlt (lt_irrefl _)
  | update _ h => cases h <;> exact absurd hlt (lt_irrefl _)
  | sync _ _ _ hle => exact absurd hlt (Nat.not_lt.mpr (UInt64.le_iff_toNat_le.mp hle))
  | confidential _ h =>
    cases h with
    | configure _ _ hbase => exact absurd hlt (by rw [hbase]; exact lt_irrefl _)
    | update _ h hs =>
      rw [hs] at hlt
      cases h with
      | deposited _ hauth => exact .owner hauth
      | withdrawn _ _ _ _ _ hamount =>
        dsimp only at hlt
        omega
      | _ => exact absurd hlt (lt_irrefl _)
  | moved h =>
    cases h with
    | debit _ hauth _ _ hamount hbase =>
      rw [hbase]
      exact hauth.debitsWith (by dsimp only; omega)
    | credit hle _ _ _ hbase =>
      rw [hbase] at hlt
      exact absurd hlt (Nat.not_lt.mpr (UInt64.le_iff_toNat_le.mp hle))
    | move _ _ _ _ hbase => exact absurd hlt (by rw [hbase]; exact lt_irrefl _)
    | harvested _ hbase => exact absurd hlt (by rw [hbase]; exact lt_irrefl _)

/-- What it takes to delete an account. -/
structure Call.Deletes (c : Call) (A : Pubkey) (s : PodStateWithExtensions PodAccount) (l' : Ledger) :
    Prop where
  empty : s.base.amount = 0 ∨ s.base.isNative.isSome
  authority : c.AuthorisedBy (s.base.closeAuthority.getD s.base.owner) ∨
    s.base.ownedBySystemProgramOrIncinerator ∧ c.key 1 = some incinerator ∧
      (l' incinerator).lamports.toNat =
        (c.ledger incinerator).lamports.toNat + (c.ledger A).lamports.toNat

theorem Call.process_deletes (h : c.process = .ok l') (hcloses : c.Closes k)
    (hs : (c.ledger k).data.unpackAccount = .ok s) : c.Deletes k s l' := by
  obtain ⟨x, env, ix, accounts, l⟩ := c
  obtain ⟨rfl, hkey⟩ := hcloses
  obtain ⟨source, destination, authorityInfo, signers, rfl, hclosed⟩ := processCloseAccount_eq_ok h
  obtain rfl : source.key = k := Option.some.inj hkey
  obtain ⟨hamount, hauth, -⟩ := hclosed.of_account hs
  refine ⟨?_, ?_⟩
  · by_cases hnative : s.base.isNative = none
    · exact Or.inl (hamount hnative)
    · exact Or.inr (Option.isSome_iff_ne_none.mpr hnative)
  · unfold authorizeClose at hauth
    split at hauth
    · simp only [bind_eq_ok, exists_unit, ensure_eq_ok] at hauth
      exact Or.inl (Call.authorisedBy (i := 2) rfl rfl rfl hauth.2)
    case isFalse howned =>
      have hdestination : destination.key = incinerator := ensure_eq_ok.mp hauth
      refine Or.inr ⟨not_not.mp howned, congrArg some hdestination, ?_⟩
      rw [← hdestination]
      exact hclosed.destinationLamports

end Step

/-- No unauthorised debit: whoever takes tokens out of an account may do so, and
an account that is gone was empty, or native, and its close authority or owner has
agreed. -/
theorem debit_authorised {c : Call} {l' : Ledger} {A : Pubkey} {s : PodStateWithExtensions PodAccount}
    (hreach : Reachable c.x c.ledger) (hok : c.process = .ok l') (hs : AccountAt c.ledger A s) :
    (∀ s', AccountAt l' A s' → s'.base.amount < s.base.amount →
      c.DebitsWith s (s.base.amount.toNat - s'.base.amount.toNat)) ∧
    ((¬ ∃ s', AccountAt l' A s') → c.Deletes A s l') := by
  have hl := hreach.wellFormed
  refine ⟨fun s' hs' hlt => (Call.process_accountChange hl hok hs hs').debitsWith hlt,
    fun hgone => ?_⟩
  rcases Call.process_accountAt hl hok hs with ⟨s', hs', -⟩ | ⟨hcloses, -⟩
  · exact absurd ⟨s', hs'⟩ hgone
  · exact Call.process_deletes hok hcloses ((congrArg unpackAccount hs.data).trans
      (hs.wellFormed hl).unpackAccount)

/-! ### A burn by the delegate -/

/-- Ten tokens, of which a delegate may take three. -/
def delegatedCalls : List (Env × TokenInstruction × List AccountInfo) :=
  fundedCalls ++
    [(.plain 0, .approve 3 none, [⟨⟨2⟩, false⟩, ⟨⟨8⟩, false⟩, ⟨⟨7⟩, true⟩])]

def delegatedLedger : Ledger := replay .refusing delegatedCalls blankLedger

/-- The delegate burns two of them. -/
def delegateBurn : Call :=
  ⟨.refusing, .plain 0, .burn 2 none, [⟨⟨2⟩, false⟩, ⟨⟨1⟩, false⟩, ⟨⟨8⟩, true⟩], delegatedLedger⟩

set_option maxRecDepth 2000 in
theorem debit_authorised_burn :
    ∃ l' s', delegateBurn.process = .ok l' ∧ AccountAt l' ⟨2⟩ s' ∧
      delegateBurn.DebitsWith (fundedAccount 10 3 (some ⟨8⟩)) 2 := by
  have hs : AccountAt delegatedLedger ⟨2⟩ (fundedAccount 10 3 (some ⟨8⟩)) := ⟨by decide, by decide⟩
  obtain ⟨l', hok⟩ : delegateBurn.Succeeds := Call.succeeds_of_isOk (by decide)
  have hl' : l' = execute .refusing (.plain 0) delegateBurn.ix delegateBurn.accounts delegatedLedger :=
    (execute_of_process hok).symm
  have hs' : AccountAt l' ⟨2⟩ (fundedAccount 8 1 (some ⟨8⟩)) := by
    rw [hl']
    exact ⟨by decide, by decide⟩
  exact ⟨l', _, hok, hs', (debit_authorised (blankLedger_genesis.reachable_replay delegatedCalls) hok hs).1 _ hs'
    (by decide)⟩

end BarkToken
