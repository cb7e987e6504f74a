import BarkToken.Invariant.Markers
import BarkToken.Program.Replay

/-!
# Restrictions that a mint puts on its accounts

A transfer without a mint account goes by the markers of the source, and a fee is
withheld where the destination has room for it. Both are there for every account
as long as no mint is made anew for accounts that lack them.
-/

namespace BarkToken
open Fallible AccountData Transition

/-- No transfer restriction can be shed in a run whose new mints find no account
that lacks their markers. -/
theorem restrictions_stay {x : Externals} {l₀ l : Ledger} {events : List Event} (hgen : Genesis l₀)
    (hrun : RunWhere x (fun c => c.Succeeds → ∀ M, ¬ c.LeavesUnmarked M) l₀ events l) (M : Pubkey) :
    AccountsMarked M l := by
  refine (RunWhere.invariant (fun l => WellFormedLedger l ∧ AccountsMarked M l)
    (fun c l' _ hP hinv hok => ?_) (fun l l' hinv hf => ?_) hrun
    ⟨hgen.wellFormed, hgen.accountsMarked⟩).2
  · exact ⟨Call.process_wellFormed hinv.1 hok,
      Call.process_accountsMarked hinv.1 hok (hP ⟨l', hok⟩ M) hinv.2⟩
  · exact ⟨hf.wellFormed hinv.1, hf.accountsMarked hinv.2⟩

/-! ### A mint made anew -/

/-- Room for a mint that can be closed, and for an account of it. -/
def blankClosableLedger : Ledger :=
  .ofList [(⟨1⟩, ⟨1, programId, .zeroed 202 []⟩), (⟨2⟩, ⟨1, programId, .zeroed 165 []⟩)]

/-- A mint with a close authority, and an account for it. -/
def closableCalls : List (Env × TokenInstruction × List AccountInfo) :=
  [(.plain 0, .initializeMintCloseAuthority (some ⟨5⟩), [⟨⟨1⟩, false⟩]),
   (.plain 0, .initializeMint 2 ⟨6⟩ none false, [⟨⟨1⟩, false⟩]),
   (.plain 0, .initializeAccount3 ⟨7⟩, [⟨⟨2⟩, false⟩, ⟨⟨1⟩, false⟩])]

/-- The mint is closed while the account is there. -/
def closedMintLedger : Ledger :=
  replay .refusing (closableCalls ++ [(.plain 0, .closeAccount,
    [⟨⟨1⟩, false⟩, ⟨⟨3⟩, false⟩, ⟨⟨5⟩, true⟩])]) blankClosableLedger

/-- Its address, allocated again with room for a transfer fee. -/
def reallocatedMintLedger : Ledger := fun k =>
  if k = ⟨1⟩ then ⟨1, programId, .zeroed 278 []⟩ else closedMintLedger k

/-- A mint with a fee takes the place of the one without. -/
def remintCalls : List (Env × TokenInstruction × List AccountInfo) :=
  [(.plain 0, .initializeTransferFeeConfig none none 100 10, [⟨⟨1⟩, false⟩]),
   (.plain 0, .initializeMint 2 ⟨6⟩ none false, [⟨⟨1⟩, false⟩])]

def remintedMint : PodStateWithExtensions PodMint :=
  ⟨⟨some ⟨6⟩, 0, 2, true, none⟩, 278,
    [⟨.transferFeeConfig, ⟨default, default, 0, ⟨0, 10, 100⟩, ⟨0, 10, 100⟩⟩⟩]⟩

def closableAccount : PodStateWithExtensions PodAccount :=
  ⟨{ mint := ⟨1⟩, owner := ⟨7⟩, amount := 0, delegate := none, state := .initialized,
     isNative := none, delegatedAmount := 0, closeAuthority := none }, 165, []⟩

theorem foreignStep_reallocatedMint : ForeignStep closedMintLedger reallocatedMintLedger := by
  intro k
  unfold reallocatedMintLedger
  by_cases hk : k = ⟨1⟩
  · subst hk
    rw [if_pos rfl]
    exact ⟨fun howner => absurd howner (by decide), fun _ _ => ⟨by decide, 278, rfl⟩⟩
  · rw [if_neg hk]
    exact .refl k _

/-- The account of the first mint lacks the room for fees that the second one
takes. -/
theorem restrictions_stay_fails :
    Reachable .refusing (replay .refusing remintCalls reallocatedMintLedger) ∧
      ¬ AccountsMarked ⟨1⟩ (replay .refusing remintCalls reallocatedMintLedger) := by
  have hgen : Genesis blankClosableLedger := .ofList (by decide) (by decide)
  have hclosed : LedgerRun .refusing blankClosableLedger _ closedMintLedger := ledgerRun_replay _ _ _
  have hrealloc : LedgerRun .refusing closedMintLedger [.external] reallocatedMintLedger :=
    Run.single foreignStep_reallocatedMint
  refine ⟨⟨blankClosableLedger, _, hgen, (hclosed.append hrealloc).append (ledgerRun_replay _ _ _)⟩,
    fun hmarked => ?_⟩
  have hs : AccountAt (replay .refusing remintCalls reallocatedMintLedger) ⟨2⟩ closableAccount :=
    ⟨by decide, by decide⟩
  have hm : MintAt (replay .refusing remintCalls reallocatedMintLedger) ⟨1⟩ remintedMint :=
    ⟨by decide, by decide⟩
  exact absurd ((hmarked ⟨2⟩ _ _ hs rfl hm).transferFee (by decide)) (by decide)

/-- An instruction makes no account unless it initialises one. -/
theorem Call.process_noAccounts {c : Call} {l' : Ledger} {M : Pubkey}
    (hl : WellFormedLedger c.ledger) (h : c.process = .ok l')
    (hix : c.ix.isInitializeAccount = false)
    (hnone : ∀ k s, AccountAt c.ledger k s → s.base.mint ≠ M) :
    ∀ k s, AccountAt l' k s → s.base.mint ≠ M := by
  intro k s' hs'
  rcases Call.process_account_origin hl h hs' with
    ⟨s, hs, hmint, -⟩ | ⟨len, tlv, mint, -, -, -, hnew⟩
  · rw [hmint]
    exact hnone k s hs
  · exact absurd hnew.instruction (by rw [hix]; exact Bool.false_ne_true)

/-- The mint with a fee comes before its accounts, and both withhold. -/
theorem restrictions_stay_first :
    AccountsMarked ⟨1⟩ supplyLedger ∧ supplyMint.hasExtension .transferFeeConfig ∧
      ∃ s, AccountAt supplyLedger ⟨3⟩ s ∧ s.hasExtension .transferFeeAmount := by
  have hgen := blankSupplyLedger_genesis
  obtain ⟨l₁, hl₁⟩ : ∃ l₁, execute .refusing (.plain 0)
      (.initializeTransferFeeConfig none (some ⟨9⟩) 100 5) [⟨⟨1⟩, false⟩] blankSupplyLedger = l₁ :=
    ⟨_, rfl⟩
  have hnone : ∀ k s, AccountAt l₁ k s → s.base.mint ≠ ⟨1⟩ := by
    have hok : (Call.mk .refusing (.plain 0)
        (.initializeTransferFeeConfig none (some ⟨9⟩) 100 5) [⟨⟨1⟩, false⟩]
        blankSupplyLedger).Succeeds := Call.succeeds_of_isOk (by decide +kernel)
    obtain ⟨l', hok⟩ := hok
    obtain rfl : l₁ = l' := hl₁.symm.trans (execute_of_process hok)
    exact Call.process_noAccounts hgen.wellFormed hok rfl fun k s hs =>
      hgen.unused.accounts k s hs
  have hrun : RunWhere .refusing (fun c => c.Succeeds → ∀ M, ¬ c.LeavesUnmarked M)
      blankSupplyLedger (supplyCalls.map Event.ofCall) supplyLedger := by
    have hfirst : RunWhere .refusing (fun c => c.Succeeds → ∀ M, ¬ c.LeavesUnmarked M)
        blankSupplyLedger ((supplyCalls.take 1).map Event.ofCall) l₁ := by
      refine Run.single ⟨?_, hl₁.symm⟩
      rintro - M ⟨⟨_, _, _, _, hix⟩, -⟩
      simp at hix
    have hmint : RunWhere .refusing (fun c => c.Succeeds → ∀ M, ¬ c.LeavesUnmarked M) l₁
        (((supplyCalls.drop 1).take 1).map Event.ofCall)
        (replay .refusing ((supplyCalls.drop 1).take 1) l₁) := by
      refine Run.single ⟨?_, rfl⟩
      rintro - M ⟨-, hkey, k, s, -, -, -, hs, hM, -, -⟩
      obtain rfl : (⟨1⟩ : Pubkey) = M := Option.some.inj hkey
      exact hnone k s hs hM
    have hrest : RunWhere .refusing (fun c => c.Succeeds → ∀ M, ¬ c.LeavesUnmarked M)
        (replay .refusing ((supplyCalls.drop 1).take 1) l₁)
        ((supplyCalls.drop 2).map Event.ofCall)
        (replay .refusing (supplyCalls.drop 2)
          (replay .refusing ((supplyCalls.drop 1).take 1) l₁)) := by
      refine runWhere_replay ?_ _
      rintro c hc l - M ⟨⟨_, _, _, _, hix⟩, -⟩
      simp only [supplyCalls, List.drop_succ_cons, List.drop_zero, List.mem_cons,
        List.not_mem_nil, or_false] at hc
      rcases hc with rfl | rfl | rfl | rfl <;> simp at hix
    have hall := (hfirst.append hmint).append hrest
    rw [← hl₁] at hall
    exact hall
  have hmarked := restrictions_stay hgen hrun ⟨1⟩
  have hm : MintAt supplyLedger ⟨1⟩ supplyMint := ⟨by decide +kernel, by decide +kernel⟩
  have hs : AccountAt supplyLedger ⟨3⟩ (supplyAccount ⟨8⟩ 297 3) :=
    ⟨by decide +kernel, by decide +kernel⟩
  exact ⟨hmarked, by decide, _, hs, (hmarked ⟨3⟩ _ _ hs rfl hm).transferFee (by decide)⟩

end BarkToken
