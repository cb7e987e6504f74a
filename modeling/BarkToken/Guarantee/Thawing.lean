import BarkToken.Invariant.Mints
import BarkToken.Program.Replay

/-!
# Mints whose accounts start frozen (extension/default_account_state)

`InitializeMint` and `UpdateDefaultAccountState` refuse the default state Frozen
on a mint without a freeze authority. `SetAuthority` takes the authority away
without looking at the default state.
-/

namespace BarkToken
open Fallible AccountData Transition

/-- Every mint whose accounts start frozen has someone who can thaw them. -/
def FrozenMintsThaw (l : Ledger) : Prop :=
  ∀ M m, MintAt l M m → defaultState m = some .frozen → m.base.freezeAuthority.isSome

/-- `SetAuthority` takes the freeze authority from a mint whose accounts start
frozen. -/
def Call.RevokesThawing (c : Call) (M : Pubkey) : Prop :=
  c.ix = .setAuthority .freezeAccount none ∧ c.key 0 = some M ∧
    ∃ m, MintAt c.ledger M m ∧ defaultState m = some .frozen

/-- A mint that starts accounts frozen after an instruction: the step either kept
the freeze authority or had to check it. -/
theorem freezeAuthority_isSome_of_step {c : Call} {M : Pubkey} {m m' : PodStateWithExtensions PodMint}
    (h : MintStep c M m m') (hm : MintAt c.ledger M m)
    (hthaw : defaultState m = some .frozen → m.base.freezeAuthority.isSome)
    (hkeep : ¬ c.RevokesThawing M) (hfrozen : defaultState m' = some .frozen) :
    m'.base.freezeAuthority.isSome := by
  rcases h.defaultState with hsame | hsome
  · have hold : defaultState m = some .frozen := by
      unfold defaultState at hfrozen ⊢
      rwa [← hsame]
    rcases h.freezeAuthority with heq | ⟨hix, hkey⟩
    · exact heq ▸ hthaw hold
    · by_contra hnone
      rw [Option.not_isSome_iff_eq_none.mp hnone] at hix
      exact hkeep ⟨hix, hkey, m, hm, hold⟩
  · exact hsome

theorem Call.process_frozenMintsThaw {c : Call} {l' : Ledger} (hl : WellFormedLedger c.ledger)
    (h : c.process = .ok l') (hkeep : ∀ M, ¬ c.RevokesThawing M) (hthaw : FrozenMintsThaw c.ledger) :
    FrozenMintsThaw l' := by
  intro M m' hm' hfrozen
  rcases (Call.process_recordStep hl h M).mint_origin hm'.owner hm'.data with
    ⟨m, howner, hdata, rfl | hstep⟩ | ⟨-, hnew⟩ | ⟨-, -, rfl⟩
  · exact hthaw M m' ⟨howner, hdata⟩ hfrozen
  · have hm : MintAt c.ledger M m := ⟨howner, hdata⟩
    exact freezeAuthority_isSome_of_step hstep hm (hthaw M m hm) (hkeep M) hfrozen
  · exact hnew.frozen hfrozen
  · simp [defaultState] at hfrozen

theorem ForeignStep.frozenMintsThaw {l l' : Ledger} (h : ForeignStep l l')
    (hthaw : FrozenMintsThaw l) : FrozenMintsThaw l' := by
  intro M m hm
  by_cases howner : (l M).owner = programId
  · exact hthaw M m ⟨howner, ((h M).keeps howner).2.1.symm.trans hm.data⟩
  · obtain ⟨-, len, hzero⟩ := (h M).creates howner hm.owner
    exact absurd (hzero.symm.trans hm.data) (by simp)

/-- Default-frozen mints can always thaw, as long as no `SetAuthority` takes the
freeze authority from one of them. -/
theorem frozenMints_thaw {x : Externals} {l₀ l : Ledger} {events : List Event} (hgen : Genesis l₀)
    (hrun : RunWhere x (fun c => c.Succeeds → ∀ M, ¬ c.RevokesThawing M) l₀ events l) :
    FrozenMintsThaw l := by
  refine (RunWhere.invariant (fun l => WellFormedLedger l ∧ FrozenMintsThaw l)
    (fun c l' _ hP hinv hok => ?_) (fun l l' hinv hf => ?_) hrun ⟨hgen.wellFormed, ?_⟩).2
  · exact ⟨Call.process_wellFormed hinv.1 hok,
      Call.process_frozenMintsThaw hinv.1 hok (hP ⟨l', hok⟩) hinv.2⟩
  · exact ⟨hf.wellFormed hinv.1, hf.frozenMintsThaw hinv.2⟩
  · intro M m hm
    obtain ⟨len, hzero⟩ := hgen.zeroed M hm.owner
    exact absurd (hzero.symm.trans hm.data) (by simp)

/-! ### A mint that can never thaw -/

/-- Room for a mint with a default account state. -/
def blankMintLedger : Ledger := .ofList [(⟨1⟩, ⟨1, programId, .zeroed 171 []⟩)]

/-- A mint whose accounts start frozen, with a freeze authority. -/
def frozenMintCalls : List (Env × TokenInstruction × List AccountInfo) :=
  [(.plain 0, .initializeDefaultAccountState .frozen, [⟨⟨1⟩, false⟩]),
   (.plain 0, .initializeMint 2 ⟨5⟩ (some ⟨6⟩) false, [⟨⟨1⟩, false⟩])]

/-- The freeze authority then gives itself up. -/
def thawlessCalls : List (Env × TokenInstruction × List AccountInfo) :=
  frozenMintCalls ++ [(.plain 0, .setAuthority .freezeAccount none, [⟨⟨1⟩, false⟩, ⟨⟨6⟩, true⟩])]

theorem blankMintLedger_genesis : Genesis blankMintLedger := .ofList (by decide) (by decide)

/-- Four instructions of the listed kinds leave a mint that freezes every new
account for good. -/
theorem frozenMints_thaw_fails : Reachable .refusing (replay .refusing thawlessCalls blankMintLedger) ∧
    ¬ FrozenMintsThaw (replay .refusing thawlessCalls blankMintLedger) := by
  refine ⟨blankMintLedger_genesis.reachable_replay thawlessCalls, fun hthaw => ?_⟩
  have hm : MintAt (replay .refusing thawlessCalls blankMintLedger) ⟨1⟩
      ⟨⟨some ⟨5⟩, 0, 2, true, none⟩, 171, [⟨.defaultAccountState, ⟨.frozen⟩⟩]⟩ :=
    ⟨by decide, by decide⟩
  exact absurd (hthaw ⟨1⟩ _ hm rfl) (by decide)

/-- Up to the last instruction there is someone to thaw. -/
theorem frozenMints_thaw_before :
    FrozenMintsThaw (replay .refusing frozenMintCalls blankMintLedger) := by
  have hrun : RunWhere .refusing (fun c => c.Succeeds → ∀ M, ¬ c.RevokesThawing M) blankMintLedger
      (frozenMintCalls.map Event.ofCall) (replay .refusing frozenMintCalls blankMintLedger) :=
    Run.cons ⟨fun _ _ hrevoke => (nomatch hrevoke.1), rfl⟩
      (Run.cons ⟨fun _ _ hrevoke => (nomatch hrevoke.1), rfl⟩ (Run.nil _))
  exact frozenMints_thaw blankMintLedger_genesis hrun

end BarkToken
