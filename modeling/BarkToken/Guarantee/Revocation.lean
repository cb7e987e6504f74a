import BarkToken.Invariant.Mints
import BarkToken.Program.Replay

/-!
# Authorities of a mint (processor.rs:709-905, extension processors)

Whoever holds an authority has to approve of every change to it, so one that no
one holds stays that way. Without a mint authority nothing more is issued.
-/

namespace BarkToken
open Fallible AccountData Transition

variable {c : Call} {M : Pubkey} {m m' : PodStateWithExtensions PodMint}

theorem AuthorityStep.eq_none {holder : Option Pubkey} (h : AuthorityStep c none holder) :
    holder = none := by
  rcases h with rfl | ⟨key, hkey, -⟩
  · rfl
  · simp at hkey

/-- An authority that no one holds is not handed out. -/
theorem MintStep.holder_none (h : MintStep c M m m') {a : MintAuthority}
    (ha : a.holder m = some none) : a.holder m' = some none := by
  obtain ⟨holder, ha', hstep⟩ := h.authorities a none ha
  rw [ha', hstep.eq_none]

theorem MintStep.mintAuthority_none (h : MintStep c M m m') (hnone : m.base.mintAuthority = none) :
    m'.base.mintAuthority = none :=
  Option.some.inj (h.holder_none (a := .mintTokens) (congrArg some hnone))

theorem MintStep.supply_le (h : MintStep c M m m') (hnone : m.base.mintAuthority = none) :
    m'.base.supply ≤ m.base.supply := by
  rcases h.issue with hle | ⟨key, hkey, -⟩
  · exact hle
  · simp [hnone] at hkey

/-- What has been given up on a mint: some authorities, and with the one to mint
any supply beyond the present one. -/
structure GivenUp (m₀ m : PodStateWithExtensions PodMint) : Prop where
  authorities : ∀ a : MintAuthority, a.holder m₀ = some none → a.holder m = some none
  supply : m₀.base.mintAuthority = none →
    m.base.mintAuthority = none ∧ m.base.supply ≤ m₀.base.supply

theorem GivenUp.step {m₀ : PodStateWithExtensions PodMint} (h : GivenUp m₀ m)
    (hstep : MintStep c M m m') : GivenUp m₀ m' where
  authorities a ha := hstep.holder_none (h.authorities a ha)
  supply hnone := by
    obtain ⟨hm, hle⟩ := h.supply hnone
    exact ⟨hstep.mintAuthority_none hm, UInt64.le_trans (hstep.supply_le hm) hle⟩

/-- Revoked authorities stay revoked. Along every run that keeps the mint, an
authority without a holder never gets one, without a mint authority the supply
does not grow, and whatever instruction comes next, it changes an authority only
with the approval of who holds it. -/
theorem revokedAuthority_stays {x : Externals} {l l' : Ledger} {events : List Event}
    (hreach : Reachable x l) (hm : MintAt l M m) (hrun : MintRun x M l events l') :
    ∃ m', MintAt l' M m' ∧
      (∀ a : MintAuthority, a.holder m = some none → a.holder m' = some none) ∧
      (m.base.mintAuthority = none → m'.base.supply ≤ m.base.supply) ∧
      ∀ (c : Call) (l'' : Ledger), c.ledger = l' → c.process = .ok l'' → ¬ c.ClosesMint M →
        ∃ m'', MintAt l'' M m'' ∧ ∀ (a : MintAuthority) (holder : Option Pubkey),
          a.holder m' = some holder → ∃ holder', a.holder m'' = some holder' ∧
            (holder' ≠ holder → ∃ key, holder = some key ∧ c.ApprovedBy key) := by
  obtain ⟨hl', m', hm', hgiven⟩ := RunWhere.mint_invariant (GivenUp m) (fun _ h => h)
    (fun _ _ _ _ h hstep => h.step hstep) hrun hreach.wellFormed hm
    ⟨fun _ ha => ha, fun hnone => ⟨hnone, UInt64.le_refl _⟩⟩
  refine ⟨m', hm', hgiven.authorities, fun hnone => (hgiven.supply hnone).2, ?_⟩
  rintro c l'' rfl hok hclose
  obtain ⟨m'', hm'', rfl | hstep⟩ := Call.process_mintAt hl' hok hm' hclose
  · exact ⟨_, hm'', fun a holder ha => ⟨holder, ha, fun hne => absurd rfl hne⟩⟩
  · refine ⟨m'', hm'', fun a holder ha => ?_⟩
    obtain ⟨holder', ha', hsame | happroved⟩ := hstep.authorities a holder ha
    · exact ⟨holder', ha', fun hne => absurd hsame hne⟩
    · exact ⟨holder', ha', fun _ => happroved⟩

/-- A mint whose authority to mint has been given up, and nothing issued. -/
def fixedSupplyMint : PodStateWithExtensions PodMint := ⟨⟨none, 0, 2, true, none⟩, mintLen, []⟩

/-- `InitializeMint`, and then its authority revokes itself. -/
def fixedSupplyCalls : List (Env × TokenInstruction × List AccountInfo) :=
  [(.plain 0, .initializeMint 2 ⟨5⟩ none false, [⟨⟨1⟩, false⟩]),
   (.plain 0, .setAuthority .mintTokens none, [⟨⟨1⟩, false⟩, ⟨⟨5⟩, true⟩])]

def fixedSupplyLedger : Ledger :=
  replay .refusing fixedSupplyCalls (.ofList [(⟨1⟩, ⟨1, programId, .zeroed mintLen []⟩)])

/-- An attempt to mint afterwards leaves the supply at nothing. -/
theorem revokedAuthority_stays_fixedSupply :
    ∃ m, MintAt (execute .refusing (.plain 0) (.mintTo 9 none)
        [⟨⟨1⟩, false⟩, ⟨⟨2⟩, false⟩, ⟨⟨5⟩, true⟩] fixedSupplyLedger) ⟨1⟩ m ∧
      m.base.mintAuthority = none ∧ m.base.supply ≤ 0 := by
  have hgen : Genesis (.ofList [(⟨1⟩, ⟨1, programId, .zeroed mintLen []⟩)]) :=
    .ofList (by decide) (by decide)
  have hm : MintAt fixedSupplyLedger ⟨1⟩ fixedSupplyMint := ⟨by decide, by decide⟩
  have hrun : MintRun .refusing ⟨1⟩ fixedSupplyLedger
      [.instruction (.plain 0) (.mintTo 9 none) [⟨⟨1⟩, false⟩, ⟨⟨2⟩, false⟩, ⟨⟨5⟩, true⟩]]
      (execute .refusing (.plain 0) (.mintTo 9 none)
        [⟨⟨1⟩, false⟩, ⟨⟨2⟩, false⟩, ⟨⟨5⟩, true⟩] fixedSupplyLedger) :=
    Run.single ⟨fun _ hclose => absurd hclose.1.1 (by simp), rfl⟩
  obtain ⟨m, hm', hauthorities, hsupply, -⟩ := revokedAuthority_stays
    (hgen.reachable_replay fixedSupplyCalls) hm hrun
  exact ⟨m, hm', Option.some.inj (hauthorities .mintTokens rfl), hsupply rfl⟩

end BarkToken
