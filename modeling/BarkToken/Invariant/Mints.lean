import BarkToken.Invariant.Accounts

/-!
# Mints and the accounts made for them

A mint lasts until it is closed, and no one can close the native mint. As long as
a mint has not been closed, it is there for all the accounts that name it.
-/

namespace BarkToken
open Fallible AccountData

/-- Every account that names the mint `M` finds it initialised. -/
def MintPresent (M : Pubkey) (l : Ledger) : Prop :=
  ∀ k s, AccountAt l k s → s.base.mint = M → ∃ m, MintAt l M m

variable {M : Pubkey} {l l' : Ledger}

/-- Other programs leave a mint as it is. -/
theorem ForeignStep.mintAt {m : PodStateWithExtensions PodMint} (h : ForeignStep l l')
    (hm : MintAt l M m) : MintAt l' M m :=
  have hkeeps := (h M).keeps hm.owner
  ⟨hkeeps.1, hkeeps.2.1.trans hm.data⟩

/-- Whatever mint another program leaves was there before. -/
theorem ForeignStep.mintAt_of {m : PodStateWithExtensions PodMint} (h : ForeignStep l l')
    (hm : MintAt l' M m) : MintAt l M m := by
  by_cases howner : (l M).owner = programId
  · exact ⟨howner, ((h M).keeps howner).2.1.symm.trans hm.data⟩
  · obtain ⟨-, len, hzero⟩ := (h M).creates howner hm.owner
    exact absurd (hzero.symm.trans hm.data) (by simp)

/-- An instruction changes each record in one of the listed ways. -/
theorem Call.process_recordStep {c : Call} (hl : WellFormedLedger c.ledger)
    (h : c.process = .ok l') (k : Pubkey) : RecordStep c k (c.ledger k) (l' k) :=
  (Outcome.of_process hl.coherent h).recordStep hl.coherent k

theorem Call.process_mintAt {c : Call} {m : PodStateWithExtensions PodMint}
    (hl : WellFormedLedger c.ledger) (h : c.process = .ok l') (hm : MintAt c.ledger M m)
    (hclose : ¬ c.ClosesMint M) : ∃ m', MintAt l' M m' ∧ (m' = m ∨ MintStep c M m m') := by
  rcases (Call.process_recordStep hl h M).of_mint hm.owner hm.data with
    ⟨m', howner, hdata, hstep⟩ | ⟨hcloses, -⟩
  · exact ⟨m', ⟨howner, hdata⟩, hstep⟩
  · exact absurd ⟨hcloses, m, hm⟩ hclose

theorem Call.process_mintPresent {c : Call} (hl : WellFormedLedger c.ledger)
    (h : c.process = .ok l') (hclose : ¬ c.ClosesMint M) (hpresent : MintPresent M c.ledger) :
    MintPresent M l' := by
  intro k s' hs' hmint
  obtain ⟨m, hm⟩ : ∃ m, MintAt c.ledger M m := by
    rcases (Call.process_recordStep hl h k).account_origin hs'.owner hs'.data with
      ⟨s, howner, hdata, hsame⟩ | ⟨len, tlv, mint, -, -, -, hnew⟩
    · exact hpresent k s ⟨howner, hdata⟩ (hsame.symm.trans hmint)
    · exact ⟨mint, hmint ▸ hnew.mintOwner, hmint ▸ (unpackMint_eq_ok.mp hnew.mintData).1⟩
  obtain ⟨m', hm', -⟩ := Call.process_mintAt hl h hm hclose
  exact ⟨m', hm'⟩

theorem ForeignStep.mintPresent (h : ForeignStep l l') (hpresent : MintPresent M l) :
    MintPresent M l' := by
  intro k s hs hmint
  obtain ⟨m, hm⟩ := hpresent k s (h.accountAt hs) hmint
  exact ⟨m, h.mintAt hm⟩

theorem Genesis.mintPresent (h : Genesis l) : MintPresent M l := by
  intro k s hs
  obtain ⟨len, hzero⟩ := h.zeroed k hs.owner
  exact absurd (hzero.symm.trans hs.data) (by simp)

/-- `M` is not a mint yet, and no account names it. -/
structure Unused (M : Pubkey) (l : Ledger) : Prop where
  mint : ∀ m, ¬ MintAt l M m
  accounts : ∀ k s, AccountAt l k s → s.base.mint ≠ M

theorem Genesis.unused (h : Genesis l) : Unused M l where
  mint m hm := by
    obtain ⟨len, hzero⟩ := h.zeroed M hm.owner
    exact absurd (hzero.symm.trans hm.data) (by simp)
  accounts k s hs := by
    obtain ⟨len, hzero⟩ := h.zeroed k hs.owner
    exact absurd (hzero.symm.trans hs.data) (by simp)

/-- While no instruction closes `M`, its accounts find it. -/
theorem RunWhere.mintPresent {x : Externals} {P : Call → Prop} {l₀ : Ledger} {events : List Event}
    (hgen : Genesis l₀) (hP : ∀ c, P c → c.Succeeds → ¬ c.ClosesMint M)
    (hrun : RunWhere x P l₀ events l) : WellFormedLedger l ∧ MintPresent M l :=
  RunWhere.invariant (fun l => WellFormedLedger l ∧ MintPresent M l)
    (fun c l' _ hPc hinv hok => ⟨Call.process_wellFormed hinv.1 hok,
      Call.process_mintPresent hinv.1 hok (hP c hPc ⟨l', hok⟩) hinv.2⟩)
    (fun _ _ hinv hf => ⟨hf.wellFormed hinv.1, hf.mintPresent hinv.2⟩) hrun
    ⟨hgen.wellFormed, hgen.mintPresent⟩

/-- What new mints have, and every change of a mint preserves, holds of every mint
in every reachable state. -/
theorem Reachable.every_mint {x : Externals} (Inv : PodStateWithExtensions PodMint → Prop)
    (hnew : ∀ (c : Call) k r m, FreshData m.tlv → NewMint c k r m → Inv m)
    (hnative : Inv ⟨⟨none, 0, 9, true, none⟩, mintLen, []⟩)
    (hstep : ∀ (c : Call) k m m', MintStep c k m m' → Inv m → Inv m') (h : Reachable x l) :
    ∀ k m, MintAt l k m → Inv m := by
  refine (Reachable.invariant (fun l => WellFormedLedger l ∧ ∀ k m, MintAt l k m → Inv m)
    (fun l hgen => ⟨hgen.wellFormed, fun k m hm => ?_⟩)
    (fun c l' _ hinv hok => ⟨Call.process_wellFormed hinv.1 hok, fun k m' hm' => ?_⟩)
    (fun l l' hinv hf => ⟨hf.wellFormed hinv.1, fun k m hm => hinv.2 k m (hf.mintAt_of hm)⟩) h).2
  · obtain ⟨len, hzero⟩ := hgen.zeroed k hm.owner
    exact absurd (hzero.symm.trans hm.data) (by simp)
  · rcases (Call.process_recordStep hinv.1 hok k).mint_origin hm'.owner hm'.data with
      ⟨m, howner, hdata, rfl | hchange⟩ | ⟨howner, hfresh⟩ | ⟨-, -, rfl⟩
    · exact hinv.2 k m' ⟨howner, hdata⟩
    · exact hstep c k m m' hchange (hinv.2 k m ⟨howner, hdata⟩)
    · exact hnew c k _ m' ((hinv.1 k).of_zeroed howner hfresh.data).2 hfresh
    · exact hnative

/-! ### Runs that keep a mint -/

/-- Runs in which no instruction closes `M`. -/
abbrev MintRun (x : Externals) (M : Pubkey) : Ledger → List Event → Ledger → Prop :=
  RunWhere x fun c => c.Succeeds → ¬ c.ClosesMint M

/-- What every step of a mint preserves holds of it as long as it is not closed. -/
theorem RunWhere.mint_invariant {x : Externals} {P : Call → Prop} {events : List Event}
    {m : PodStateWithExtensions PodMint} (Inv : PodStateWithExtensions PodMint → Prop)
    (hP : ∀ c, P c → c.Succeeds → ¬ c.ClosesMint M)
    (hstep : ∀ c m m', P c → Inv m → MintStep c M m m' → Inv m')
    (hrun : RunWhere x P l events l') (hl : WellFormedLedger l) (hm : MintAt l M m) (h : Inv m) :
    WellFormedLedger l' ∧ ∃ m', MintAt l' M m' ∧ Inv m' := by
  refine RunWhere.invariant (fun l => WellFormedLedger l ∧ ∃ m, MintAt l M m ∧ Inv m)
    (fun c l' _ hPc hinv hok => ?_) (fun l l' hinv hf => ?_) hrun ⟨hl, m, hm, h⟩
  · obtain ⟨hl, m, hm, h⟩ := hinv
    refine ⟨Call.process_wellFormed hl hok, ?_⟩
    obtain ⟨m', hm', rfl | hmint⟩ := Call.process_mintAt hl hok hm (hP c hPc ⟨l', hok⟩)
    · exact ⟨_, hm', h⟩
    · exact ⟨m', hm', hstep c m m' hPc h hmint⟩
  · obtain ⟨hl, m, hm, h⟩ := hinv
    exact ⟨hf.wellFormed hl, m, hf.mintAt hm, h⟩

/-! ### Closing -/

/-- Only an account or a mint can be closed. -/
theorem Call.process_closes {c : Call} {k : Pubkey} (h : c.process = .ok l') (hcloses : c.Closes k) :
    (∃ s, AccountAt c.ledger k s ∧ (AccountData.account s).unpackAccount = .ok s) ∨
      ∃ m, MintAt c.ledger k m := by
  obtain ⟨x, env, ix, accounts, l⟩ := c
  obtain ⟨rfl, hkey⟩ := hcloses
  obtain ⟨source, destination, authorityInfo, signers, rfl, hclosed⟩ := processCloseAccount_eq_ok h
  obtain rfl : source.key = k := Option.some.inj hkey
  have hcheck := hclosed.check
  unfold checkClose at hcheck
  split at hcheck
  case h_1 s hs =>
    have hdata := (unpackAccount_eq_ok.mp hs).1
    exact Or.inl ⟨s, ⟨hclosed.owner, hdata⟩, hdata ▸ hs⟩
  case h_2 =>
    split at hcheck
    case h_1 m hm => exact Or.inr ⟨m, hclosed.owner, (unpackMint_eq_ok.mp hm).1⟩
    case h_2 => simp at hcheck

/-- Without a close authority, the native mint stays. -/
theorem Call.process_keeps_nativeMint {c : Call} (hl : WellFormedLedger c.ledger)
    (h : c.process = .ok l') : ¬ c.ClosesMint nativeMint := by
  obtain ⟨x, env, ix, accounts, l⟩ := c
  rintro ⟨⟨rfl, hkey⟩, m, howner, hdata⟩
  obtain ⟨source, destination, authorityInfo, signers, rfl, hclosed⟩ := processCloseAccount_eq_ok h
  have hsource : source.key = nativeMint := Option.some.inj hkey
  rw [hsource] at hclosed
  obtain ⟨v, -, hv, -⟩ := hclosed.of_mint hdata
  have htlv := (((hl nativeMint).of_mint howner hdata).native rfl).2.2
  rw [htlv] at hv
  simp at hv

/-- Wherever a native account is, the native mint is. -/
theorem Reachable.nativeMintPresent {x : Externals} (h : Reachable x l) :
    MintPresent nativeMint l := by
  refine (Reachable.invariant (fun l => WellFormedLedger l ∧ MintPresent nativeMint l)
    (fun l hgen => ⟨hgen.wellFormed, hgen.mintPresent⟩) (fun c l' _ hinv hok => ?_)
    (fun _ _ hinv hf => ⟨hf.wellFormed hinv.1, hf.mintPresent hinv.2⟩) h).2
  exact ⟨Call.process_wellFormed hinv.1 hok, Call.process_mintPresent hinv.1 hok
    (Call.process_keeps_nativeMint hinv.1 hok) hinv.2⟩

end BarkToken
