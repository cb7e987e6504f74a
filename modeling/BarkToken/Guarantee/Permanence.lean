import BarkToken.Invariant.Markers
import BarkToken.Program.Replay
import BarkToken.Step.ConfidentialChecks

/-!
# What never goes away

Extensions, immutable ownership, and the mark of an account that cannot be
transferred out of. Of the last, the rest follows only from what its mint has
never held: an account that transfers can leave, and withheld fees.
-/

namespace BarkToken
open Fallible AccountData Transition

/-! ### Owners and markers -/

section Step

variable {c : Call} {k M : Pubkey} {lamports lamports' : UInt64} {l l' : Ledger}
  {s s' : PodStateWithExtensions PodAccount} {m : PodStateWithExtensions PodMint}

/-- Nothing changes the owner of an account with immutable ownership. -/
theorem AccountChange.owner_eq (h : AccountChange c k lamports lamports' s s')
    (himmutable : s.hasExtension .immutableOwner) : s'.base.owner = s.base.owner := by
  cases h with
  | kept => rfl
  | withdrawExcess => rfl
  | update _ h =>
    cases h with
    | setOwner _ _ hnot => exact absurd himmutable hnot
    | _ => rfl
  | sync => rfl
  | confidential _ h =>
    cases h with
    | configure _ _ hbase => rw [hbase]
    | update _ _ hs => rw [hs]
  | moved h =>
    cases h with
    | debit _ hauth _ _ _ hbase =>
      rw [hbase]
      exact hauth.base_eq.2.1
    | credit _ _ _ _ hbase => rw [hbase]
    | move _ _ _ _ hbase => rw [hbase]
    | harvested _ hbase => rw [hbase]

/-- An account only withholds more when tokens move between accounts of its mint. -/
theorem AccountChange.withheld_le (h : AccountChange c k lamports lamports' s s') :
    withheldAmount s' ≤ withheldAmount s ∨ c.FindsTransferable s.base.mint := by
  have of_get (hget : s'.tlv.get .transferFeeAmount = s.tlv.get .transferFeeAmount) :
      withheldAmount s' ≤ withheldAmount s := by
    rw [withheldAmount, hget]
    exact UInt64.le_refl _
  cases h with
  | kept => exact Or.inl (UInt64.le_refl _)
  | withdrawExcess => exact Or.inl (UInt64.le_refl _)
  | update _ h =>
    refine Or.inl (of_get ?_)
    cases h with
    | memo => exact TypedStore.get_put_of_ne _ _ (by decide)
    | guard => exact TypedStore.get_put_of_ne _ _ (by decide)
    | _ => rfl
  | sync => exact Or.inl (of_get rfl)
  | confidential _ h =>
    refine Or.inl (of_get ?_)
    cases h with
    | configure _ _ _ _ _ _ _ _ _ htlv => exact htlv.get _ (by simp)
    | update _ _ hs =>
      rw [hs]
      exact TypedStore.get_put_of_ne _ _ (by decide)
  | moved h =>
    cases h with
    | debit _ _ _ _ _ _ _ htlv => exact Or.inl (of_get (htlv.get _ (by simp)))
    | credit _ _ _ hwithheld => exact hwithheld
    | move _ _ _ _ _ _ htlv => exact Or.inl (of_get (htlv.get _ (by simp)))
    | harvested _ _ _ htlv => exact Or.inl (of_get (htlv.get _ (by simp)))

/-- What changes the amount of an account that is not native and that transfers
cannot leave. -/
theorem AccountChange.amount_eq (h : AccountChange c k lamports lamports' s s')
    (hmarker : s.hasExtension .nonTransferableAccount) (hnative : s.base.isNative = none)
    (hsource : ¬ c.FindsTransferable s.base.mint) (hfees : ¬ c.FindsFees s.base.mint)
    (hmint : ¬ c.TransferableMint s.base.mint) :
    s'.base.amount = s.base.amount ∨ c.ix.isMintTo = true ∨ c.ix.isBurn = true := by
  cases h with
  | kept => exact Or.inl rfl
  | withdrawExcess => exact Or.inl rfl
  | update _ h => cases h <;> exact Or.inl rfl
  | sync _ hsome => exact absurd (hsome.symm.trans hnative) (by simp)
  | confidential _ h =>
    cases h with
    | configure _ _ hbase => exact Or.inl (by rw [hbase])
    | update _ h hs =>
      rw [hs]
      cases h with
      | deposited _ _ _ _ htransferable => exact absurd htransferable hmint
      | withdrawn _ _ _ _ htransferable => exact absurd htransferable hmint
      | _ => exact Or.inl rfl
  | moved h =>
    cases h with
    | debit _ _ _ hburn => exact Or.inr (Or.inr (hburn hmarker))
    | credit _ _ hcredit _ hbase =>
      rw [hbase]
      rcases hcredit with hsame | hissue | htransferable | hwithheld
      · exact Or.inl hsame
      · exact Or.inr (Or.inl hissue)
      · exact absurd htransferable hsource
      · exact absurd hwithheld hfees
    | move _ _ _ _ hbase => exact Or.inl (by rw [hbase])
    | harvested _ hbase => exact Or.inl (by rw [hbase])

end Step

/-! ### Mints without transfers -/

/-- The accounts of `M` are marked exactly if it is a mint without transfers, and
then neither they nor the mint withhold fees. -/
structure TransfersExcluded (M : Pubkey) (l : Ledger) : Prop where
  present : MintPresent M l
  marked : AccountsMarked M l
  marker : ∀ k s m, AccountAt l k s → s.base.mint = M → MintAt l M m →
    s.hasExtension .nonTransferableAccount → m.hasExtension .nonTransferable
  withheld : ∀ k s m, AccountAt l k s → s.base.mint = M → MintAt l M m →
    m.hasExtension .nonTransferable → withheldAmount s = 0
  mintWithheld : ∀ m, MintAt l M m → m.hasExtension .nonTransferable → mintWithheldAmount m = 0

section Run

variable {c : Call} {k M : Pubkey} {l l' : Ledger} {s : PodStateWithExtensions PodAccount}
  {m : PodStateWithExtensions PodMint}

theorem TransfersExcluded.not_findsTransferable (h : TransfersExcluded M c.ledger)
    (hm : MintAt c.ledger M m) (hmarker : m.hasExtension .nonTransferable) :
    ¬ c.FindsTransferable M := by
  rintro ⟨k, s, howner, hdata, hmint, hnot⟩
  exact hnot ((h.marked k s m ⟨howner, hdata⟩ hmint hm).nonTransferable hmarker).1

theorem TransfersExcluded.not_findsFees (h : TransfersExcluded M c.ledger)
    (hm : MintAt c.ledger M m) (hmarker : m.hasExtension .nonTransferable) : ¬ c.FindsFees M := by
  rintro (⟨k, s, howner, hdata, hmint, hne⟩ | ⟨m', howner, hdata, hne⟩)
  · exact hne (h.withheld k s m ⟨howner, hdata⟩ hmint hm hmarker)
  · obtain rfl := hm.unique ⟨howner, hdata⟩
    exact hne (h.mintWithheld m hm hmarker)

/-- The extensions of a new account, none of which its data had before, are those
that its mint asks for. -/
theorem NewAccount.marker {lamports : UInt64} {tlv : Tlv} (h : NewAccount c k lamports tlv s m)
    (hfresh : FreshData tlv) (hmarker : s.hasExtension .nonTransferableAccount) :
    m.hasExtension .nonTransferable := by
  rcases h.changesOnly.mem_of_isSome hmarker with hold | hrequired
  · rcases hfresh.kinds with hmint | himmutable
    · exact absurd (hmint _ hold) (by decide)
    · exact absurd (himmutable _ hold) (by decide)
  · obtain ⟨t, ht, hmem⟩ := List.mem_flatMap.mp hrequired
    have : t = .nonTransferable := by
      revert hmem
      cases t <;> simp
    exact TypedStore.mem_tags_iff.mp (this ▸ ht)

theorem NewAccount.withheldAmount_eq {lamports : UInt64} {tlv : Tlv}
    (h : NewAccount c k lamports tlv s m) (hfresh : FreshData tlv) : withheldAmount s = 0 := by
  unfold withheldAmount
  cases hv : s.tlv.get .transferFeeAmount with
  | none => rfl
  | some v =>
    rcases h.withheld v hv with hzero | hold
    · exact hzero
    · have hsome := Option.isSome_of_eq_some hold
      rcases hfresh.kinds with hmint | himmutable
      · exact absurd (hmint _ hsome) (by decide)
      · exact absurd (himmutable _ hsome) (by decide)

theorem mintWithheldAmount_of_fresh (hfresh : m.tlv.Fresh) : mintWithheldAmount m = 0 := by
  unfold mintWithheldAmount
  cases hv : m.tlv.get .transferFeeConfig with
  | none => rfl
  | some v => exact hfresh.withheld v hv

/-- What one account of the mint looks like after an instruction, given the mint
before it. -/
theorem TransfersExcluded.account_step (h : TransfersExcluded M c.ledger)
    (hl : WellFormedLedger c.ledger) (hok : c.process = .ok l') (hm : MintAt c.ledger M m)
    (hs : AccountAt l' k s) (hmint : s.base.mint = M) :
    (s.hasExtension .nonTransferableAccount → m.hasExtension .nonTransferable) ∧
      (m.hasExtension .nonTransferable → withheldAmount s = 0) := by
  rcases Call.process_account_origin hl hok hs with
    ⟨s₀, hs₀, hsame, hchange⟩ | ⟨len, tlv, mint, howner, hdata, -, hnew⟩
  · have hmint₀ : s₀.base.mint = M := hsame.symm.trans hmint
    refine ⟨fun hmarker => h.marker k s₀ m hs₀ hmint₀ hm (hchange.marker_iff.mp hmarker),
      fun hmarker => ?_⟩
    rcases hchange.withheld_le with hle | hfinds
    · rw [h.withheld k s₀ m hs₀ hmint₀ hm hmarker] at hle
      exact UInt64.le_antisymm hle UInt64.zero_le
    · exact absurd (hmint₀ ▸ hfinds) (h.not_findsTransferable hm hmarker)
  · obtain rfl := (hmint ▸ hnew.mintAt).unique hm
    have hfresh := ((hl k).of_zeroed howner hdata).2
    exact ⟨hnew.marker hfresh, fun _ => hnew.withheldAmount_eq hfresh⟩

theorem Call.process_transfersExcluded (hl : WellFormedLedger c.ledger) (hok : c.process = .ok l')
    (hclose : ¬ c.ClosesMint M) (h : TransfersExcluded M c.ledger) : TransfersExcluded M l' := by
  have hunmarked : ¬ c.LeavesUnmarked M := by
    rintro ⟨-, -, k, s, base, len, tlv, hs, hmint, hdata, -⟩
    obtain ⟨m, hm⟩ := h.present k s hs hmint
    exact absurd (hdata.symm.trans hm.data) (by simp)
  have hpresent := Call.process_mintPresent hl hok hclose h.present
  have hmarked := Call.process_accountsMarked hl hok hunmarked h.marked
  -- The mint that an account of `M` names was there before the instruction.
  have hold {k s m'} (hs : AccountAt l' k s) (hmint : s.base.mint = M) (hm' : MintAt l' M m') :
      ∃ m, MintAt c.ledger M m ∧ (m' = m ∨ MintStep c M m m') := by
    have hm : ∃ m, MintAt c.ledger M m := by
      rcases Call.process_account_origin hl hok hs with
        ⟨s₀, hs₀, hsame, -⟩ | ⟨_, _, mint, -, -, -, hnew⟩
      · exact h.present k s₀ hs₀ (hsame.symm.trans hmint)
      · exact ⟨mint, hmint ▸ hnew.mintAt⟩
    obtain ⟨m, hm⟩ := hm
    obtain ⟨m'', hm'', hstep⟩ := Call.process_mintAt hl hok hm hclose
    exact ⟨m, hm, hm''.unique hm' ▸ hstep⟩
  have hback {m m' : PodStateWithExtensions PodMint} (hstep : m' = m ∨ MintStep c M m m')
      (hmarker : m'.hasExtension .nonTransferable) : m.hasExtension .nonTransferable := by
    rcases hstep with rfl | hstep
    · exact hmarker
    · exact hstep.restricts _ (by simp) hmarker
  refine ⟨hpresent, hmarked, fun k s m' hs hmint hm' hmarker => ?_,
    fun k s m' hs hmint hm' hmarker => ?_, fun m' hm' hmarker => ?_⟩
  · obtain ⟨m, hm, rfl | hstep⟩ := hold hs hmint hm'
    · exact (h.account_step hl hok hm hs hmint).1 hmarker
    · exact hstep.keeps _ ((h.account_step hl hok hm hs hmint).1 hmarker)
  · obtain ⟨m, hm, hstep⟩ := hold hs hmint hm'
    exact (h.account_step hl hok hm hs hmint).2 (hback hstep hmarker)
  · rcases (Call.process_recordStep hl hok M).mint_origin hm'.owner hm'.data with
      ⟨m, howner, hdata, hstep⟩ | ⟨howner, hnew⟩ | ⟨-, -, rfl⟩
    · have hm : MintAt c.ledger M m := ⟨howner, hdata⟩
      have hzero := h.mintWithheld m hm (hback hstep hmarker)
      rcases hstep with rfl | hstep
      · exact hzero
      · rcases hstep.collected with hle | hfinds
        · rw [hzero] at hle
          exact UInt64.le_antisymm hle UInt64.zero_le
        · exact absurd hfinds (h.not_findsFees hm (hstep.restricts _ (by simp) hmarker))
    · exact mintWithheldAmount_of_fresh ((hl M).of_zeroed howner hnew.data).2.toFresh
    · simp [PodStateWithExtensions.hasExtension] at hmarker

theorem ForeignStep.transfersExcluded (hf : ForeignStep l l') (h : TransfersExcluded M l) :
    TransfersExcluded M l' where
  present := hf.mintPresent h.present
  marked := hf.accountsMarked h.marked
  marker k s m hs hmint hm := h.marker k s m (hf.accountAt hs) hmint (hf.mintAt_of hm)
  withheld k s m hs hmint hm := h.withheld k s m (hf.accountAt hs) hmint (hf.mintAt_of hm)
  mintWithheld m hm := h.mintWithheld m (hf.mintAt_of hm)

theorem Unused.transfersExcluded (h : Unused M l) : TransfersExcluded M l where
  present k s hs hmint := absurd hmint (h.accounts k s hs)
  marked k s _ hs hmint := absurd hmint (h.accounts k s hs)
  marker k s _ hs hmint := absurd hmint (h.accounts k s hs)
  withheld k s _ hs hmint := absurd hmint (h.accounts k s hs)
  mintWithheld m hm := absurd hm (h.mint m)

theorem MintRun.transfersExcluded {x : Externals} {events : List Event}
    (hrun : MintRun x M l events l') (hl : WellFormedLedger l) (h : TransfersExcluded M l) :
    WellFormedLedger l' ∧ TransfersExcluded M l' :=
  RunWhere.invariant (fun l => WellFormedLedger l ∧ TransfersExcluded M l)
    (fun _ l' _ hP hinv hok => ⟨Call.process_wellFormed hinv.1 hok,
      Call.process_transfersExcluded hinv.1 hok (hP ⟨l', hok⟩) hinv.2⟩)
    (fun _ _ hinv hf => ⟨hf.wellFormed hinv.1, hf.transfersExcluded hinv.2⟩) hrun ⟨hl, h⟩

end Run

/-! ### The guarantee -/

section Guarantee

variable {c : Call} {k : Pubkey} {l' : Ledger}

/-- The types that an account or a mint reports after an instruction that does not
delete it include those it reported before. -/
theorem Call.process_extensionTypes (hl : WellFormedLedger c.ledger) (h : c.process = .ok l')
    (hkeep : ¬ c.Closes k) :
    (∀ s, AccountAt c.ledger k s →
      ∃ s', AccountAt l' k s' ∧ s.extensionTypes ⊆ s'.extensionTypes) ∧
    ∀ m, MintAt c.ledger k m → ∃ m', MintAt l' k m' ∧ m.extensionTypes ⊆ m'.extensionTypes := by
  refine ⟨fun s hs => ?_, fun m hm => ?_⟩
  · rcases Call.process_accountAt hl h hs with ⟨s', hs', hchange⟩ | ⟨hcloses, -⟩
    · exact ⟨s', hs', fun t ht =>
        TypedStore.mem_tags_iff.mpr (hchange.keeps (TypedStore.mem_tags_iff.mp ht))⟩
    · exact absurd hcloses hkeep
  · obtain ⟨m', hm', rfl | hstep⟩ := Call.process_mintAt hl h hm fun hclose => hkeep hclose.1
    · exact ⟨_, hm', List.Subset.refl _⟩
    · exact ⟨m', hm', fun t ht =>
        TypedStore.mem_tags_iff.mpr (hstep.keeps t (TypedStore.mem_tags_iff.mp ht))⟩

/-- No transfer, to whomever, leaves an account marked as not transferable. -/
theorem processTransfer_marker {env : Env} {amount : UInt64} {decimals : Option UInt8}
    {fee : Option UInt64} {accounts : List AccountInfo} {l : Ledger}
    (h : processTransfer env amount decimals fee accounts l = .ok l') :
    ∃ info rest, accounts = info :: rest ∧
      ∀ s, (l info.key).data = .account s → ¬ s.hasExtension .nonTransferableAccount := by
  simp only [processTransfer, bind_eq_ok, Prod.exists, exists_unit, nextAccountInfo_eq_ok,
    ensure_eq_ok] at h
  obtain ⟨sourceInfo, rest, rfl, -, -, -, -, -, -, -, -, -, s, hs, -, -, hmarker, -⟩ := h
  refine ⟨sourceInfo, rest, rfl, fun s' hs' => ?_⟩
  obtain rfl := AccountData.account.inj (hs'.symm.trans (unpackAccount_eq_ok.mp hs).1)
  exact hmarker

theorem Call.process_transfer_marker {s : PodStateWithExtensions PodAccount}
    (h : c.process = .ok l') (hix : c.ix.isTransfer = true) (hkey : c.key 0 = some k)
    (hs : AccountAt c.ledger k s) : ¬ s.hasExtension .nonTransferableAccount := by
  obtain ⟨x, env, ix, accounts, l⟩ := c
  have hmarker : ∃ info rest, accounts = info :: rest ∧
      ∀ s, (l info.key).data = .account s → ¬ s.hasExtension .nonTransferableAccount := by
    cases ix with
    | transfer => exact processTransfer_marker h
    | transferChecked => exact processTransfer_marker h
    | transferCheckedWithFee => exact processTransfer_marker h
    | _ => simp [TokenInstruction.isTransfer] at hix
  obtain ⟨info, rest, rfl, hnot⟩ := hmarker
  obtain rfl : info.key = k := Option.some.inj hkey
  exact hnot s hs.data

/-- What may happen to a marked account in the next instruction: no transfer out
of it, nothing confidential, and its amount only changes where tokens are issued
or burnt. -/
theorem TransfersExcluded.amount_step {M : Pubkey} {s : PodStateWithExtensions PodAccount}
    (h : TransfersExcluded M c.ledger) (hl : WellFormedLedger c.ledger) (hok : c.process = .ok l')
    (hs : AccountAt c.ledger k s) (hmint : s.base.mint = M)
    (hmarker : s.hasExtension .nonTransferableAccount) :
    ¬ c.MovesConfidentially k ∧ ∀ s', AccountAt l' k s' → s'.base.amount ≠ s.base.amount →
      c.ix.isMintTo = true ∨ c.ix.isBurn = true := by
  obtain ⟨m, hm⟩ := h.present k s hs hmint
  have hrestricted := h.marker k s m hs hmint hm hmarker
  have hmint' : ∀ mint, (c.ledger s.base.mint).data.unpackMint = .ok mint →
      mint.hasExtension .nonTransferable := by
    intro mint hunpack
    obtain rfl := AccountData.mint.inj
      ((unpackMint_eq_ok.mp (hmint ▸ hunpack)).1.symm.trans hm.data)
    exact hrestricted
  refine ⟨fun hmoves => ?_, fun s' hs' hne => ?_⟩
  · obtain ⟨mint, hunpack, hnot⟩ := (Call.process_confidentiallyOpen hok hmoves hs).transferable
    exact hnot (hmint' mint hunpack)
  · have hnative : s.base.isNative = none := by
      -- The native mint has no extensions.
      by_contra hsome
      have hkey := ((hs.wellFormed hl).native.mp (Option.isSome_iff_ne_none.mpr hsome))
      have hempty := (((hl M).of_mint hm.owner hm.data).native (hmint.symm.trans hkey)).2.2
      simp [PodStateWithExtensions.hasExtension, hempty] at hrestricted
    refine ((Call.process_accountChange hl hok hs hs').amount_eq hmarker hnative ?_ ?_ ?_).resolve_left
      hne
    · exact hmint ▸ h.not_findsTransferable hm hrestricted
    · exact hmint ▸ h.not_findsFees hm hrestricted
    · rintro ⟨mint, hunpack, hnot⟩
      exact hnot (hmint' mint hunpack)

end Guarantee

/-- Extensions and immutable ownership are permanent: no instruction takes a type
away from an account or a mint it does not delete, the owner of an account with
immutable ownership stays until it is closed, and as long as a mint made at an
unused address is not closed, an account of it marked as not transferable changes
its amount only where tokens are issued or burnt. -/
theorem extensions_permanent {x : Externals} {l : Ledger} (hreach : Reachable x l) :
    (∀ (c : Call) (l' : Ledger) (k : Pubkey), c.ledger = l → c.process = .ok l' → ¬ c.Closes k →
      (∀ s, AccountAt l k s → ∃ s', AccountAt l' k s' ∧ s.extensionTypes ⊆ s'.extensionTypes) ∧
      ∀ m, MintAt l k m → ∃ m', MintAt l' k m' ∧ m.extensionTypes ⊆ m'.extensionTypes) ∧
    (∀ (A : Pubkey) (s : PodStateWithExtensions PodAccount) (events : List Event) (l' : Ledger),
      AccountAt l A s → s.hasExtension .immutableOwner →
      RunWhere x (fun c => c.Succeeds → ¬ c.Closes A) l events l' →
      ∃ s', AccountAt l' A s' ∧ s'.base.owner = s.base.owner) ∧
    ∀ (M : Pubkey) (events : List Event) (l' : Ledger),
      Unused M l → MintRun x M l events l' →
      ∀ (A : Pubkey) (s : PodStateWithExtensions PodAccount), AccountAt l' A s → s.base.mint = M →
        s.hasExtension .nonTransferableAccount →
        ∀ (c : Call) (l'' : Ledger), c.ledger = l' → c.process = .ok l'' →
          ¬ (c.ix.isTransfer = true ∧ c.key 0 = some A) ∧ ¬ c.MovesConfidentially A ∧
          ∀ s', AccountAt l'' A s' → s'.base.amount ≠ s.base.amount →
            c.ix.isMintTo = true ∨ c.ix.isBurn = true := by
  have hl := hreach.wellFormed
  refine ⟨?_, ?_, ?_⟩
  · rintro c l' k rfl hok hkeep
    exact Call.process_extensionTypes hl hok hkeep
  · intro A s events l' hs himmutable hrun
    obtain ⟨-, s', hs', howner, -⟩ := RunWhere.account_invariant
      (fun s' => s'.base.owner = s.base.owner ∧ s'.hasExtension .immutableOwner) (fun _ hP => hP)
      (fun _ _ t t' _ _ _ _ _ hchange hinv =>
        ⟨(hchange.owner_eq hinv.2).trans hinv.1, hchange.keeps hinv.2⟩) hrun hl hs ⟨rfl, himmutable⟩
    exact ⟨s', hs', howner⟩
  · intro M events l' hunused hrun A s hs hmint hmarker c l'' hc hok
    obtain ⟨hl', hexcluded⟩ := MintRun.transfersExcluded hrun hl hunused.transfersExcluded
    subst hc
    obtain ⟨hmoves, hamount⟩ := hexcluded.amount_step hl' hok hs hmint hmarker
    exact ⟨fun htransfer => Call.process_transfer_marker hok htransfer.1 htransfer.2 hs hmarker,
      hmoves, hamount⟩

/-! ### A mint without transfers -/

/-- Room for a mint without transfers, and for an account of it. -/
def blankSoulboundLedger : Ledger :=
  .ofList [(⟨1⟩, ⟨1, programId, .zeroed 170 []⟩), (⟨2⟩, ⟨1, programId, .zeroed 174 []⟩)]

def soulboundCalls : List (Env × TokenInstruction × List AccountInfo) :=
  [(.plain 0, .initializeNonTransferableMint, [⟨⟨1⟩, false⟩]),
   (.plain 0, .initializeMint 2 ⟨5⟩ none false, [⟨⟨1⟩, false⟩]),
   (.plain 0, .initializeAccount3 ⟨7⟩, [⟨⟨2⟩, false⟩, ⟨⟨1⟩, false⟩])]

def soulboundLedger : Ledger := replay .refusing soulboundCalls blankSoulboundLedger

def soulboundAccount : PodStateWithExtensions PodAccount :=
  ⟨{ mint := ⟨1⟩, owner := ⟨7⟩, amount := 0, delegate := none, state := .initialized,
     isNative := none, delegatedAmount := 0, closeAuthority := none }, 174,
    [⟨.nonTransferableAccount, ⟨⟩⟩, ⟨.immutableOwner, ⟨⟩⟩]⟩

/-- Three tokens are issued to it. -/
def soulboundMintTo : Call :=
  ⟨.refusing, .plain 0, .mintTo 3 none, [⟨⟨1⟩, false⟩, ⟨⟨2⟩, false⟩, ⟨⟨5⟩, true⟩], soulboundLedger⟩

set_option maxRecDepth 2000 in
/-- It keeps its extensions and its owner, and nothing confidential happened. -/
theorem extensions_permanent_mintTo :
    ∃ l' s', soulboundMintTo.process = .ok l' ∧ AccountAt l' ⟨2⟩ s' ∧
      soulboundAccount.extensionTypes ⊆ s'.extensionTypes ∧ s'.base.owner = ⟨7⟩ ∧
      ¬ soulboundMintTo.MovesConfidentially ⟨2⟩ := by
  have hgen : Genesis blankSoulboundLedger := .ofList (by decide) (by decide)
  have hs : AccountAt soulboundLedger ⟨2⟩ soulboundAccount := ⟨by decide, by decide⟩
  have hstart : Reachable .refusing blankSoulboundLedger := hgen.reachable_replay []
  have hreach : Reachable .refusing soulboundLedger := hgen.reachable_replay soulboundCalls
  have hrun : MintRun .refusing ⟨1⟩ blankSoulboundLedger (soulboundCalls.map Event.ofCall)
      soulboundLedger :=
    Run.cons ⟨fun _ hclose => (nomatch hclose.1.1), rfl⟩
      (Run.cons ⟨fun _ hclose => (nomatch hclose.1.1), rfl⟩
        (Run.cons ⟨fun _ hclose => (nomatch hclose.1.1), rfl⟩ (Run.nil _)))
  obtain ⟨l', hok⟩ : soulboundMintTo.Succeeds := Call.succeeds_of_isOk (by decide)
  obtain ⟨htypes, howner, -⟩ := extensions_permanent hreach
  obtain ⟨-, -, hamount⟩ := extensions_permanent hstart
  obtain ⟨s', hs', hsub⟩ :=
    (htypes soulboundMintTo l' ⟨2⟩ rfl hok (fun hclose => (nomatch hclose.1))).1 _ hs
  have hminted : RunWhere .refusing (fun c => c.Succeeds → ¬ c.Closes ⟨2⟩) soulboundLedger
      [.instruction soulboundMintTo.env soulboundMintTo.ix soulboundMintTo.accounts] l' :=
    Run.single ⟨fun _ hclose => (nomatch hclose.1), (execute_of_process hok).symm⟩
  obtain ⟨s'', hs'', howner⟩ := howner ⟨2⟩ soulboundAccount _ l' hs (by decide) hminted
  obtain ⟨-, hmoves, -⟩ := hamount ⟨1⟩ _ soulboundLedger hgen.unused hrun ⟨2⟩ soulboundAccount hs rfl
    (by decide) soulboundMintTo l' rfl hok
  exact ⟨l', s', hok, hs', hsub, hs''.unique hs' ▸ howner, hmoves⟩

end BarkToken
