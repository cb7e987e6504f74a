import BarkToken.Foundation.Custody
import BarkToken.Guarantee.Debits
import BarkToken.Invariant.Mints

/-!
# The token program keeps custody

Token accounts are holdings and mints are assets: every successful instruction is a step
of the abstract custodian, approved by the keys that stand behind the instruction, and
everything else that happens is none.
-/

namespace BarkToken
open Fallible AccountData Transition Custody

/-- Whose accounts anyone may burn from and close, and which ones pay out lamports. -/
def custodyTerms : Terms Pubkey where
  abandoned key := key = systemProgram ∨ key = incinerator
  cash key := key = nativeMint

/-- A token account as a holding. -/
def PodAccount.holding (a : PodAccount) : Holding Pubkey where
  asset := a.mint
  owner := a.owner
  balance := a.amount.toNat
  allowance := a.delegate.map fun d => (d, a.delegatedAmount.toNat)
  closer := a.closeAuthority
  frozen := decide (a.state = .frozen)

/-- The offices of a mint that matter to its holders. -/
def MintAuthority.ofRole : Role → MintAuthority
  | .issuer => mintTokens
  | .freezer => freezeAccount
  | .recoverer => extension .permanentDelegate
  | .closer => extension .closeMint

/-- A mint as an asset. -/
def mintAsset (m : PodStateWithExtensions PodMint) : Asset Pubkey where
  supply := m.base.supply.toNat
  holder r := ((MintAuthority.ofRole r).holder m).join

namespace AccountRecord

def holding (r : AccountRecord) : Option (Holding Pubkey) :=
  match r.data with
  | .account s => if r.owner = programId then some s.base.holding else none
  | _ => none

def asset (r : AccountRecord) : Option (Asset Pubkey) :=
  match r.data with
  | .mint m => if r.owner = programId then some (mintAsset m) else none
  | _ => none

end AccountRecord

/-- What the custodian sees of a ledger. -/
def bank (l : Ledger) : Bank Pubkey := ⟨fun k => (l k).holding, fun k => (l k).asset⟩

/-- The keys that stand behind an instruction. -/
def Call.approvers (c : Call) : Set Pubkey := {key | c.ApprovedBy key}

section View

variable {c : Call} {k : Pubkey} {l l' : Ledger} {s s' : PodStateWithExtensions PodAccount}
  {m m' : PodStateWithExtensions PodMint}

theorem AccountAt.holding (hs : AccountAt l k s) : (bank l).holding k = some s.base.holding := by
  simp only [bank, AccountRecord.holding, hs.data, hs.owner, if_true]

theorem MintAt.asset (hm : MintAt l k m) : (bank l).asset k = some (mintAsset m) := by
  simp only [bank, AccountRecord.asset, hm.data, hm.owner, if_true]

/-- What is seen as a holding is a token account. -/
theorem bank_holding_cases (l : Ledger) (k : Pubkey) :
    (∃ s, AccountAt l k s) ∨ (bank l).holding k = none ∧ ∀ s, ¬ AccountAt l k s := by
  by_cases h : ∃ s, AccountAt l k s
  · exact Or.inl h
  · refine Or.inr ⟨?_, fun s hs => h ⟨s, hs⟩⟩
    simp only [bank, AccountRecord.holding]
    split
    case h_1 s hdata => exact if_neg fun howner => h ⟨s, howner, hdata⟩
    case h_2 => rfl

theorem bank_asset_cases (l : Ledger) (k : Pubkey) :
    (∃ m, MintAt l k m) ∨ (bank l).asset k = none ∧ ∀ m, ¬ MintAt l k m := by
  by_cases h : ∃ m, MintAt l k m
  · exact Or.inl h
  · refine Or.inr ⟨?_, fun m hm => h ⟨m, hm⟩⟩
    simp only [bank, AccountRecord.asset]
    split
    case h_1 m hdata => exact if_neg fun howner => h ⟨m, howner, hdata⟩
    case h_2 => rfl

/-- Other programs do nothing that the custodian sees. -/
theorem ForeignStep.bank_eq (hf : ForeignStep l l') : bank l' = bank l := by
  have hholding (k : Pubkey) : (bank l').holding k = (bank l).holding k := by
    rcases bank_holding_cases l' k with ⟨s, hs⟩ | ⟨hnone, hnot⟩
    · rw [hs.holding, (hf.accountAt hs).holding]
    · rcases bank_holding_cases l k with ⟨s, hs⟩ | ⟨hnone', -⟩
      · exact absurd (hf.keeps_accountAt hs) (hnot s)
      · rw [hnone, hnone']
  have hasset (k : Pubkey) : (bank l').asset k = (bank l).asset k := by
    rcases bank_asset_cases l' k with ⟨m, hm⟩ | ⟨hnone, hnot⟩
    · rw [hm.asset, (hf.mintAt_of hm).asset]
    · rcases bank_asset_cases l k with ⟨m, hm⟩ | ⟨hnone', -⟩
      · exact absurd (hf.mintAt hm) (hnot m)
      · rw [hnone, hnone']
  exact congrArg₂ Bank.mk (funext hholding) (funext hasset)

end View

/-! ### One account -/

section Account

variable {c : Call} {k : Pubkey} {lamports lamports' : UInt64}
  {s s' : PodStateWithExtensions PodAccount}

/-- A change of the account's holding that the call's approvers can make. -/
abbrev Call.Changes (c : Call) (a a' : PodAccount) : Prop :=
  a.holding.Change custodyTerms ((bank c.ledger).asset a.mint) c.approvers a'.holding

/-- Who holds an office of the mint at an address has approved. -/
theorem Call.role_approves {r : Role} {mintKey key : Pubkey} {m : PodStateWithExtensions PodMint}
    (hm : (c.ledger mintKey).data.unpackMint = .ok m) (hkey : (mintAsset m).holder r = some key)
    (hauth : c.AuthorisedBy key) : r.Approves ((bank c.ledger).asset mintKey) c.approvers := by
  intro a ha
  rcases bank_asset_cases c.ledger mintKey with ⟨m', hm'⟩ | ⟨hnone, -⟩
  · obtain rfl := AccountData.mint.inj (hm'.data.symm.trans (unpackMint_eq_ok.mp hm).1)
    obtain rfl := Option.some.inj (hm'.asset.symm.trans ha)
    exact ⟨key, hkey, Or.inl hauth⟩
  · rw [hnone] at ha
    cases ha

theorem Call.changes_of_le {a : PodAccount} {newAmount : UInt64} (hle : a.amount ≤ newAmount) :
    c.Changes a { a with amount := newAmount } := by
  have hsum : a.amount.toNat + (newAmount.toNat - a.amount.toNat) = newAmount.toNat :=
    Nat.add_sub_of_le (UInt64.le_iff_toNat_le.mp hle)
  have hreceived : a.holding.Change custodyTerms ((bank c.ledger).asset a.mint) c.approvers _ :=
    .received (newAmount.toNat - a.amount.toNat)
  rw [show a.holding.balance + (newAmount.toNat - a.amount.toNat) = newAmount.toNat from hsum]
    at hreceived
  exact hreceived

theorem AccountUpdate.changes (h : AccountUpdate c k lamports' s s') :
    c.Changes s.base s'.base := by
  cases h with
  | @approve d amount hix hauth hfrozen =>
    exact .allowed d amount.toNat (Or.inl hauth) (decide_eq_false hfrozen)
  | revoke hauth hfrozen hkey =>
    refine .revoked ?_ (decide_eq_false hfrozen)
    rcases hkey with rfl | hkey
    · exact Or.inl (Or.inl hauth)
    · exact Or.inr ⟨_, s.base.delegatedAmount.toNat, by simp [PodAccount.holding, hkey], Or.inl hauth⟩
  | @setOwner owner closeAuthority hauth hfrozen _ _ hclose =>
    exact .handedOver owner (Or.inl hauth) (decide_eq_false hfrozen) hclose
  | @setCloseAuthority closeAuthority hauth hfrozen =>
    exact .closerSet closeAuthority (Or.inl hauth) (decide_eq_false hfrozen)
  | @setState freeze mint key _ _ _ hmint hfreeze hauth =>
    have htoggled : s.base.holding.Change custodyTerms ((bank c.ledger).asset s.base.mint)
        c.approvers _ := .toggled freeze (Call.role_approves (r := .freezer) hmint hfreeze hauth)
    cases freeze with
    | false => exact htoggled
    | true => exact htoggled
  | memo | guard | reallocate => exact .received 0

theorem ConfidentialStep.changes (h : ConfidentialStep c s s') : c.Changes s.base s'.base := by
  cases h with
  | configure _ _ hbase =>
    rw [hbase]
    exact .received 0
  | update _ h hs =>
    subst hs
    cases h with
    | deposited _ hauth hfrozen _ _ hamount =>
      exact .paid (Or.inl (Or.inl hauth)) (decide_eq_false hfrozen)
        hamount
    | withdrawn _ _ _ _ _ hamount =>
      refine Call.changes_of_le ?_
      rw [UInt64.le_iff_toNat_le, hamount]
      exact Nat.le_add_right _ _
    | _ => exact .received 0

theorem recoverer_eq (m : PodStateWithExtensions PodMint) :
    (mintAsset m).holder .recoverer = getPermanentDelegate m := by
  show ((m.tlv.get .permanentDelegate).map _).join = (m.tlv.get .permanentDelegate).bind _
  cases m.tlv.get .permanentDelegate with
  | none => rfl
  | some v => rfl

/-- A debit is the owner's payment, the delegate's drawing on its allowance, or a
recovery. -/
theorem DebitAuthority.changes {amount newAmount : UInt64} {base : PodAccount}
    (h : DebitAuthority c s amount base) (hfrozen : ¬ s.base.frozen)
    (hamount : newAmount.toNat + amount.toNat = s.base.amount.toNat) :
    c.Changes s.base { base with amount := newAmount } := by
  have hopen : s.base.holding.frozen = false := decide_eq_false hfrozen
  cases h with
  | permanentDelegate hd hauth =>
    obtain ⟨mint, hmint, hd⟩ := hd
    have hholder : (mintAsset mint).holder .recoverer = some _ := (recoverer_eq mint).trans hd
    exact .recovered (Call.role_approves hmint hholder hauth) hopen hamount
  | @delegate d remaining hd hauth hremaining =>
    have hallowance : s.base.holding.allowance = some (d, remaining.toNat + amount.toNat) := by
      simp only [PodAccount.holding, hd, Option.map_some, hremaining]
    have hdrawn : s.base.holding.Change custodyTerms ((bank c.ledger).asset s.base.mint)
        c.approvers _ := .drawn hallowance (Or.inl hauth) hopen hamount
    by_cases hzero : remaining = 0
    · subst hzero
      exact hdrawn
    · have hne : remaining.toNat ≠ 0 := fun h => hzero (UInt64.toNat_inj.mp h)
      rw [if_neg hne] at hdrawn
      rw [if_neg hzero, hd]
      exact hdrawn
  | owner hauth => exact .paid (Or.inl (Or.inl hauth)) hopen hamount
  | burn _ howned => exact .paid (Or.inr howned) hopen hamount

theorem AccountStep.changes (h : AccountStep c lamports lamports' s s') :
    c.Changes s.base s'.base := by
  cases h with
  | debit _ hauth hfrozen _ hamount hbase =>
    rw [hbase]
    exact hauth.changes hfrozen hamount
  | credit hle _ _ _ hbase =>
    rw [hbase]
    exact Call.changes_of_le hle
  | move _ _ _ _ hbase =>
    rw [hbase]
    exact .received 0
  | harvested _ hbase =>
    rw [hbase]
    exact .received 0

theorem AccountChange.changes (h : AccountChange c k lamports lamports' s s') :
    c.Changes s.base s'.base := by
  cases h with
  | kept => exact .received 0
  | withdrawExcess => exact .received 0
  | update _ h => exact h.changes
  | sync _ _ _ hle => exact Call.changes_of_le hle
  | confidential _ h => exact h.changes
  | moved h => exact h.changes

end Account

/-! ### One instruction -/

section Step

variable {c : Call} {k : Pubkey} {l' : Ledger} {s : PodStateWithExtensions PodAccount}
  {m m' : PodStateWithExtensions PodMint}

/-- Of the extensions of a mint, only those that its interfaces write are added. -/
theorem MintStep.get_none (h : MintStep c k m m') {t : ExtensionType} (ht : t.pointer = none)
    (hnone : m.tlv.get t = none) : m'.tlv.get t = none := by
  rw [← Option.not_isSome_iff_eq_none]
  intro hsome
  rcases h.adds t hsome with hold | ⟨p, hp, -⟩
  · rw [PodStateWithExtensions.hasExtension, hnone] at hold
    cases hold
  · rw [ht] at hp
    cases hp

theorem MintStep.holder_absent (h : MintStep c k m m') {a : ExtensionAuthority}
    (ha : a.type.pointer = none) (hnone : (MintAuthority.extension a).holder m = none) :
    (MintAuthority.extension a).holder m' = none := by
  have hget : m'.tlv.get a.type = none := h.get_none ha (Option.map_eq_none_iff.mp hnone)
  show (m'.tlv.get a.type).map _ = none
  rw [hget]
  rfl

theorem MintStep.changes (h : MintStep c k m m') :
    Asset.Change c.approvers (mintAsset m) (mintAsset m') where
  holder r := by
    show ((MintAuthority.ofRole r).holder m').join = ((MintAuthority.ofRole r).holder m).join ∨
      ∃ v, ((MintAuthority.ofRole r).holder m).join = some v ∧ v ∈ c.approvers
    cases hholder : (MintAuthority.ofRole r).holder m with
    | some holder =>
      obtain ⟨holder', hholder', hstep⟩ := h.authorities _ holder hholder
      rw [hholder']
      exact hstep
    | none =>
      left
      cases r with
      | issuer => cases hholder
      | freezer => cases hholder
      | recoverer => exact congrArg Option.join (h.holder_absent rfl hholder)
      | closer => exact congrArg Option.join (h.holder_absent rfl hholder)
  supply := by
    rcases h.issue with hle | ⟨key, hkey, hauth⟩
    · exact Or.inl (UInt64.le_iff_toNat_le.mp hle)
    · exact Or.inr ⟨key, hkey, Or.inl hauth⟩

/-- Only the close authority closes a mint, and only without a supply. -/
theorem Call.closesMint_approved (hok : c.process = .ok l') (hcloses : c.Closes k)
    (hm : MintAt c.ledger k m) :
    (∃ v, (mintAsset m).holder .closer = some v ∧ v ∈ c.approvers) ∧ (mintAsset m).supply = 0 := by
  obtain ⟨x, env, ix, accounts, l⟩ := c
  obtain ⟨rfl, hkey⟩ := hcloses
  obtain ⟨source, destination, authorityInfo, signers, rfl, hclosed⟩ := processCloseAccount_eq_ok hok
  obtain rfl : source.key = k := Option.some.inj hkey
  obtain ⟨v, key, hv, hholder, hauth, hsupply⟩ := hclosed.of_mint hm.data
  refine ⟨⟨key, ?_, Or.inl (Call.authorisedBy (i := 2) rfl rfl rfl hauth)⟩, ?_⟩
  · show ((m.tlv.get .mintCloseAuthority).map _).join = some key
    rw [hv]
    exact hholder
  · show m.base.supply.toNat = 0
    rw [hsupply]
    rfl

theorem Call.process_holdingNext (hl : WellFormedLedger c.ledger) (hok : c.process = .ok l')
    (k : Pubkey) :
    Holding.Next custodyTerms (bank c.ledger).asset c.approvers ((bank c.ledger).holding k)
      ((bank l').holding k) := by
  rcases bank_holding_cases c.ledger k with ⟨s, hs⟩ | ⟨hnone, hnot⟩
  · rw [hs.holding]
    rcases Call.process_accountAt hl hok hs with ⟨s', hs', hchange⟩ | ⟨hcloses, howner⟩
    · rw [hs'.holding]
      exact .changed hchange.changes
    · have hgone : (bank l').holding k = none := by
        rcases bank_holding_cases l' k with ⟨s', hs'⟩ | ⟨hnone, -⟩
        · exact absurd (hs'.owner.symm.trans howner) programId_ne_systemProgram
        · exact hnone
      have hdeletes := Call.process_deletes hok hcloses ((congrArg unpackAccount hs.data).trans
        (hs.wellFormed hl).unpackAccount)
      rw [hgone]
      refine .closed ?_ ?_
      · exact hdeletes.authority.imp Or.inl And.left
      · refine hdeletes.empty.imp (fun hzero => ?_) (hs.wellFormed hl).native.mp
        show s.base.amount.toNat = 0
        rw [hzero]
        rfl
  · rw [hnone]
    rcases bank_holding_cases l' k with ⟨s', hs'⟩ | ⟨hnone', -⟩
    · rw [hs'.holding]
      rcases Call.process_account_origin hl hok hs' with ⟨s, hs, -⟩ | ⟨_, _, mint, -, -, -, hnew⟩
      · exact absurd hs (hnot s)
      · refine .opened ?_ ?_ ?_
        · simp only [PodAccount.holding, hnew.delegate.1, Option.map_none]
        · exact Option.isSome_of_eq_some hnew.mintAt.asset
        · by_cases hnative : s'.base.mint = nativeMint
          · exact Or.inr hnative
          · left
            show s'.base.amount.toNat = 0
            rw [(hnew.nonNative hnative).2]
            rfl
    · rw [hnone']
      exact .absent

theorem Call.process_assetNext (hl : WellFormedLedger c.ledger) (hok : c.process = .ok l')
    (k : Pubkey) :
    Asset.Next c.approvers ((bank c.ledger).asset k) ((bank l').asset k) := by
  have hrecord := Call.process_recordStep hl hok k
  rcases bank_asset_cases c.ledger k with ⟨m, hm⟩ | ⟨hnone, hnot⟩
  · rw [hm.asset]
    rcases hrecord.of_mint hm.owner hm.data with ⟨m', howner, hdata, hstep⟩ | ⟨hcloses, howner, -⟩
    · rw [MintAt.asset ⟨howner, hdata⟩]
      rcases hstep with rfl | hstep
      · exact .changed ⟨fun _ => Or.inl rfl, Or.inl (le_refl _)⟩
      · exact .changed hstep.changes
    · have hgone : (bank l').asset k = none := by
        rcases bank_asset_cases l' k with ⟨m', hm'⟩ | ⟨hnone, -⟩
        · exact absurd (hm'.owner.symm.trans howner) programId_ne_systemProgram
        · exact hnone
      obtain ⟨⟨v, hholder, hby⟩, hsupply⟩ := Call.closesMint_approved hok hcloses hm
      rw [hgone]
      exact .closed hholder hby hsupply
  · rw [hnone]
    rcases bank_asset_cases l' k with ⟨m', hm'⟩ | ⟨hnone', -⟩
    · rw [hm'.asset]
      refine .issued ?_
      show m'.base.supply.toNat = 0
      rcases hrecord.mint_origin hm'.owner hm'.data with
        ⟨m, howner, hdata, -⟩ | ⟨-, hnew⟩ | ⟨-, -, rfl⟩
      · exact absurd ⟨howner, hdata⟩ (hnot m)
      · rw [hnew.supply]
        rfl
      · rfl
    · rw [hnone']
      exact .absent

/-- A successful instruction is a step of the custodian. -/
theorem Call.process_custody (hl : WellFormedLedger c.ledger) (hok : c.process = .ok l') :
    Custody.Step custodyTerms (bank c.ledger) c.approvers (bank l') :=
  ⟨Call.process_holdingNext hl hok, Call.process_assetNext hl hok⟩

end Step

/-! ### Whole runs -/

/-- What a run records of a successful instruction: who stands behind it. -/
def Call.approvals (c : Call) (_ : Ledger) : List (Set Pubkey) := [c.approvers]

/-- Each successful instruction of a run is one step of the custodian, and all else is
none. -/
theorem RecordedRun.custody {x : Externals} {P : Call → Prop} {l l' : Ledger} {events : List Event}
    {labels : List (Set Pubkey)} (hl : WellFormedLedger l)
    (hrun : RecordedRun x P Call.approvals (l, []) events (l', labels)) :
    Run (Custody.Step custodyTerms) (bank l) labels (bank l') ∧
      ∀ A ∈ labels, ∃ c : Call, P c ∧ c.Succeeds ∧ A = c.approvers := by
  have hinv := RecordedRun.invariant (fun l' labels => WellFormedLedger l' ∧
      Run (Custody.Step custodyTerms) (bank l) labels (bank l') ∧
      ∀ A ∈ labels, ∃ c : Call, P c ∧ c.Succeeds ∧ A = c.approvers)
    (fun c l' labels _ hP hinv hok => ?_) (fun l' l'' labels hinv hf => ?_) hrun
    ⟨hl, .nil _, fun A hA => absurd hA List.not_mem_nil⟩
  · exact hinv.2
  · obtain ⟨hl, hbank, hlabels⟩ := hinv
    refine ⟨Call.process_wellFormed hl hok, hbank.snoc (Call.process_custody hl hok), fun A hA => ?_⟩
    rcases List.mem_append.mp hA with hA | hA
    · exact hlabels A hA
    · exact ⟨c, hP, ⟨l', hok⟩, List.mem_singleton.mp hA⟩
  · obtain ⟨hl, hbank, hlabels⟩ := hinv
    refine ⟨hf.wellFormed hl, ?_, hlabels⟩
    rw [hf.bank_eq]
    exact hbank

/-- The ledger refines the custodian. Every run is a run of the custodian, in which each
successful instruction is one step, approved by the keys that stand behind it, and failed
instructions and other programs are none. -/
theorem ledger_refines_custody {x : Externals} {l l' : Ledger} {events : List Event}
    (hreach : Reachable x l) (hrun : LedgerRun x l events l') :
    ∃ labels, RecordedRun x (fun _ => True) Call.approvals (l, []) events (l', labels) ∧
      Run (Custody.Step custodyTerms) (bank l) labels (bank l') := by
  obtain ⟨labels, hrecorded⟩ := hrun.runWhere.recordedRun Call.approvals []
  exact ⟨labels, hrecorded, (RecordedRun.custody hreach.wellFormed hrecorded).1⟩

/-- The custodian issues an asset, opens a holding of it, and credits ten tokens. -/
theorem ledger_refines_custody_funded :
    ∃ labels, Run (Custody.Step custodyTerms) (bank blankLedger) labels (bank fundedLedger) := by
  obtain ⟨labels, -, hrun⟩ := ledger_refines_custody
    (blankLedger_genesis.reachable_replay []) (ledgerRun_replay .refusing fundedCalls blankLedger)
  exact ⟨labels, hrun⟩

/-! ### Accounts whose owners keep silent -/

/-- Those whose approval it takes to move, freeze or close an account of the mint,
other than its delegate. -/
def Guardians (s : PodStateWithExtensions PodAccount) (m : PodStateWithExtensions PodMint) :
    Set Pubkey :=
  {key | key = s.base.owner ∨ s.base.closeAuthority = some key ∨ m.base.freezeAuthority = some key ∨
    getPermanentDelegate m = some key ∨
    ∃ v, m.tlv.get .mintCloseAuthority = some v ∧ v.closeAuthority.toOption = some key}

/-- Runs in which no key of `S` stands behind a successful instruction. -/
abbrev SilentRun (x : Externals) (S : Set Pubkey) : Ledger → List Event → Ledger → Prop :=
  RunWhere x fun c => c.Succeeds → ∀ key ∈ S, ¬ c.ApprovedBy key

theorem guardians_subset (s : PodStateWithExtensions PodAccount) (m : PodStateWithExtensions PodMint) :
    guardians s.base.holding (mintAsset m) ⊆ Guardians s m := by
  rintro key (howner | hcloser | ⟨r, hr, hholder⟩)
  · exact Or.inl howner
  · exact Or.inr (Or.inl hcloser)
  · cases r with
    | issuer => exact absurd rfl hr
    | freezer => exact Or.inr (Or.inr (Or.inl hholder))
    | recoverer => exact Or.inr (Or.inr (Or.inr (Or.inl ((recoverer_eq m).symm.trans hholder))))
    | closer =>
      obtain ⟨v, hv, hkey⟩ := Option.map_eq_some_iff.mp (Option.join_eq_some_iff.mp hholder)
      exact Or.inr (Or.inr (Or.inr (Or.inr ⟨v, hv, hkey⟩)))

section Silence

variable {x : Externals} {k : Pubkey} {l l' : Ledger} {events : List Event}
  {s s' : PodStateWithExtensions PodAccount} {m : PodStateWithExtensions PodMint} {D S : Set Pubkey}

/-- What the custodian promises of the account, if none of its guardians approves, and
no delegate outside `D`. -/
theorem SilentRun.remains (hrun : SilentRun x S l events l') (hl : WellFormedLedger l)
    (hs : AccountAt l k s) (hm : MintAt l s.base.mint m)
    (hopen : ¬ s.base.ownedBySystemProgramOrIncinerator) (hguardians : Guardians s m ⊆ S)
    (hdelegate : ∀ d, s.base.delegate = some d → d ∈ S ∨ d ∈ D) :
    ∃ s', AccountAt l' k s' ∧ s.base.holding.Remains D s'.base.holding := by
  obtain ⟨labels, hrecorded⟩ := RunWhere.recordedRun hrun Call.approvals []
  obtain ⟨hbank, hlabels⟩ := RecordedRun.custody hl hrecorded
  have hsilent : ∀ A ∈ labels, Silent D s.base.holding (mintAsset m) A := by
    intro A hA
    obtain ⟨c, hP, hok, rfl⟩ := hlabels A hA
    refine ⟨fun v hv hguards => ?_, fun v n hallowance hv => ?_⟩
    · exact hP hok v (hguardians (guardians_subset s m hguards)) hv
    · obtain ⟨d, hd, hpair⟩ := Option.map_eq_some_iff.mp hallowance
      obtain ⟨rfl, -⟩ := Prod.mk.inj hpair
      exact (hdelegate d hd).resolve_left fun hS => hP hok d hS hv
  obtain ⟨h', hh', hremains⟩ := Custody.Step.remains_of_run hbank hsilent hs.holding hm.asset hopen
  rcases bank_holding_cases l' k with ⟨s', hs'⟩ | ⟨hnone, -⟩
  · obtain rfl := Option.some.inj (hs'.holding.symm.trans hh')
    exact ⟨s', hs', hremains⟩
  · rw [hnone] at hh'
    cases hh'

/-- The base state of an account after a run, but for an allowance that may be gone. -/
structure Undisturbed (a a' : PodAccount) : Prop where
  mint : a'.mint = a.mint
  owner : a'.owner = a.owner
  closeAuthority : a'.closeAuthority = a.closeAuthority
  state : a'.state = a.state
  delegate : a'.delegate = none ∨ a'.delegate = a.delegate

theorem PodAccount.exposure_holding {a : PodAccount}
    (hnone : a.delegate = none → a.delegatedAmount = 0) :
    a.holding.exposure = a.delegatedAmount.toNat := by
  cases hdelegate : a.delegate with
  | none =>
    rw [Holding.exposure_of_none (by simp only [PodAccount.holding, hdelegate, Option.map_none]),
      hnone hdelegate]
    rfl
  | some d =>
    exact Holding.exposure_of_some (v := d) (by simp only [PodAccount.holding, hdelegate, Option.map_some])

/-- What the custodian promises of an account, in the account's own fields. -/
theorem undisturbed_of_remains {lamports lamports' : UInt64}
    (hs : WellFormedAccount lamports s) (hs' : WellFormedAccount lamports' s')
    (h : s.base.holding.Remains D s'.base.holding) :
    Undisturbed s.base s'.base ∧ s.base.amount.toNat + s'.base.delegatedAmount.toNat ≤
      s'.base.amount.toNat + s.base.delegatedAmount.toNat := by
  refine ⟨⟨h.asset, h.owner, h.closer, ?_, ?_⟩, ?_⟩
  · have hfrozen : s'.base.frozen ↔ s.base.frozen := decide_eq_decide.mp h.frozen
    have hinit := hs.initialized
    have hinit' := hs'.initialized
    unfold PodAccount.frozen at hfrozen
    unfold PodAccount.initialized at hinit hinit'
    cases hstate : s.base.state <;> cases hstate' : s'.base.state <;> simp_all
  · cases hdelegate : s'.base.delegate with
    | none => exact Or.inl rfl
    | some d =>
      obtain ⟨n, hn⟩ := h.delegate d s'.base.delegatedAmount.toNat
        (by simp only [PodAccount.holding, hdelegate, Option.map_some])
      obtain ⟨d', hd', hpair⟩ := Option.map_eq_some_iff.mp hn
      obtain ⟨rfl, -⟩ := Prod.mk.inj hpair
      exact Or.inr hd'.symm
  · have hbalance := h.balance
    rw [PodAccount.exposure_holding hs.delegate, PodAccount.exposure_holding hs'.delegate] at hbalance
    exact hbalance

/-- Without the delegate the allowance is as it was. -/
theorem allowance_of_remains {lamports lamports' : UInt64}
    (hs : WellFormedAccount lamports s) (hs' : WellFormedAccount lamports' s')
    (h : s.base.holding.Remains ∅ s'.base.holding) :
    s'.base.delegate = s.base.delegate ∧ s'.base.delegatedAmount = s.base.delegatedAmount ∧
      s.base.amount ≤ s'.base.amount := by
  obtain ⟨hallowance, hbalance⟩ := h.kept
  refine ⟨?_, ?_, UInt64.le_iff_toNat_le.mpr hbalance⟩
  · have hfst := congrArg (Option.map Prod.fst) hallowance
    simpa only [PodAccount.holding, Option.map_map, Function.comp_def, Option.map_id'] using hfst
  · have hexposure : s'.base.holding.exposure = s.base.holding.exposure := by
      rw [Holding.exposure, Holding.exposure, hallowance]
    rw [PodAccount.exposure_holding hs.delegate, PodAccount.exposure_holding hs'.delegate] at hexposure
    exact UInt64.toNat_inj.mp hexposure

end Silence

/-- Whatever everyone else does: as long as neither the owner of an account nor its close
authority, nor those who may freeze, recover or close in the name of its mint approve an
instruction, the account stays open with its mint, owner, close authority and state, and
loses no more than what it has allowed its delegate. If its delegate approves of nothing
either, the account loses nothing at all. Anyone may burn what the system program or the
incinerator owns. -/
theorem guarded_account_kept {x : Externals} {k : Pubkey} {l : Ledger}
    {s : PodStateWithExtensions PodAccount} {m : PodStateWithExtensions PodMint}
    (hreach : Reachable x l) (hs : AccountAt l k s) (hm : MintAt l s.base.mint m)
    (hopen : ¬ s.base.ownedBySystemProgramOrIncinerator) :
    (∀ events l', SilentRun x (Guardians s m) l events l' →
      ∃ s', AccountAt l' k s' ∧ Undisturbed s.base s'.base ∧
        s.base.amount.toNat + s'.base.delegatedAmount.toNat ≤
          s'.base.amount.toNat + s.base.delegatedAmount.toNat) ∧
    ∀ events l', SilentRun x (Guardians s m ∪ {d | s.base.delegate = some d}) l events l' →
      ∃ s', AccountAt l' k s' ∧ Undisturbed s.base s'.base ∧ s'.base.delegate = s.base.delegate ∧
        s'.base.delegatedAmount = s.base.delegatedAmount ∧ s.base.amount ≤ s'.base.amount := by
  have hl := hreach.wellFormed
  have hwf {S : Set Pubkey} {events l'} (hrun : SilentRun x S l events l') : WellFormedLedger l' :=
    RunWhere.invariant WellFormedLedger (fun _ _ _ _ hl hok => Call.process_wellFormed hl hok)
      (fun _ _ hl hf => hf.wellFormed hl) hrun hl
  refine ⟨fun events l' hrun => ?_, fun events l' hrun => ?_⟩
  · obtain ⟨s', hs', hremains⟩ := SilentRun.remains (D := Set.univ) hrun hl hs hm hopen
      (Set.Subset.refl _) fun d _ => Or.inr (Set.mem_univ d)
    exact ⟨s', hs', undisturbed_of_remains (hs.wellFormed hl) (hs'.wellFormed (hwf hrun)) hremains⟩
  · obtain ⟨s', hs', hremains⟩ := SilentRun.remains (D := ∅) hrun hl hs hm hopen
      Set.subset_union_left fun d hd => Or.inl (Or.inr hd)
    have hs₀ := hs.wellFormed hl
    have hs₁ := hs'.wellFormed (hwf hrun)
    exact ⟨s', hs', (undisturbed_of_remains hs₀ hs₁ hremains).1, allowance_of_remains hs₀ hs₁ hremains⟩

/-- The mint of `delegatedLedger`. -/
def fundedMint : PodStateWithExtensions PodMint := ⟨⟨some ⟨5⟩, 10, 2, true, none⟩, 82, []⟩

set_option maxRecDepth 2000 in
/-- The delegate of three tokens burns two; the owner has not signed. -/
theorem guarded_account_kept_burn :
    ∃ s', AccountAt (execute .refusing (.plain 0) delegateBurn.ix delegateBurn.accounts delegatedLedger)
        ⟨2⟩ s' ∧ s'.base.owner = ⟨7⟩ ∧ 10 + s'.base.delegatedAmount.toNat ≤ s'.base.amount.toNat + 3 := by
  have hs : AccountAt delegatedLedger ⟨2⟩ (fundedAccount 10 3 (some ⟨8⟩)) := ⟨by decide, by decide⟩
  have hm : MintAt delegatedLedger ⟨1⟩ fundedMint := ⟨by decide, by decide⟩
  have hrun : SilentRun .refusing (Guardians (fundedAccount 10 3 (some ⟨8⟩)) fundedMint)
      delegatedLedger [.instruction (.plain 0) delegateBurn.ix delegateBurn.accounts]
      (execute .refusing (.plain 0) delegateBurn.ix delegateBurn.accounts delegatedLedger) := by
    refine Run.single ⟨fun _ key hkey happroved => ?_, rfl⟩
    have hdelegate : key = ⟨8⟩ := by
      rcases happroved with hauth | ⟨info, hinfo, rfl, hsigner⟩
      · exact hauth.names.unique ⟨⟨⟨8⟩, true⟩, [], rfl, rfl⟩
      · revert hsigner
        rcases List.mem_cons.mp hinfo with rfl | hinfo
        · exact fun h => by cases h
        rcases List.mem_cons.mp hinfo with rfl | hinfo
        · exact fun h => by cases h
        rcases List.mem_singleton.mp hinfo with rfl
        exact fun _ => rfl
    subst hdelegate
    revert hkey
    simp [Guardians, fundedAccount, fundedMint, getPermanentDelegate]
  obtain ⟨s', hs', hsame, hle⟩ := (guarded_account_kept
    (blankLedger_genesis.reachable_replay delegatedCalls) hs hm (by decide)).1 _ _ hrun
  exact ⟨s', hs', hsame.owner, hle⟩

end BarkToken
