import BarkToken.Invariant.Settings
import BarkToken.Program.Replay

/-!
# Two epochs of notice for a new fee (extension/transfer_fee)

`SetTransferFee` never changes what is charged in the epoch it runs in or in the
next one. A history collects the changes made to one mint; the fee in force is
the first one or a change that is at least two epochs old.
-/

namespace BarkToken
open Fallible CheckedWord AccountData Transition

/-! ### Changes of a configuration -/

/-- A fee that `SetTransferFee` has set, and the epoch it did so in. -/
structure FeeSet where
  epoch : UInt64
  maximumFee : UInt64
  basisPoints : UInt16
deriving DecidableEq

def FeeSet.terms (s : FeeSet) : UInt16 × UInt64 := (s.basisPoints, s.maximumFee)

/-- What an account holder pays: the rate and the maximum. -/
def TransferFee.terms (p : TransferFee) : UInt16 × UInt64 := (p.transferFeeBasisPoints, p.maximumFee)

/-- What is charged in an epoch. -/
def TransferFeeConfig.termsAt (v : TransferFeeConfig) (epoch : UInt64) : UInt16 × UInt64 :=
  (v.getEpochFee epoch).terms

theorem toNat_saturatingAdd_two {epoch : UInt64} (h : epoch.toNat ≤ 2 ^ 64 - 1 - 2) :
    (saturatingAdd epoch 2).toNat = epoch.toNat + 2 := by
  unfold saturatingAdd
  cases hsum : checkedAdd epoch 2 with
  | none =>
    have := checkedAdd_eq_none.mp hsum
    simp only [UInt64.reduceToNat] at this
    omega
  | some sum => exact checkedAdd_eq_some.mp hsum

section SetFee

variable {v : TransferFeeConfig} {epoch maximumFee : UInt64} {basisPoints : UInt16}

/-- A change is not charged before its second epoch. -/
theorem TransferFeeConfig.termsAt_setFee_of_lt (h : epoch.toNat ≤ 2 ^ 64 - 1 - 2) {later : UInt64}
    (hlater : later.toNat < epoch.toNat + 2) :
    (v.setFee epoch maximumFee basisPoints).termsAt later = v.termsAt epoch := by
  have hnot : ¬ saturatingAdd epoch 2 ≤ later := by
    rw [UInt64.le_iff_toNat_le, toNat_saturatingAdd_two h]
    omega
  exact congrArg TransferFee.terms (if_neg hnot)

/-- From its second epoch on it is. -/
theorem TransferFeeConfig.termsAt_setFee_of_le (h : epoch.toNat ≤ 2 ^ 64 - 1 - 2) {later : UInt64}
    (hlater : epoch.toNat + 2 ≤ later.toNat) :
    (v.setFee epoch maximumFee basisPoints).termsAt later = (basisPoints, maximumFee) := by
  have hle : saturatingAdd epoch 2 ≤ later := by
    rw [UInt64.le_iff_toNat_le, toNat_saturatingAdd_two h]
    exact hlater
  exact congrArg TransferFee.terms (if_pos hle)

end SetFee

/-- Where the two fees of a configuration come from, with the changes made so
far: the newer one waits for two epochs, the older one has done so. -/
structure FeeOrigin (initial : UInt16 × UInt64) (history : List FeeSet) (v : TransferFeeConfig) :
    Prop where
  newer : v.newerTransferFee.terms = initial ∨ ∃ s ∈ history, v.newerTransferFee.terms = s.terms ∧
    v.newerTransferFee.epoch.toNat = s.epoch.toNat + 2
  older : v.olderTransferFee.terms = initial ∨ ∃ s ∈ history, v.olderTransferFee.terms = s.terms ∧
    ∃ t ∈ history, s.epoch.toNat + 2 ≤ t.epoch.toNat

namespace FeeOrigin

variable {initial : UInt16 × UInt64} {history : List FeeSet} {v v' : TransferFeeConfig}

theorem congr (h : FeeOrigin initial history v)
    (hsame : v'.olderTransferFee = v.olderTransferFee ∧ v'.newerTransferFee = v.newerTransferFee) :
    FeeOrigin initial history v' where
  newer := hsame.2 ▸ h.newer
  older := hsame.1 ▸ h.older

theorem setFee (h : FeeOrigin initial history v) {s : FeeSet} (hs : s.epoch.toNat ≤ 2 ^ 64 - 1 - 2) :
    FeeOrigin initial (history ++ [s]) (v.setFee s.epoch s.maximumFee s.basisPoints) where
  newer := Or.inr ⟨s, by simp, rfl, toNat_saturatingAdd_two hs⟩
  older := by
    unfold TransferFeeConfig.setFee
    dsimp only
    split
    · -- The newer fee was in force, so its change is two epochs older than this one.
      rename_i hle
      have hle := UInt64.le_iff_toNat_le.mp hle
      rcases h.newer with hinit | ⟨t, ht, hterms, hepoch⟩
      · exact Or.inl hinit
      · exact Or.inr ⟨t, List.mem_append_left _ ht, hterms, s, by simp, by omega⟩
    · rcases h.older with hinit | ⟨t, ht, hterms, u, hu, hle⟩
      · exact Or.inl hinit
      · exact Or.inr ⟨t, List.mem_append_left _ ht, hterms, u, List.mem_append_left _ hu, hle⟩

/-- What is charged after all these changes was there from the start, or has
waited for two epochs. -/
theorem termsAt (h : FeeOrigin initial history v) {epoch : UInt64}
    (hepoch : ∀ s ∈ history, s.epoch ≤ epoch) :
    v.termsAt epoch = initial ∨
      ∃ s ∈ history, s.epoch.toNat + 2 ≤ epoch.toNat ∧ v.termsAt epoch = s.terms := by
  unfold TransferFeeConfig.termsAt TransferFeeConfig.getEpochFee
  split
  · rename_i hle
    have hle := UInt64.le_iff_toNat_le.mp hle
    rcases h.newer with hinit | ⟨s, hs, hterms, heq⟩
    · exact Or.inl hinit
    · exact Or.inr ⟨s, hs, by omega, hterms⟩
  · rcases h.older with hinit | ⟨s, hs, hterms, t, ht, hle⟩
    · exact Or.inl hinit
    · have := UInt64.le_iff_toNat_le.mp (hepoch t ht)
      exact Or.inr ⟨s, hs, by omega, hterms⟩

end FeeOrigin

/-! ### The configuration of a mint -/

/-- The fee configuration at an address, before or after `InitializeMint`. -/
inductive FeeConfigAt (l : Ledger) (M : Pubkey) (v : TransferFeeConfig) : Prop
  | fresh {len tlv} (howner : (l M).owner = programId) (hdata : (l M).data = .zeroed len tlv)
      (hlen : len ≠ multisigLen) (hget : tlv.get .transferFeeConfig = some v)
  | mint {m} (hm : MintAt l M m) (hget : m.tlv.get .transferFeeConfig = some v)

/-- The instruction sets the fee of `M`, and to what. -/
def Call.feeSet (c : Call) (M : Pubkey) : List FeeSet :=
  match c.ix with
  | .setTransferFee basisPoints maximumFee =>
    if c.key 0 = some M then [⟨c.env.epoch, maximumFee, basisPoints⟩] else []
  | _ => []

/-- The instruction creates a fee configuration at `M`. -/
def Call.CreatesFeeConfig (c : Call) (M : Pubkey) : Prop :=
  c.ix.isInitializeTransferFeeConfig = true ∧ c.key 0 = some M

section Configuration

variable {M : Pubkey} {l l' : Ledger} {v : TransferFeeConfig}

theorem FeeConfigAt.iff_extensionAt :
    FeeConfigAt l M v ↔ ExtensionAt l M .transferFeeConfig v := by
  constructor
  · intro h
    cases h with
    | fresh howner hdata hlen hget => exact .fresh howner hdata hlen hget
    | mint hm hget => exact .mint hm hget
  · intro h
    cases h with
    | fresh howner hdata hlen hget => exact .fresh howner hdata hlen hget
    | mint hm hget => exact .mint hm hget

theorem FeeConfigAt.congr (h : FeeConfigAt l M v) (hsame : l' M = l M) : FeeConfigAt l' M v :=
  iff_extensionAt.mpr ((iff_extensionAt.mp h).congr hsame)

theorem ForeignStep.feeConfigAt (h : ForeignStep l l') (hv : FeeConfigAt l M v) :
    FeeConfigAt l' M v :=
  FeeConfigAt.iff_extensionAt.mpr (h.extensionAt (FeeConfigAt.iff_extensionAt.mp hv))

/-- `InitializeTransferFeeConfig` writes one fee in both places. -/
theorem processInitializeTransferFeeConfig_config {x : Externals} {env : Env} {a b : Option Pubkey}
    {basisPoints : UInt16} {maximumFee : UInt64} {accounts : List AccountInfo}
    (hkey : (Call.mk x env (.initializeTransferFeeConfig a b basisPoints maximumFee) accounts l).key 0 =
      some M) (howner : (l M).owner = programId)
    (h : processInitializeTransferFeeConfig env a b basisPoints maximumFee accounts l = .ok l') :
    ∃ v, FeeConfigAt l' M v ∧ FeeOrigin (basisPoints, maximumFee) [] v := by
  simp only [processInitializeTransferFeeConfig, initMintExtension, bind_eq_ok, Prod.exists,
    exists_unit, nextAccountInfo_eq_ok, ensure_eq_ok, pure_eq_ok] at h
  obtain ⟨mintInfo, rest, rfl, mint, hmint, mint', hinit, v, ⟨a', -, b', -, -, rfl⟩, hwrite⟩ := h
  obtain rfl : mintInfo.key = M := Option.some.inj hkey
  obtain ⟨rfl, -⟩ := PodStateWithExtensions.initExtension_eq_ok hinit
  obtain ⟨-, rfl⟩ := Ledger.writeData_eq_ok.mp hwrite
  have hlen : mint.len ≠ multisigLen := (unpackUninitializedMint_len hmint).1
  exact ⟨_, .fresh ((Ledger.setData_owner ..).trans howner)
    (congrArg AccountRecord.data Ledger.setData_self) hlen (TypedStore.get_put_self _ _ _),
    Or.inl rfl, Or.inl rfl⟩

theorem processInitializeTransferFeeConfig_frame {env : Env} {a b : Option Pubkey}
    {basisPoints : UInt16} {maximumFee : UInt64} {accounts : List AccountInfo}
    (h : processInitializeTransferFeeConfig env a b basisPoints maximumFee accounts l = .ok l') :
    ∃ info rest, accounts = info :: rest ∧ ∀ k, k ≠ info.key → l' k = l k := by
  simp only [processInitializeTransferFeeConfig, initMintExtension, bind_eq_ok, Prod.exists,
    nextAccountInfo_eq_ok] at h
  obtain ⟨mintInfo, rest, rfl, mint, -, mint', -, v, -, hwrite⟩ := h
  obtain ⟨-, rfl⟩ := Ledger.writeData_eq_ok.mp hwrite
  exact ⟨mintInfo, rest, rfl, fun _ hk => Ledger.setData_of_ne hk⟩

/-- `SetTransferFee` writes the mint in first place, and no other account. -/
theorem processSetTransferFee_eq_ok {env : Env} {basisPoints : UInt16} {maximumFee : UInt64}
    {accounts : List AccountInfo}
    (h : processSetTransferFee env basisPoints maximumFee accounts l = .ok l') :
    ∃ info rest mint v, accounts = info :: rest ∧ (l info.key).data.unpackMint = .ok mint ∧
      mint.tlv.get .transferFeeConfig = some v ∧
      l' = l.setData info.key (.mint (mint.setExtension .transferFeeConfig
        (v.setFee env.epoch maximumFee basisPoints))) := by
  simp only [processSetTransferFee, bind_eq_ok, Prod.exists, exists_unit, nextAccountInfo_eq_ok] at h
  obtain ⟨mintInfo, rest, rfl, authorityInfo, signers, -, mint, hmint, v, hv, key, -, -, -,
    hwrite⟩ := h
  have hv := PodStateWithExtensions.getExtension_eq_ok.mp hv
  exact ⟨mintInfo, rest, mint, v, rfl, hmint, hv, (Ledger.writeData_eq_ok.mp hwrite).2⟩

/-- At the mint it names, `SetTransferFee` changes the configuration as intended. -/
theorem processSetTransferFee_config {x : Externals} {env : Env} {basisPoints : UInt16}
    {maximumFee : UInt64} {accounts : List AccountInfo}
    (hkey : (Call.mk x env (.setTransferFee basisPoints maximumFee) accounts l).key 0 = some M)
    (h : processSetTransferFee env basisPoints maximumFee accounts l = .ok l')
    (hv : FeeConfigAt l M v) : FeeConfigAt l' M (v.setFee env.epoch maximumFee basisPoints) := by
  obtain ⟨info, rest, mint, w, rfl, hmint, hw, rfl⟩ := processSetTransferFee_eq_ok h
  obtain rfl : info.key = M := Option.some.inj hkey
  obtain ⟨hdata, -⟩ := unpackMint_eq_ok.mp hmint
  cases hv with
  | fresh _ hzero => exact absurd (hzero.symm.trans hdata) (by simp)
  | mint hm hget =>
    obtain rfl := AccountData.mint.inj (hm.data.symm.trans hdata)
    obtain rfl := Option.some.inj (hw.symm.trans hget)
    exact .mint ⟨(Ledger.setData_owner ..).trans hm.owner, by rw [Ledger.setData_self]⟩
      (TypedStore.get_put_self _ _ _)

/-- Every instruction but the two that set fees keeps both fees of a mint. -/
theorem Call.process_keeps_feeConfig {c : Call} (hl : WellFormedLedger c.ledger)
    (h : c.process = .ok l') (hv : FeeConfigAt c.ledger M v)
    (hset : ∀ basisPoints maximumFee, c.ix ≠ .setTransferFee basisPoints maximumFee)
    (hinit : c.ix.isInitializeTransferFeeConfig = false) (hclose : ¬ c.ClosesMint M) :
    ∃ v', FeeConfigAt l' M v' ∧ v'.olderTransferFee = v.olderTransferFee ∧
      v'.newerTransferFee = v.newerTransferFee := by
  have hstep : ∀ m m', m.tlv.get .transferFeeConfig = some v → MintStep c M m m' →
      ∃ v', m'.tlv.get .transferFeeConfig = some v' ∧
        v'.olderTransferFee = v.olderTransferFee ∧ v'.newerTransferFee = v.newerTransferFee := by
    intro m m' hget hstep
    obtain ⟨v', hget', hsame | ⟨basisPoints, maximumFee, hix, -⟩⟩ := hstep.fees v hget
    · exact ⟨v', hget', hsame⟩
    · exact absurd hix (hset _ _)
  have hspares : c.Spares .transferFeeConfig := fun u hfee _ hu => by simp [hfee hu] at hinit
  obtain ⟨v', hv', hsame⟩ := Call.process_extensionAt (fun w : TransferFeeConfig =>
    w.olderTransferFee = v.olderTransferFee ∧ w.newerTransferFee = v.newerTransferFee) hl h
    (FeeConfigAt.iff_extensionAt.mp hv) rfl hspares hclose ⟨rfl, rfl⟩ hstep
  exact ⟨v', FeeConfigAt.iff_extensionAt.mpr hv', hsame⟩

/-- A fee configuration after an instruction: changed as the instruction says if
it names the mint, and with the same fees otherwise. -/
theorem Call.process_feeConfig {c : Call} (hl : WellFormedLedger c.ledger)
    (h : c.process = .ok l') (hv : FeeConfigAt c.ledger M v) (hcreate : ¬ c.CreatesFeeConfig M)
    (hclose : ¬ c.ClosesMint M) :
    ∃ v', FeeConfigAt l' M v' ∧ ((c.feeSet M = [] ∧ v'.olderTransferFee = v.olderTransferFee ∧
      v'.newerTransferFee = v.newerTransferFee) ∨
      ∃ s, c.feeSet M = [s] ∧ v' = v.setFee s.epoch s.maximumFee s.basisPoints) := by
  obtain ⟨x, env, ix, accounts, l⟩ := c
  by_cases hset : ∃ basisPoints maximumFee, ix = .setTransferFee basisPoints maximumFee
  · obtain ⟨basisPoints, maximumFee, rfl⟩ := hset
    by_cases hkey : (Call.mk x env (.setTransferFee basisPoints maximumFee) accounts l).key 0 = some M
    · exact ⟨_, processSetTransferFee_config hkey h hv, Or.inr ⟨⟨env.epoch, maximumFee, basisPoints⟩,
        by simp [Call.feeSet, hkey], rfl⟩⟩
    · obtain ⟨info, rest, mint, w, rfl, -, -, rfl⟩ := processSetTransferFee_eq_ok h
      have hne : M ≠ info.key := fun hM => hkey (congrArg some hM.symm)
      exact ⟨v, hv.congr (Ledger.setData_of_ne hne), Or.inl ⟨by simp [Call.feeSet, hkey], rfl, rfl⟩⟩
  · have hset : ∀ basisPoints maximumFee, ix ≠ .setTransferFee basisPoints maximumFee :=
      fun b m hix => hset ⟨b, m, hix⟩
    have hnone : (Call.mk x env ix accounts l).feeSet M = [] := by
      unfold Call.feeSet
      split
      · exact absurd ‹_› (hset _ _)
      · rfl
    cases hinit : ix.isInitializeTransferFeeConfig with
    | false =>
      obtain ⟨v', hv', hsame⟩ := Call.process_keeps_feeConfig hl h hv hset hinit hclose
      exact ⟨v', hv', Or.inl ⟨hnone, hsame⟩⟩
    | true =>
      -- The configuration it creates is another mint's.
      cases ix with
      | initializeTransferFeeConfig a b basisPoints maximumFee =>
        obtain ⟨info, rest, rfl, hframe⟩ := processInitializeTransferFeeConfig_frame h
        have hne : M ≠ info.key := fun hM => hcreate ⟨rfl, congrArg some hM.symm⟩
        exact ⟨v, hv.congr (hframe M hne), Or.inl ⟨hnone, rfl, rfl⟩⟩
      | _ => simp [TokenInstruction.isInitializeTransferFeeConfig] at hinit

end Configuration

/-! ### Runs -/

/-- Runs that neither create a fee configuration at `M` nor close the mint, with
the changes that they make to its fee. -/
abbrev FeeRun (x : Externals) (M : Pubkey) :
    Ledger × List FeeSet → List Event → Ledger × List FeeSet → Prop :=
  RecordedRun x (fun c => c.Succeeds → ¬ c.CreatesFeeConfig M ∧ ¬ c.ClosesMint M)
    fun c _ => c.feeSet M

/-- The configuration at `M`, with fees that the history accounts for. -/
def FeesTraced (M : Pubkey) (initial : UInt16 × UInt64) (l : Ledger) (history : List FeeSet) : Prop :=
  WellFormedLedger l ∧ ((∀ s ∈ history, s.epoch.toNat ≤ 2 ^ 64 - 1 - 2) →
    ∃ v, FeeConfigAt l M v ∧ FeeOrigin initial history v)

theorem FeeRun.feesTraced {x : Externals} {M : Pubkey} {initial : UInt16 × UInt64}
    {state state' : Ledger × List FeeSet} {events : List Event} (hrun : FeeRun x M state events state')
    (h : FeesTraced M initial state.1 state.2) : FeesTraced M initial state'.1 state'.2 := by
  refine RecordedRun.invariant (FeesTraced M initial) (fun c l' history _ hP hinv hok => ?_)
    (fun l l' history hinv hf => ?_) hrun h
  · refine ⟨Call.process_wellFormed hinv.1 hok, fun hepochs => ?_⟩
    obtain ⟨v, hv, horigin⟩ := hinv.2 fun s hs => hepochs s (List.mem_append_left _ hs)
    obtain ⟨hcreate, hclose⟩ := hP ⟨_, hok⟩
    obtain ⟨v', hv', ⟨hnone, hsame⟩ | ⟨s, hset, rfl⟩⟩ :=
      Call.process_feeConfig hinv.1 hok hv hcreate hclose
    · rw [hnone, List.append_nil]
      exact ⟨v', hv', horigin.congr hsame⟩
    · rw [hset] at hepochs ⊢
      exact ⟨_, hv', horigin.setFee (hepochs s (by simp))⟩
  · refine ⟨hf.wellFormed hinv.1, fun hepochs => ?_⟩
    obtain ⟨v, hv, horigin⟩ := hinv.2 hepochs
    exact ⟨v, hf.feeConfigAt hv, horigin⟩

/-- Without a further change, both fees stay as they are. -/
theorem FeeRun.fees_eq {x : Externals} {M : Pubkey} {l l' : Ledger} {past : List FeeSet}
    {events : List Event} {v : TransferFeeConfig} (hrun : FeeRun x M (l, past) events (l', past))
    (hl : WellFormedLedger l) (hv : FeeConfigAt l M v) :
    ∃ v', FeeConfigAt l' M v' ∧ v'.olderTransferFee = v.olderTransferFee ∧
      v'.newerTransferFee = v.newerTransferFee := by
  refine (RecordedRun.invariant (fun l history => WellFormedLedger l ∧ past <+: history ∧
    (history = past → ∃ v', FeeConfigAt l M v' ∧ v'.olderTransferFee = v.olderTransferFee ∧
      v'.newerTransferFee = v.newerTransferFee)) (fun c l' history _ hP hinv hok => ?_)
    (fun l l' history hinv hf => ?_) hrun ⟨hl, List.prefix_refl _, fun _ => ⟨v, hv, rfl, rfl⟩⟩).2.2 rfl
  · obtain ⟨hl, ⟨more, rfl⟩, hfees⟩ := hinv
    refine ⟨Call.process_wellFormed hl hok, ⟨_, (List.append_assoc ..).symm⟩, fun hsame => ?_⟩
    -- A history that has not grown got nothing from this instruction.
    obtain ⟨rfl, hnone⟩ : more = [] ∧ c.feeSet M = [] := by simpa using hsame
    obtain ⟨w, hw, holder, hnewer⟩ := hfees (List.append_nil _)
    obtain ⟨hcreate, hclose⟩ := hP ⟨_, hok⟩
    obtain ⟨w', hw', ⟨-, holder', hnewer'⟩ | ⟨s, hset, -⟩⟩ :=
      Call.process_feeConfig hl hok hw hcreate hclose
    · exact ⟨w', hw', holder'.trans holder, hnewer'.trans hnewer⟩
    · exact absurd (hnone.symm.trans hset) (by simp)
  · obtain ⟨hl, hprefix, hfees⟩ := hinv
    refine ⟨hf.wellFormed hl, hprefix, fun hsame => ?_⟩
    obtain ⟨w, hw, hfee⟩ := hfees hsame
    exact ⟨w, hf.feeConfigAt hw, hfee⟩

/-- Two epochs of notice. After `InitializeTransferFeeConfig` on `M` and any run,
whatever is charged in an epoch was there from the start or set two epochs
earlier; a further change leaves this epoch and the next as they were, and holds
from the second epoch on, for as long as nothing else is set. -/
theorem transferFee_notice {c : Call} {l₁ l : Ledger} {M : Pubkey} {a b : Option Pubkey}
    {basisPoints : UInt16} {maximumFee : UInt64} {events : List Event} {history : List FeeSet}
    (hreach : Reachable c.x c.ledger)
    (hix : c.ix = .initializeTransferFeeConfig a b basisPoints maximumFee)
    (hkey : c.key 0 = some M) (howner : (c.ledger M).owner = programId)
    (hok : c.process = .ok l₁) (hrun : FeeRun c.x M (l₁, []) events (l, history))
    (hepochs : ∀ s ∈ history, s.epoch.toNat ≤ 2 ^ 64 - 1 - 2) :
    ∃ v, FeeConfigAt l M v ∧
      (∀ epoch, (∀ s ∈ history, s.epoch ≤ epoch) → v.termsAt epoch = (basisPoints, maximumFee) ∨
        ∃ s ∈ history, s.epoch.toNat + 2 ≤ epoch.toNat ∧ v.termsAt epoch = s.terms) ∧
      ∀ (env : Env) (basisPoints' : UInt16) (maximumFee' : UInt64) (accounts : List AccountInfo)
        (l' : Ledger), env.epoch.toNat ≤ 2 ^ 64 - 1 - 2 →
        (Call.mk c.x env (.setTransferFee basisPoints' maximumFee') accounts l).key 0 = some M →
        process c.x env (.setTransferFee basisPoints' maximumFee') accounts l = .ok l' →
        ∃ v', FeeConfigAt l' M v' ∧
          (∀ epoch, epoch = env.epoch ∨ epoch.toNat = env.epoch.toNat + 1 →
            v'.termsAt epoch = v.termsAt env.epoch) ∧
          ∀ events' l'', FeeRun c.x M (l', []) events' (l'', []) →
            ∃ v'', FeeConfigAt l'' M v'' ∧ ∀ epoch, env.epoch.toNat + 2 ≤ epoch.toNat →
              v''.termsAt epoch = (basisPoints', maximumFee') := by
  obtain ⟨x, env₀, ix, accounts₀, l₀⟩ := c
  subst hix
  obtain ⟨v₀, hv₀, horigin₀⟩ := processInitializeTransferFeeConfig_config hkey howner hok
  obtain ⟨hl, htraced⟩ := hrun.feesTraced
    ⟨Call.process_wellFormed hreach.wellFormed hok, fun _ => ⟨v₀, hv₀, horigin₀⟩⟩
  obtain ⟨v, hv, horigin⟩ := htraced hepochs
  refine ⟨v, hv, fun epoch => horigin.termsAt, fun env basisPoints' maximumFee' accounts l' hepoch
    hkey' hset => ?_⟩
  have hv' := processSetTransferFee_config hkey' hset hv
  have hl' : WellFormedLedger l' :=
    Call.process_wellFormed (c := ⟨x, env, .setTransferFee basisPoints' maximumFee', accounts, l⟩)
      hl hset
  refine ⟨_, hv', fun epoch hnext => TransferFeeConfig.termsAt_setFee_of_lt hepoch ?_,
    fun events' l'' hrun' => ?_⟩
  · rcases hnext with rfl | hnext <;> omega
  · obtain ⟨v'', hv'', holder, hnewer⟩ := hrun'.fees_eq hl' hv'
    refine ⟨v'', hv'', fun epoch hlater => ?_⟩
    have hnew : (v.setFee env.epoch maximumFee' basisPoints').termsAt epoch =
        (basisPoints', maximumFee') := TransferFeeConfig.termsAt_setFee_of_le hepoch hlater
    unfold TransferFeeConfig.termsAt TransferFeeConfig.getEpochFee at hnew ⊢
    rw [holder, hnewer]
    exact hnew

/-- The address of an account that the witnesses below work on. -/
def sampleMint : Pubkey := ⟨1⟩

/-- One fresh account of this program, large enough for a fee configuration. -/
def feeMintLedger : Ledger := .ofList [(sampleMint, ⟨1, programId, .zeroed 278 []⟩)]

/-- A fee of at most 7 from epoch 5 on. -/
def configureFeeCall : Call :=
  ⟨.refusing, .plain 5, .initializeTransferFeeConfig (some ⟨6⟩) none 100 7, [⟨sampleMint, false⟩],
    feeMintLedger⟩

def configuredFeeLedger : Ledger := replay .refusing
  [(configureFeeCall.env, configureFeeCall.ix, configureFeeCall.accounts)] feeMintLedger

/-- The mint is initialised, and its fee set in epoch 5 and again in epoch 6. -/
def noticeCalls : List (Env × TokenInstruction × List AccountInfo) :=
  [(.plain 5, .initializeMint 2 ⟨5⟩ none false, [⟨sampleMint, false⟩]),
   (.plain 5, .setTransferFee 200 8, [⟨sampleMint, false⟩, ⟨⟨6⟩, true⟩]),
   (.plain 6, .setTransferFee 300 9, [⟨sampleMint, false⟩, ⟨⟨6⟩, true⟩])]

def noticeLedger : Ledger := replay .refusing noticeCalls configuredFeeLedger

/-- A third change, in epoch 8, after which the mint authority is given up. -/
def laterFeeCall : Call :=
  ⟨.refusing, .plain 8, .setTransferFee 400 10, [⟨sampleMint, false⟩, ⟨⟨6⟩, true⟩], noticeLedger⟩

def laterFeeLedger : Ledger :=
  replay .refusing [(laterFeeCall.env, laterFeeCall.ix, laterFeeCall.accounts)] noticeLedger

def renounceCalls : List (Env × TokenInstruction × List AccountInfo) :=
  [(.plain 9, .setAuthority .mintTokens none, [⟨sampleMint, false⟩, ⟨⟨5⟩, true⟩])]

theorem feeRun_replay {calls : List (Env × TokenInstruction × List AccountInfo)}
    {history : List FeeSet} (l : Ledger)
    (hkept : ∀ c ∈ calls, c.2.1.isInitializeTransferFeeConfig = false ∧ c.2.1 ≠ .closeAccount)
    (hrecord : replayRecord .refusing (fun c _ => c.feeSet sampleMint) calls l = history) :
    FeeRun .refusing sampleMint (l, []) (calls.map Event.ofCall)
      (replay .refusing calls l, history) := by
  have hspared : ∀ c ∈ calls, ∀ l, (Call.mk .refusing c.1 c.2.1 c.2.2 l).Succeeds →
      ¬ (Call.mk .refusing c.1 c.2.1 c.2.2 l).CreatesFeeConfig sampleMint ∧
        ¬ (Call.mk .refusing c.1 c.2.1 c.2.2 l).ClosesMint sampleMint := by
    intro c hc l _
    obtain ⟨hinit, hclose⟩ := hkept c hc
    exact ⟨fun hcreates => absurd (hcreates.1.symm.trans hinit) (by decide),
      fun hcloses => hclose hcloses.1.1⟩
  have hreplay := recordedRun_replay (P := fun c => c.Succeeds →
    ¬ c.CreatesFeeConfig sampleMint ∧ ¬ c.ClosesMint sampleMint)
    (fun c _ => c.feeSet sampleMint) hspared l []
  rwa [hrecord] at hreplay

/-- In epoch 7 the first fee or the second is charged; the change of epoch 8 leaves
that epoch and the next, and holds from epoch 10 on. -/
theorem transferFee_notice_sets :
    ∃ v, FeeConfigAt noticeLedger sampleMint v ∧
      (v.termsAt 7 = (100, 7) ∨ v.termsAt 7 = (200, 8)) ∧
      ∃ v', FeeConfigAt laterFeeLedger sampleMint v' ∧ v'.termsAt 8 = v.termsAt 8 ∧
        v'.termsAt 9 = v.termsAt 8 ∧
        ∃ v'', FeeConfigAt (replay .refusing renounceCalls laterFeeLedger) sampleMint v'' ∧
          v''.termsAt 10 = (400, 10) := by
  have hgen : Genesis feeMintLedger := .ofList (by decide) (by decide)
  obtain ⟨l₁, hok⟩ := Call.succeeds_of_isOk (c := configureFeeCall) (by decide)
  obtain rfl : configuredFeeLedger = l₁ := execute_of_process hok
  have hrun : FeeRun .refusing sampleMint (configuredFeeLedger, [])
      (noticeCalls.map Event.ofCall) (noticeLedger, [⟨5, 8, 200⟩, ⟨6, 9, 300⟩]) :=
    feeRun_replay _ (by simp [noticeCalls, TokenInstruction.isInitializeTransferFeeConfig])
      (by decide +kernel)
  obtain ⟨v, hv, hterms, hnotice⟩ := transferFee_notice (c := configureFeeCall)
    ⟨_, _, hgen, Run.nil _⟩ rfl rfl (by decide) hok hrun (by decide)
  obtain ⟨l', hlater⟩ := Call.succeeds_of_isOk (c := laterFeeCall) (by decide +kernel)
  obtain rfl : laterFeeLedger = l' := execute_of_process hlater
  obtain ⟨v', hv', hsame, hnew⟩ := hnotice (.plain 8) 400 10 laterFeeCall.accounts laterFeeLedger
    (by decide) rfl hlater
  obtain ⟨v'', hv'', hfrom⟩ := hnew _ _
    (feeRun_replay laterFeeLedger
      (by simp [renounceCalls, TokenInstruction.isInitializeTransferFeeConfig])
      (by decide +kernel : replayRecord .refusing _ renounceCalls laterFeeLedger = []))
  refine ⟨v, hv, ?_, v', hv', hsame 8 (Or.inl rfl), hsame 9 (Or.inr (by decide)), v'', hv'',
    hfrom 10 (by decide)⟩
  rcases hterms 7 (by decide) with h | ⟨s, hs, hepoch, h⟩
  · exact Or.inl h
  · simp only [List.mem_cons, List.not_mem_nil, or_false] at hs
    rcases hs with rfl | rfl
    · exact Or.inr h
    · exact absurd hepoch (by decide)

end BarkToken
