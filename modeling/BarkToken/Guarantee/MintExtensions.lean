import BarkToken.Bytes.TlvRun
import BarkToken.Invariant.Mints
import BarkToken.Program.Replay

/-!
# The extensions of a mint (processor.rs:65-108, extension/mod.rs:1291-1320,
extension/token_group/processor.rs:47-205, extension/transfer_fee/processor.rs:28-112)

`InitializeMint` checks the combination of the extensions once. What is written
before comes in any order, what comes later is a metadata, group or member entry
whose pointer is there, so the combination holds for as long as the mint does.
-/

namespace BarkToken
open Fallible AccountData

/-! ### Coherence -/

/-- The extensions of a mint fit together. -/
structure CoherentMint (m : PodStateWithExtensions PodMint) : Prop where
  nodup : m.extensionTypes.Nodup
  kinds : ∀ t ∈ m.extensionTypes, t.accountType = .mint
  confidentialFee : .confidentialTransferFeeConfig ∈ m.extensionTypes ↔
    .transferFeeConfig ∈ m.extensionTypes ∧ .confidentialTransferMint ∈ m.extensionTypes
  metadata : .tokenMetadata ∈ m.extensionTypes → .metadataPointer ∈ m.extensionTypes
  group : .tokenGroup ∈ m.extensionTypes → .groupPointer ∈ m.extensionTypes
  member : .tokenGroupMember ∈ m.extensionTypes → .groupMemberPointer ∈ m.extensionTypes
  rates : ∀ v, m.tlv.get .transferFeeConfig = some v →
    v.olderTransferFee.transferFeeBasisPoints.toNat ≤ maxFeeBasisPoints ∧
      v.newerTransferFee.transferFeeBasisPoints.toNat ≤ maxFeeBasisPoints

/-- What the checks of well-formed mints leave to show. -/
structure Combined (m : PodStateWithExtensions PodMint) : Prop where
  confidentialFee : m.hasExtension .confidentialTransferFeeConfig ↔
    m.hasExtension .transferFeeConfig ∧ m.hasExtension .confidentialTransferMint
  pointed : ∀ t p : ExtensionType, t.pointer = some p → m.hasExtension t → m.hasExtension p

section

variable {m m' : PodStateWithExtensions PodMint} {c : Call} {k : Pubkey}

theorem mem_extensionTypes {t : ExtensionType} : t ∈ m.extensionTypes ↔ m.hasExtension t :=
  TypedStore.mem_tags_iff

theorem Combined.coherent (h : Combined m) (hm : WellFormedMint k m) : CoherentMint m where
  nodup := hm.valid.nodup
  kinds t ht := hm.kinds t (mem_extensionTypes.mp ht)
  confidentialFee := by
    simp only [mem_extensionTypes]
    exact h.confidentialFee
  metadata ht := mem_extensionTypes.mpr (h.pointed _ _ rfl (mem_extensionTypes.mp ht))
  group ht := mem_extensionTypes.mpr (h.pointed _ _ rfl (mem_extensionTypes.mp ht))
  member ht := mem_extensionTypes.mpr (h.pointed _ _ rfl (mem_extensionTypes.mp ht))
  rates v hv := ⟨(hm.valid.rates v hv).older, (hm.valid.rates v hv).newer⟩

theorem Combined.of_nil (h : m.tlv = []) : Combined m := by
  have hnone : ∀ t, ¬ m.hasExtension t := fun t => by
    rw [PodStateWithExtensions.hasExtension, h]
    exact Bool.false_ne_true
  exact ⟨⟨fun ht => absurd ht (hnone _), fun ht => absurd ht.1 (hnone _)⟩,
    fun t _ _ ht => absurd ht (hnone t)⟩

/-- An instruction adds no extension but where a pointer is. -/
theorem MintStep.combined (hstep : MintStep c k m m') (h : Combined m) : Combined m' := by
  have hsame : ∀ t : ExtensionType, t.pointer = none →
      (m'.hasExtension t ↔ m.hasExtension t) := by
    intro t ht
    refine ⟨fun hnew => (hstep.adds t hnew).resolve_right ?_, hstep.keeps t⟩
    rintro ⟨p, hp, _⟩
    rw [ht] at hp
    cases hp
  refine ⟨?_, fun t p hp ht => hstep.keeps p ?_⟩
  · rw [hsame _ rfl, hsame _ rfl, hsame _ rfl]
    exact h.confidentialFee
  · rcases hstep.adds t ht with hold | ⟨q, hq, hpointer⟩
    · exact h.pointed t p hp hold
    · obtain rfl := Option.some.inj (hq.symm.trans hp)
      exact hpointer

/-- `InitializeMint` checks the combination, and finds nothing that a pointer
is for. -/
theorem NewMint.combined {r : AccountRecord} (h : NewMint c k r m) (hfresh : FreshData m.tlv) :
    Combined m := by
  have hcheck := h.combination
  simp only [checkForInvalidMintExtensionCombinations, ensure_bind_eq_ok, ensure_eq_ok,
    mem_extensionTypes] at hcheck
  obtain ⟨hneeds, hforces⟩ := hcheck
  refine ⟨⟨fun hfee => ?_, fun hboth => ?_⟩, fun t p hp ht => ?_⟩
  · by_contra hmissing
    exact hneeds ⟨hfee, hmissing⟩
  · by_contra hmissing
    exact hforces ⟨hboth.1, hboth.2, hmissing⟩
  · have hnone := hfresh.unpointed t (Option.isSome_of_eq_some hp)
    rw [PodStateWithExtensions.hasExtension, hnone] at ht
    cases ht

end

/-! ### Every reachable state -/

theorem Reachable.mintsCombined {x : Externals} {l : Ledger} (h : Reachable x l) {k : Pubkey}
    {m : PodStateWithExtensions PodMint} (hm : MintAt l k m) : Combined m :=
  h.every_mint Combined (fun _ _ _ _ hfresh hnew => hnew.combined hfresh) (.of_nil rfl)
    (fun _ _ _ _ hstep => hstep.combined) k m hm

/-- In every reachable state the extensions of every mint fit together, and
`get_extension_types` lists them from any TLV area that holds them. -/
theorem mint_extensions_coherent {x : Externals} {l : Ledger} (h : Reachable x l) {k : Pubkey}
    {m : PodStateWithExtensions PodMint} (hm : MintAt l k m) :
    CoherentMint m ∧
    (∀ entries b, TypedStore.tags entries = m.extensionTypes → Bytes.Layout .mint entries b →
      ∃ usedLen, Bytes.getTlvDataInfo b = .ok ⟨m.extensionTypes, usedLen⟩) ∧
    ∀ n cs b, (TlvCall.runAll .mint cs).run (List.replicate n 0) = (.ok (), b) →
      ∃ types usedLen, Bytes.getTlvDataInfo b = .ok ⟨types, usedLen⟩ ∧ types.Nodup ∧
        ∀ t ∈ types, t.accountType = .mint := by
  refine ⟨(h.mintsCombined hm).coherent ((h.wellFormed k).of_mint hm.owner hm.data), ?_, ?_⟩
  · intro entries b htags hlayout
    exact ⟨_, htags ▸ hlayout.holds.getTlvDataInfo_eq⟩
  · intro n cs b hrun
    obtain ⟨entries, hlayout⟩ := TlvCall.runAll_layout (.zeroes .mint n) hrun
    exact ⟨_, _, hlayout.holds.getTlvDataInfo_eq, hlayout.nodup, hlayout.base⟩

/-- A mint with a transfer fee. -/
theorem mint_extensions_coherent_supply :
    MintAt supplyLedger ⟨1⟩ supplyMint ∧ supplyMint.hasExtension .transferFeeConfig ∧
      CoherentMint supplyMint := by
  have hm : MintAt supplyLedger ⟨1⟩ supplyMint := ⟨by decide +kernel, by decide +kernel⟩
  exact ⟨hm, by decide,
    (mint_extensions_coherent (blankSupplyLedger_genesis.reachable_replay supplyCalls) hm).1⟩

end BarkToken
