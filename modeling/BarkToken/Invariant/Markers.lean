import BarkToken.Invariant.Accounts
import BarkToken.Invariant.Mints

/-!
# Extensions that accounts carry for their mint

A mint with transfer fees, a transfer hook or without transfers marks its
accounts when they are created, and no instruction takes a marker away. A marker
can only be missing where a mint is created at an address that accounts name
already.
-/

namespace BarkToken
open Fallible AccountData

/-! ### Extensions of an account -/

/-- The extensions that instructions write into an initialised account. -/
def accountSettings : List ExtensionType :=
  [.memoTransfer, .cpiGuard, .confidentialTransferAccount, .confidentialTransferFeeAmount,
    .transferFeeAmount, .transferHookAccount]

section Changes

variable {c : Call} {k : Pubkey} {lamports lamports' : UInt64}
  {s s' : PodStateWithExtensions PodAccount}

theorem AccountUpdate.changesOnly (h : AccountUpdate c k lamports' s s') :
    Tlv.ChangesOnly [.memoTransfer, .cpiGuard] s.tlv s'.tlv := by
  cases h with
  | memo => exact Tlv.ChangesOnly.put (t := .memoTransfer) _ _ (by simp)
  | guard => exact Tlv.ChangesOnly.put (t := .cpiGuard) _ _ (by simp)
  | _ => exact .refl _ _

theorem ConfidentialStep.changesOnly (h : ConfidentialStep c s s') :
    Tlv.ChangesOnly accountSettings s.tlv s'.tlv := by
  cases h with
  | configure _ _ _ _ _ _ _ _ _ htlv => exact htlv.mono (by simp [accountSettings])
  | update _ _ hs =>
    rw [hs]
    exact Tlv.ChangesOnly.put (t := .confidentialTransferAccount) _ _ (by simp [accountSettings])

theorem AccountStep.changesOnly (h : AccountStep c lamports lamports' s s') :
    Tlv.ChangesOnly accountSettings s.tlv s'.tlv := by
  cases h with
  | debit _ _ _ _ _ _ _ htlv => exact htlv.mono (by simp [accountSettings])
  | credit _ _ _ _ _ _ htlv => exact htlv.mono (by simp [accountSettings])
  | move _ _ _ _ _ _ htlv => exact htlv.mono (by simp [accountSettings])
  | harvested _ _ _ htlv => exact htlv.mono (by simp [accountSettings])

/-- An instruction only writes settings into the extensions of an account, and
takes none away. -/
theorem AccountChange.changesOnly (h : AccountChange c k lamports lamports' s s') :
    Tlv.ChangesOnly accountSettings s.tlv s'.tlv := by
  cases h with
  | update _ h => exact h.changesOnly.mono (by simp [accountSettings])
  | confidential _ h => exact h.changesOnly
  | moved h => exact h.changesOnly
  | _ => exact .refl _ _

theorem AccountChange.keeps (h : AccountChange c k lamports lamports' s s') {t : ExtensionType}
    (ht : s.hasExtension t) : s'.hasExtension t := h.changesOnly.isSome_of_isSome ht

theorem AccountChange.marker_iff (h : AccountChange c k lamports lamports' s s') :
    s'.hasExtension .nonTransferableAccount ↔ s.hasExtension .nonTransferableAccount := by
  rw [PodStateWithExtensions.hasExtension, h.changesOnly.get _ (by simp [accountSettings]),
    PodStateWithExtensions.hasExtension]

end Changes

/-! ### Markers -/

/-- The account carries all that the mint asks its accounts for. -/
structure Marked (m : PodStateWithExtensions PodMint) (s : PodStateWithExtensions PodAccount) :
    Prop where
  transferFee : m.hasExtension .transferFeeConfig → s.hasExtension .transferFeeAmount
  nonTransferable : m.hasExtension .nonTransferable →
    s.hasExtension .nonTransferableAccount ∧ s.hasExtension .immutableOwner
  transferHook : m.hasExtension .transferHook → s.hasExtension .transferHookAccount

/-- Those are the extensions that `InitializeAccount` adds. -/
theorem marked_of_required {m : PodStateWithExtensions PodMint} {s : PodStateWithExtensions PodAccount}
    (h : ∀ t ∈ ExtensionType.requiredInitAccountExtensions m.extensionTypes, s.hasExtension t) :
    Marked m s := by
  have hmem {u t : ExtensionType} (hu : m.hasExtension u)
      (ht : t ∈ ExtensionType.requiredInitAccountExtensions [u]) : s.hasExtension t := by
    refine h t (List.mem_flatMap.mpr ⟨u, TypedStore.mem_tags_iff.mpr hu, ?_⟩)
    simpa [ExtensionType.requiredInitAccountExtensions] using ht
  exact ⟨fun hu => hmem hu (by decide), fun hu => ⟨hmem hu (by decide), hmem hu (by decide)⟩,
    fun hu => hmem hu (by decide)⟩

theorem Marked.congr {m m' : PodStateWithExtensions PodMint} {s s' : PodStateWithExtensions PodAccount}
    (h : Marked m s)
    (hm : ∀ t ∈ [ExtensionType.transferFeeConfig, .nonTransferable, .transferHook],
      m'.hasExtension t → m.hasExtension t)
    (hs : ∀ t, s.hasExtension t → s'.hasExtension t) : Marked m' s' where
  transferFee ht := hs _ (h.transferFee (hm _ (by simp) ht))
  nonTransferable ht := by
    obtain ⟨hmarker, howner⟩ := h.nonTransferable (hm _ (by simp) ht)
    exact ⟨hs _ hmarker, hs _ howner⟩
  transferHook ht := hs _ (h.transferHook (hm _ (by simp) ht))

/-- A mint gets none of the three extensions once it is initialised. -/
theorem MintStep.restricts {c : Call} {M : Pubkey} {m m' : PodStateWithExtensions PodMint}
    (h : MintStep c M m m') (t : ExtensionType)
    (ht : t ∈ [ExtensionType.transferFeeConfig, .nonTransferable, .transferHook])
    (hm : m'.hasExtension t) : m.hasExtension t := by
  rcases h.adds t hm with hold | ⟨p, hp, -⟩
  · exact hold
  · simp only [List.mem_cons, List.not_mem_nil, or_false] at ht
    rcases ht with rfl | rfl | rfl <;> cases hp

/-- Every account of `M` carries what the mint that is there asks for. -/
def AccountsMarked (M : Pubkey) (l : Ledger) : Prop :=
  ∀ k s m, AccountAt l k s → s.base.mint = M → MintAt l M m → Marked m s

/-- `InitializeMint` makes a mint of the data at `M` although some account that
names it lacks a marker that the new mint asks for. -/
def Call.LeavesUnmarked (c : Call) (M : Pubkey) : Prop :=
  (∃ d a f rent, c.ix = .initializeMint d a f rent) ∧ c.key 0 = some M ∧
    ∃ k s base len tlv, AccountAt c.ledger k s ∧ s.base.mint = M ∧
      (c.ledger M).data = .zeroed len tlv ∧ ¬ Marked ⟨base, len, tlv⟩ s

section Step

variable {c : Call} {M : Pubkey} {l l' : Ledger}

theorem Call.process_accountsMarked (hl : WellFormedLedger c.ledger) (h : c.process = .ok l')
    (hmarks : ¬ c.LeavesUnmarked M) (hmarked : AccountsMarked M c.ledger) : AccountsMarked M l' := by
  intro k s' m' hs' hmint hm'
  rcases (Call.process_recordStep hl h M).mint_origin hm'.owner hm'.data with
    ⟨m, howner, hdata, hm⟩ | ⟨-, hnew⟩ | ⟨-, -, rfl⟩
  · -- An old mint: the account was marked before, or is made for this mint.
    have hrestricts : ∀ t ∈ [ExtensionType.transferFeeConfig, .nonTransferable, .transferHook],
        m'.hasExtension t → m.hasExtension t := by
      rcases hm with rfl | hm
      · exact fun _ _ => id
      · exact hm.restricts
    rcases Call.process_account_origin hl h hs' with
      ⟨s, hs, hsame, hchange⟩ | ⟨len, tlv, mint, -, -, -, hnew⟩
    · exact (hmarked k s m hs (hsame.symm.trans hmint) ⟨howner, hdata⟩).congr hrestricts
        fun t => hchange.keeps
    · obtain rfl := (hmint ▸ hnew.mintAt).unique ⟨howner, hdata⟩
      exact (marked_of_required hnew.required).congr hrestricts fun _ => id
  · -- A new mint: no account can be made for it in the same instruction.
    rcases Call.process_account_origin hl h hs' with
      ⟨s, hs, hsame, hchange⟩ | ⟨len, tlv, mint, -, -, -, hnew'⟩
    · refine Marked.congr ?_ (fun _ _ => id) (fun t => hchange.keeps)
      by_contra hunmarked
      exact hmarks ⟨hnew.instruction, hnew.key, k, s, m'.base, m'.len, m'.tlv, hs,
        hsame.symm.trans hmint, hnew.data, hunmarked⟩
    · have hold : MintAt c.ledger M mint := hmint ▸ hnew'.mintAt
      exact absurd (hold.data.symm.trans hnew.data) (by simp)
  · refine ⟨fun ht => ?_, fun ht => ?_, fun ht => ?_⟩ <;>
      simp [PodStateWithExtensions.hasExtension] at ht

theorem ForeignStep.accountsMarked (h : ForeignStep l l') (hmarked : AccountsMarked M l) :
    AccountsMarked M l' := fun k s m hs hmint hm =>
  hmarked k s m (h.accountAt hs) hmint (h.mintAt_of hm)

theorem Genesis.accountsMarked (h : Genesis l) : AccountsMarked M l := by
  intro k s m hs
  obtain ⟨len, hzero⟩ := h.zeroed k hs.owner
  exact absurd (hzero.symm.trans hs.data) (by simp)

end Step

end BarkToken
