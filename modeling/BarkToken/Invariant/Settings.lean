import BarkToken.Invariant.Mints

/-!
# The extensions of a mint, from before it is initialised

A setting of a mint is written into zeroed data first, and `InitializeMint` takes it
over; from then on only the steps of a mint change it.
-/

namespace BarkToken
open Fallible AccountData

/-- The value of a mint's extension at an address, before or after `InitializeMint`. -/
inductive ExtensionAt (l : Ledger) (M : Pubkey) (t : ExtensionType) (v : t.Value) : Prop
  | fresh {len tlv} (howner : (l M).owner = programId) (hdata : (l M).data = .zeroed len tlv)
      (hlen : len ≠ multisigLen) (hget : tlv.get t = some v)
  | mint {m} (hm : MintAt l M m) (hget : m.tlv.get t = some v)

variable {M : Pubkey} {l l' : Ledger} {t : ExtensionType} {v : t.Value}

theorem ExtensionAt.unique {v' : t.Value} (h : ExtensionAt l M t v) (h' : ExtensionAt l M t v') :
    v = v' := by
  cases h with
  | fresh _ hdata _ hget =>
    cases h' with
    | fresh _ hdata' _ hget' =>
      obtain ⟨-, rfl⟩ := AccountData.zeroed.inj (hdata.symm.trans hdata')
      exact Option.some.inj (hget.symm.trans hget')
    | mint hm => exact absurd (hdata.symm.trans hm.data) (by simp)
  | mint hm hget =>
    cases h' with
    | fresh _ hdata' => exact absurd (hdata'.symm.trans hm.data) (by simp)
    | mint hm' hget' =>
      obtain rfl := hm.unique hm'
      exact Option.some.inj (hget.symm.trans hget')

theorem ExtensionAt.congr (h : ExtensionAt l M t v) (hsame : l' M = l M) : ExtensionAt l' M t v := by
  cases h with
  | fresh howner hdata hlen hget => exact .fresh (hsame ▸ howner) (hsame ▸ hdata) hlen hget
  | mint hm hget => exact .mint ⟨hsame ▸ hm.owner, hsame ▸ hm.data⟩ hget

theorem ForeignStep.extensionAt (h : ForeignStep l l') (hv : ExtensionAt l M t v) :
    ExtensionAt l' M t v := by
  cases hv with
  | fresh howner hdata hlen hget =>
    obtain ⟨howner', hdata', -⟩ := (h M).keeps howner
    exact .fresh howner' (hdata'.trans hdata) hlen hget
  | mint hm hget => exact .mint (h.mintAt hm) hget

/-- The extensions that the instruction does not write ahead of a mint: one type among
the two whose initialisation is told apart. -/
def Call.Spares (c : Call) (t : ExtensionType) : Prop :=
  ∀ u, (u = .transferFeeConfig → c.ix.isInitializeTransferFeeConfig = true) →
    (u = .interestBearingConfig → c.ix.isInitializeInterestBearingMint = true) → u ≠ t

/-- Zeroed data with a setting keeps it until a mint is made of it. -/
theorem NeutralStep.extensionAt {c : Call} {len : ℕ} {tlv : Tlv} (hl : WellFormedLedger c.ledger)
    (h : NeutralStep c M (c.ledger M) (l' M)) (howner : (c.ledger M).owner = programId)
    (hdata : (c.ledger M).data = .zeroed len tlv) (hlen : len ≠ multisigLen)
    (hget : tlv.get t = some v) (ht : t.accountType = .mint) (hspares : c.Spares t) :
    ExtensionAt l' M t v := by
  cases h with
  | foreign h =>
    obtain ⟨howner', hdata', -⟩ := h.keeps howner
    exact .fresh howner' (hdata'.trans hdata) hlen hget
  | @extend _ _ u w _ howner' hd hd' _ _ hfee _ hinterest =>
    obtain ⟨rfl, rfl⟩ := AccountData.zeroed.inj (hd.symm.trans hdata)
    have hne : u ≠ t := hspares u hfee hinterest
    exact .fresh howner' hd' hlen ((TypedStore.get_put_of_ne _ w (Ne.symm hne)).trans hget)
  | initMint _ _ _ howner' hd hd' =>
    obtain ⟨rfl, rfl⟩ := AccountData.zeroed.inj (hd.symm.trans hdata)
    exact .mint ⟨howner', hd'⟩ hget
  | initAccount _ _ hd _ hhead =>
    -- A mint extension in first place rules an account out.
    obtain ⟨rfl, rfl⟩ := AccountData.zeroed.inj (hd.symm.trans hdata)
    have hkind := ((hl M).of_zeroed howner hdata).2.kinds_of_head hhead t
      (Option.isSome_of_eq_some hget)
    exact absurd (ht.symm.trans hkind) (by decide)
  | initMultisig _ _ _ _ hd =>
    rcases hd with ⟨tlv', hd⟩ | ⟨m, hd, -⟩
    · exact absurd (AccountData.zeroed.inj (hd.symm.trans hdata)).1.symm hlen
    · exact absurd (hd.symm.trans hdata) (by simp)
  | withdrawExcess _ howner' hd => exact .fresh howner' (hd.trans hdata) hlen hget
  | createNativeMint _ hsystem =>
    exact absurd (howner.symm.trans hsystem) programId_ne_systemProgram
  | account _ _ hd => exact absurd (hd.symm.trans hdata) (by simp)
  | sync _ _ hd => exact absurd (hd.symm.trans hdata) (by simp)
  | mint _ _ hd => exact absurd (hd.symm.trans hdata) (by simp)

/-- A setting after an instruction that does not write it anew: what the steps of a
mint make of it. -/
theorem Call.process_extensionAt {c : Call} (R : t.Value → Prop) (hl : WellFormedLedger c.ledger)
    (h : c.process = .ok l') (hv : ExtensionAt c.ledger M t v) (ht : t.accountType = .mint)
    (hspares : c.Spares t) (hclose : ¬ c.ClosesMint M) (hrefl : R v)
    (hstep : ∀ m m', m.tlv.get t = some v → MintStep c M m m' → ∃ v', m'.tlv.get t = some v' ∧ R v') :
    ∃ v', ExtensionAt l' M t v' ∧ R v' := by
  cases hv with
  | fresh howner hdata hlen hget =>
    cases Call.process_recordStep hl h M with
    | locally hlocal =>
      cases hlocal with
      | neutral hneutral =>
        exact ⟨v, hneutral.extensionAt hl howner hdata hlen hget ht hspares, hrefl⟩
      | confidential _ _ hd => exact absurd (hd.symm.trans hdata) (by simp)
    | account _ _ hd => exact absurd (hd.symm.trans hdata) (by simp)
    | mint _ _ hd => exact absurd (hd.symm.trans hdata) (by simp)
    | close hix hkey =>
      rcases Call.process_closes h ⟨hix, hkey⟩ with ⟨s, hs, -⟩ | ⟨m, hm⟩
      · exact absurd (hs.data.symm.trans hdata) (by simp)
      · exact absurd (hm.data.symm.trans hdata) (by simp)
  | mint hm hget =>
    obtain ⟨m', hm', rfl | hchange⟩ := Call.process_mintAt hl h hm hclose
    · exact ⟨v, .mint hm' hget, hrefl⟩
    · obtain ⟨v', hget', hR⟩ := hstep _ _ hget hchange
      exact ⟨v', .mint hm' hget', hR⟩

end BarkToken
