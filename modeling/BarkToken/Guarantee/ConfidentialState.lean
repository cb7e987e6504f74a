import BarkToken.Conservation.Exponent
import BarkToken.Invariant.Markers

/-!
# Confidential accounts along a run (extension/confidential_transfer/mod.rs:136-209,
extension/confidential_transfer/processor.rs:94-327, 735-1008,
extension/confidential_transfer_fee/processor.rs:118-171)

A credit is checked against the maximum before it is counted, and only an
approved account is credited. Whatever is not counted leaves the pending balances
alone.
-/

namespace BarkToken
open Fallible CheckedWord

/-- Adding zeroes to zero gives zero. -/
structure ZkOps.KeepsZero (zk : ZkOps) : Prop where
  addWithLoHi : ∀ c, zk.addWithLoHi .zeroed .zeroed .zeroed = some c → c = .zeroed

namespace ConfidentialTransferAccount

/-- The counter is within its maximum, what has been counted is all that is
pending, and an account that is not approved is empty. -/
structure Bounded (e : ConfidentialTransferAccount) : Prop where
  counter : e.pendingBalanceCreditCounter ≤ e.maximumPendingBalanceCreditCounter
  pending : e.pendingBalanceCreditCounter = 0 →
    e.pendingBalanceLo = .zeroed ∧ e.pendingBalanceHi = .zeroed
  unapproved : ¬ e.approved = true →
    e.pendingBalanceLo = .zeroed ∧ e.pendingBalanceHi = .zeroed ∧ e.availableBalance = .zeroed

/-- What `ConfigureAccount` has set for good. -/
structure SameSettings (e e' : ConfidentialTransferAccount) : Prop where
  elgamalPubkey : e'.elgamalPubkey = e.elgamalPubkey
  maximum : e'.maximumPendingBalanceCreditCounter = e.maximumPendingBalanceCreditCounter

/-- One more credit has been counted. -/
structure Counted (e e' : ConfidentialTransferAccount) : Prop extends SameSettings e e' where
  approved : e'.approved = e.approved
  counter : e'.pendingBalanceCreditCounter.toNat = e.pendingBalanceCreditCounter.toNat + 1

variable {zk : ZkOps} {e e' : ConfidentialTransferAccount}

theorem validAsSource_eq_ok : e.validAsSource = .ok () ↔ e.approved = true := ensure_eq_ok

theorem validAsDestination_eq_ok (h : e.validAsDestination = .ok ()) : e.approved = true ∧
    e.pendingBalanceCreditCounter.toNat + 1 ≤ e.maximumPendingBalanceCreditCounter.toNat := by
  simp only [validAsDestination, bind_eq_ok, exists_unit, okOr_eq_ok, ensure_eq_ok] at h
  obtain ⟨happroved, -, counter, hcounter, hle⟩ := h
  refine ⟨happroved, ?_⟩
  rw [← show counter.toNat = e.pendingBalanceCreditCounter.toNat + 1 from
    checkedAdd_eq_some.mp hcounter]
  exact UInt64.le_iff_toNat_le.mp hle

/-- A counted credit of a valid destination stays within the maximum. -/
theorem Counted.bounded (h : Counted e e') (hvalid : e.validAsDestination = .ok ()) :
    e'.Bounded := by
  obtain ⟨happroved, hroom⟩ := validAsDestination_eq_ok hvalid
  refine ⟨?_, fun hzero => ?_, fun hnot => absurd (h.approved.trans happroved) hnot⟩
  · rw [UInt64.le_iff_toNat_le, h.counter, h.maximum]
    exact hroom
  · have hcounter := h.counter
    rw [hzero] at hcounter
    exact absurd hcounter.symm (Nat.succ_ne_zero _)

theorem deposited_counted {amount : UInt64} (h : e.deposited zk amount = .ok e') :
    e.validAsDestination = .ok () ∧ Counted e e' := by
  simp only [deposited, incrementPendingBalanceCreditCounter, bind_eq_ok, exists_unit, Prod.exists,
    okOr_eq_ok, pure_eq_ok] at h
  obtain ⟨hvalid, lo, hi, -, a, -, b, -, counter, hcounter, rfl⟩ := h
  exact ⟨hvalid, ⟨rfl, rfl⟩, rfl, checkedAdd_eq_some.mp hcounter⟩

theorem credited_counted {p : TransferParts} (h : e.credited zk p = .ok e') : Counted e e' := by
  simp only [credited, incrementPendingBalanceCreditCounter, bind_eq_ok, exists_unit, okOr_eq_ok,
    pure_eq_ok] at h
  obtain ⟨-, a, -, b, -, counter, hcounter, rfl⟩ := h
  exact ⟨⟨rfl, rfl⟩, rfl, checkedAdd_eq_some.mp hcounter⟩

/-- A fee taken out of a counted credit. -/
theorem Counted.charged {e₁ : ConfidentialTransferAccount} {lo hi : FeeEncryption}
    (h : Counted e e₁) (hcharged : e₁.charged zk lo hi = .ok e') : Counted e e' := by
  simp only [ConfidentialTransferAccount.charged, bind_eq_ok, pure_eq_ok] at hcharged
  obtain ⟨a, -, b, -, rfl⟩ := hcharged
  exact ⟨⟨h.elgamalPubkey, h.maximum⟩, h.approved, h.counter⟩

/-- Nothing but the available balance and what the owner can decrypt of it. -/
structure AvailableOnly (e e' : ConfidentialTransferAccount) : Prop extends SameSettings e e' where
  approved : e'.approved = e.approved
  allowConfidentialCredits : e'.allowConfidentialCredits = e.allowConfidentialCredits
  counter : e'.pendingBalanceCreditCounter = e.pendingBalanceCreditCounter
  pendingLo : e'.pendingBalanceLo = e.pendingBalanceLo
  pendingHi : e'.pendingBalanceHi = e.pendingBalanceHi

/-- An approved account may have any available balance. -/
theorem AvailableOnly.bounded (h : AvailableOnly e e') (happroved : e.approved = true)
    (he : e.Bounded) : e'.Bounded where
  counter := by
    rw [h.counter, h.maximum]
    exact he.counter
  pending hzero := by
    rw [h.pendingLo, h.pendingHi]
    exact he.pending (h.counter ▸ hzero)
  unapproved hnot := absurd (h.approved.trans happroved) hnot

theorem AvailableOnly.validAsDestination (h : AvailableOnly e e') :
    e'.validAsDestination = e.validAsDestination := by
  rw [ConfidentialTransferAccount.validAsDestination, h.approved, h.allowConfidentialCredits,
    h.counter, h.maximum]
  rfl

theorem debited_availableOnly {p : TransferParts} {balance : AeCiphertext}
    (h : e.debited zk p balance = .ok e') : AvailableOnly e e' := by
  simp only [debited, bind_eq_ok, exists_unit, pure_eq_ok] at h
  obtain ⟨-, a, -, -, rfl⟩ := h
  exact ⟨⟨rfl, rfl⟩, rfl, rfl, rfl, rfl, rfl⟩

theorem withdrawn_availableOnly {amount : UInt64} {p : WithdrawProofContext}
    {balance : AeCiphertext} (h : e.withdrawn zk amount p balance = .ok e') :
    e.validAsSource = .ok () ∧ AvailableOnly e e' := by
  simp only [withdrawn, bind_eq_ok, exists_unit, pure_eq_ok] at h
  obtain ⟨hvalid, -, a, -, -, rfl⟩ := h
  exact ⟨hvalid, ⟨rfl, rfl⟩, rfl, rfl, rfl, rfl, rfl⟩

theorem paidWithheld_availableOnly {p : CiphertextCiphertextEqualityProofContext}
    {feeConfig : ConfidentialTransferFeeConfig} {withheldAmount : ElGamalCiphertext}
    {balance : AeCiphertext} (h : e.paidWithheld zk p feeConfig withheldAmount balance = .ok e') :
    AvailableOnly e e' := by
  simp only [paidWithheld, bind_eq_ok, exists_unit, pure_eq_ok] at h
  obtain ⟨-, -, -, a, -, rfl⟩ := h
  exact ⟨⟨rfl, rfl⟩, rfl, rfl, rfl, rfl, rfl⟩

theorem emptied_bounded {p : ZeroBalanceProofContext} (h : e.emptied p = .ok e')
    (he : e.Bounded) : AvailableOnly e e' ∧ e'.Bounded := by
  simp only [emptied, bind_eq_ok, exists_unit, ensure_eq_ok, pure_eq_ok] at h
  obtain ⟨-, -, hclosable, rfl⟩ := h
  exact ⟨⟨⟨rfl, rfl⟩, rfl, rfl, rfl, rfl, rfl⟩, he.counter, he.pending, fun _ => hclosable⟩

theorem applied_bounded (hzero : zk.KeepsZero) {counter : UInt64} {balance : AeCiphertext}
    (h : e.applied zk counter balance = .ok e') (he : e.Bounded) :
    SameSettings e e' ∧ e'.approved = e.approved ∧ e'.Bounded := by
  simp only [applied, bind_eq_ok, okOr_eq_ok, pure_eq_ok] at h
  obtain ⟨a, ha, rfl⟩ := h
  refine ⟨⟨rfl, rfl⟩, rfl, UInt64.zero_le, fun _ => ⟨rfl, rfl⟩, fun hnot => ⟨rfl, rfl, ?_⟩⟩
  obtain ⟨hlo, hhi, havailable⟩ := he.unapproved hnot
  rw [hlo, hhi, havailable] at ha
  exact hzero.addWithLoHi a ha

end ConfidentialTransferAccount

open ConfidentialTransferAccount

/-- The authority that the mint's confidential extension names has signed an
`ApproveAccount`. -/
def Call.ApprovesFor (c : Call) (mintKey : Pubkey) : Prop :=
  c.ix = .approveAccount ∧ ∃ v key, c.FindsConfidentialMint mintKey v ∧
    v.authority.toOption = some key ∧ c.SignedBy key

/-- The extension of an account before and after an instruction. -/
structure ConfidentialChange (c : Call) (mintKey : Pubkey) (e e' : ConfidentialTransferAccount) :
    Prop extends SameSettings e e' where
  approved : e'.approved = e.approved ∨ e'.approved = true ∧ c.ApprovesFor mintKey

/-! ### One account in one instruction -/

section

variable {c : Call} {base : PodAccount} {e e' : ConfidentialTransferAccount} {k : Pubkey}
  {lamports lamports' : UInt64} {s s' : PodStateWithExtensions PodAccount}

theorem ConfidentialUpdate.change {amount : UInt64} (hzero : c.x.zk.KeepsZero)
    (h : ConfidentialUpdate c base e e' amount) (he : e.Bounded) :
    ConfidentialChange c base.mint e e' ∧ e'.Bounded := by
  cases h with
  | approved hmint hkey hsigned hix =>
    exact ⟨⟨⟨rfl, rfl⟩, Or.inr ⟨rfl, hix, _, _, hmint, hkey, hsigned⟩⟩, he.counter, he.pending,
      fun hnot => absurd rfl hnot⟩
  | allowConfidentialCredits =>
    exact ⟨⟨⟨rfl, rfl⟩, Or.inl rfl⟩, he.counter, he.pending, he.unapproved⟩
  | allowNonConfidentialCredits =>
    exact ⟨⟨⟨rfl, rfl⟩, Or.inl rfl⟩, he.counter, he.pending, he.unapproved⟩
  | emptied _ _ h =>
    obtain ⟨hsame, hbounded⟩ := emptied_bounded h he
    exact ⟨⟨hsame.toSameSettings, Or.inl hsame.approved⟩, hbounded⟩
  | applied _ _ h =>
    obtain ⟨hsame, happroved, hbounded⟩ := applied_bounded hzero h he
    exact ⟨⟨hsame, Or.inl happroved⟩, hbounded⟩
  | deposited _ _ _ _ _ _ h =>
    obtain ⟨hvalid, hcounted⟩ := deposited_counted h
    exact ⟨⟨hcounted.toSameSettings, Or.inl hcounted.approved⟩, hcounted.bounded hvalid⟩
  | withdrawn _ _ _ _ _ _ h =>
    obtain ⟨hvalid, hsame⟩ := withdrawn_availableOnly h
    exact ⟨⟨hsame.toSameSettings, Or.inl hsame.approved⟩,
      hsame.bounded (validAsSource_eq_ok.mp hvalid) he⟩

theorem ConfidentialMove.change (h : ConfidentialMove c base e e') (he : e.Bounded) :
    ConfidentialChange c base.mint e e' ∧ e'.Bounded := by
  cases h with
  | debited _ _ _ h hvalid =>
    have hsame := debited_availableOnly h
    exact ⟨⟨hsame.toSameSettings, Or.inl hsame.approved⟩,
      hsame.bounded (validAsSource_eq_ok.mp hvalid) he⟩
  | credited _ _ _ h hvalid =>
    have hcounted := credited_counted h
    exact ⟨⟨hcounted.toSameSettings, Or.inl hcounted.approved⟩, hcounted.bounded hvalid⟩
  | charged _ _ _ _ h hcharged hvalid =>
    have hcounted := (credited_counted h).charged hcharged
    exact ⟨⟨hcounted.toSameSettings, Or.inl hcounted.approved⟩, hcounted.bounded hvalid⟩
  | selfTransferred _ _ _ _ h hcredited _ hvalid =>
    have hsame := debited_availableOnly h
    have hcounted := credited_counted hcredited
    exact ⟨⟨⟨hcounted.elgamalPubkey.trans hsame.elgamalPubkey,
      hcounted.maximum.trans hsame.maximum⟩, Or.inl (hcounted.approved.trans hsame.approved)⟩,
      hcounted.bounded hvalid⟩
  | paidWithheld _ hvalid h =>
    have hsame := paidWithheld_availableOnly h
    exact ⟨⟨hsame.toSameSettings, Or.inl hsame.approved⟩,
      hsame.bounded (validAsDestination_eq_ok hvalid).1 he⟩

/-- `ConfigureAccount` has made the extension of the account `s`. -/
def Call.Configures (c : Call) (s : PodStateWithExtensions PodAccount)
    (e : ConfidentialTransferAccount) : Prop :=
  s.tlv.get .confidentialTransferAccount = none ∧
    (∃ balance maximum offset, c.ix = .configureAccount balance maximum offset) ∧
    (e.approved = true → ∃ v, c.FindsConfidentialMint s.base.mint v ∧
      v.autoApproveNewAccounts = true)

/-- Where the extension of an account after an instruction comes from. -/
def ConfidentialOrigin (c : Call) (s : PodStateWithExtensions PodAccount)
    (e' : ConfidentialTransferAccount) : Prop :=
  c.Configures s e' ∨ ∃ e, s.tlv.get .confidentialTransferAccount = some e ∧
    ConfidentialChange c s.base.mint e e'

/-- The extension of an account, if it has one, is within its bounds. -/
def ConfidentialBounded (s : PodStateWithExtensions PodAccount) : Prop :=
  ∀ e, s.tlv.get .confidentialTransferAccount = some e → e.Bounded

theorem confidential_of_same (hs : ConfidentialBounded s)
    (hget : s'.tlv.get .confidentialTransferAccount = s.tlv.get .confidentialTransferAccount) :
    ∀ e', s'.tlv.get .confidentialTransferAccount = some e' →
      ConfidentialOrigin c s e' ∧ e'.Bounded := fun e' he' =>
  ⟨Or.inr ⟨e', hget ▸ he', ⟨rfl, rfl⟩, Or.inl rfl⟩, hs e' (hget ▸ he')⟩

theorem ConfidentialStep.origin (hzero : c.x.zk.KeepsZero) (h : ConfidentialStep c s s')
    (hs : ConfidentialBounded s) : ∀ e', s'.tlv.get .confidentialTransferAccount = some e' →
      ConfidentialOrigin c s e' ∧ e'.Bounded := by
  intro e' he'
  cases h with
  | configure _ hnone _ _ hget happroved hpending hcounters _ _ hix =>
    obtain rfl := Option.some.inj (hget.symm.trans he')
    refine ⟨Or.inl ⟨hnone, hix, happroved⟩, ?_, fun _ => ⟨hpending.1, hpending.2.1⟩,
      fun _ => hpending⟩
    rw [hcounters.1]
    exact UInt64.zero_le
  | update hget h hs' =>
    rw [hs', PodStateWithExtensions.setExtension_tlv, TypedStore.get_put_self] at he'
    obtain rfl := Option.some.inj he'
    obtain ⟨hchange, hbounded⟩ := h.change hzero (hs _ hget)
    exact ⟨Or.inr ⟨_, hget, hchange⟩, hbounded⟩

theorem AccountStep.confidentialOrigin (h : AccountStep c lamports lamports' s s')
    (hs : ConfidentialBounded s) : ∀ e', s'.tlv.get .confidentialTransferAccount = some e' →
      ConfidentialOrigin c s e' ∧ e'.Bounded := by
  cases h with
  | debit _ _ _ _ _ _ _ htlv => exact confidential_of_same hs (htlv.get _ (by simp))
  | credit _ _ _ _ _ _ htlv => exact confidential_of_same hs (htlv.get _ (by simp))
  | move _ hget hget' h =>
    intro e' he'
    obtain rfl := Option.some.inj (hget'.symm.trans he')
    obtain ⟨hchange, hbounded⟩ := h.change (hs _ hget)
    exact ⟨Or.inr ⟨_, hget, hchange⟩, hbounded⟩
  | harvested _ _ _ htlv => exact confidential_of_same hs (htlv.get _ (by simp))

theorem AccountChange.confidentialOrigin (hzero : c.x.zk.KeepsZero)
    (h : AccountChange c k lamports lamports' s s') (hs : ConfidentialBounded s) :
    ∀ e', s'.tlv.get .confidentialTransferAccount = some e' →
      ConfidentialOrigin c s e' ∧ e'.Bounded := by
  cases h with
  | kept => exact confidential_of_same hs rfl
  | withdrawExcess => exact confidential_of_same hs rfl
  | update _ h => exact confidential_of_same hs (h.changesOnly.get _ (by simp))
  | sync => exact confidential_of_same hs rfl
  | confidential _ h => exact h.origin hzero hs
  | moved h => exact h.confidentialOrigin hs

/-- No instruction takes the extension away. -/
theorem AccountChange.keepsConfidential (h : AccountChange c k lamports lamports' s s')
    (hsome : (s.tlv.get .confidentialTransferAccount).isSome) :
    (s'.tlv.get .confidentialTransferAccount).isSome := by
  cases h with
  | kept => exact hsome
  | withdrawExcess => exact hsome
  | update _ h => exact h.changesOnly.isSome_of_isSome hsome
  | sync => exact hsome
  | confidential _ h =>
    cases h with
    | configure _ _ _ _ hget => exact Option.isSome_of_eq_some hget
    | update _ _ hs' =>
      rw [hs', PodStateWithExtensions.setExtension_tlv, TypedStore.get_put_self]
      rfl
  | moved h =>
    cases h with
    | debit _ _ _ _ _ _ _ htlv => exact htlv.isSome_of_isSome hsome
    | credit _ _ _ _ _ _ htlv => exact htlv.isSome_of_isSome hsome
    | move _ _ hget' => exact Option.isSome_of_eq_some hget'
    | harvested _ _ _ htlv => exact htlv.isSome_of_isSome hsome

end

/-! ### Every account, along a run -/

variable {x : Externals} {l : Ledger}

theorem Reachable.confidentialBounded (hzero : x.zk.KeepsZero) (h : Reachable x l) {k : Pubkey}
    {s : PodStateWithExtensions PodAccount} (hs : AccountAt l k s) : ConfidentialBounded s := by
  refine h.every_account ConfidentialBounded ?_ ?_ k s hs
  · intro c k lamports tlv s mint hfresh hhead hnew e he
    rw [hnew.get_eq_none hfresh hhead (Or.inl rfl)] at he
    cases he
  · rintro c k lamports lamports' s s' rfl hchange hs e he
    exact (hchange.confidentialOrigin hzero hs e he).2

/-- The extension that an account has had since it was configured. -/
def ConfidentialSince (e : ConfidentialTransferAccount) (s : PodStateWithExtensions PodAccount) :
    Prop :=
  ConfidentialBounded s ∧ ∃ e', s.tlv.get .confidentialTransferAccount = some e' ∧
    SameSettings e e' ∧ (e.approved = true → e'.approved = true)

theorem ConfidentialSince.step {c : Call} {k : Pubkey} {lamports lamports' : UInt64}
    {e : ConfidentialTransferAccount} {s s' : PodStateWithExtensions PodAccount}
    (hzero : c.x.zk.KeepsZero) (hchange : AccountChange c k lamports lamports' s s')
    (h : ConfidentialSince e s) : ConfidentialSince e s' := by
  obtain ⟨hbounded, e₁, hget, hsame, happroved⟩ := h
  obtain ⟨e', he'⟩ := Option.isSome_iff_exists.mp
    (hchange.keepsConfidential (Option.isSome_of_eq_some hget))
  refine ⟨fun e he => (hchange.confidentialOrigin hzero hbounded e he).2, e', he', ?_⟩
  rcases (hchange.confidentialOrigin hzero hbounded e' he').1 with ⟨hnone, -⟩ | ⟨e₂, hget₂, hstep⟩
  · rw [hget] at hnone
    cases hnone
  · obtain rfl := Option.some.inj (hget.symm.trans hget₂)
    refine ⟨⟨hstep.elgamalPubkey.trans hsame.elgamalPubkey, hstep.maximum.trans hsame.maximum⟩,
      fun h => ?_⟩
    rcases hstep.approved with hkept | ⟨hnew, -⟩
    · exact hkept.trans (happroved h)
    · exact hnew

/-- In every reachable state the confidential extensions are within their bounds,
an instruction changes one only as its settings allow, and an account keeps its
settings and its approval until it is closed. -/
theorem confidential_accounts_bounded (hzero : x.zk.KeepsZero) (h : Reachable x l) :
    (∀ k s e, AccountAt l k s → s.tlv.get .confidentialTransferAccount = some e → e.Bounded) ∧
    (∀ (c : Call) l', c.x = x → c.ledger = l → c.process = .ok l' →
      ∀ k s' e', AccountAt l' k s' → s'.tlv.get .confidentialTransferAccount = some e' →
      ∃ s, AccountAt l k s ∧ ConfidentialOrigin c s e') ∧
    ∀ k s e, AccountAt l k s → s.tlv.get .confidentialTransferAccount = some e →
      ∀ events l', RunWhere x (fun c => c.Succeeds → ¬ c.Closes k) l events l' →
      ∃ s' e', AccountAt l' k s' ∧ s'.tlv.get .confidentialTransferAccount = some e' ∧
        SameSettings e e' ∧ (e.approved = true → e'.approved = true) := by
  refine ⟨fun k s e hs => h.confidentialBounded hzero hs e, ?_, ?_⟩
  · rintro c l' rfl rfl hrun k s' e' hs' he'
    rcases Call.process_account_origin h.wellFormed hrun hs' with
      ⟨s, hs, -, hchange⟩ | ⟨len, tlv, mint, howner, hdata, hhead, hnew⟩
    · exact ⟨s, hs, (hchange.confidentialOrigin hzero (h.confidentialBounded hzero hs) e' he').1⟩
    · rw [hnew.get_eq_none ((h.wellFormed k).of_zeroed howner hdata).2 hhead (Or.inl rfl)] at he'
      cases he'
  · intro k s e hs he events l' hrun
    obtain ⟨-, s', hs', -, e', he', hsame, happroved⟩ := RunWhere.account_invariant
      (ConfidentialSince e) (fun c hP => hP) (fun c l' s s' hx _ _ _ _ hchange hsince => by
        subst hx
        exact hsince.step hzero hchange) hrun h.wellFormed hs
      ⟨h.confidentialBounded hzero hs, e, he, ⟨rfl, rfl⟩, id⟩
    exact ⟨s', e', hs', he', hsame, happroved⟩

theorem logOps_keepsZero : logOps.KeepsZero where
  addWithLoHi c h := by
    obtain rfl := Option.some.inj h
    decide

/-- The receiver of a confidential transfer has counted one credit. -/
theorem confidential_accounts_bounded_received :
    ∃ e, (replay .logs (confidentialCalls 65536 ++ [wholeTransferCall 65536])
        confidentialLedger).confidentialAt ⟨3⟩ = some e ∧ e.pendingBalanceCreditCounter = 1 ∧
      e.Bounded := by
  have howner : (replay .logs (confidentialCalls 65536 ++ [wholeTransferCall 65536])
      confidentialLedger ⟨3⟩).owner = programId := by decide +kernel
  have hlast : ((replay .logs (confidentialCalls 65536 ++ [wholeTransferCall 65536])
      confidentialLedger).confidentialAt ⟨3⟩).map ConfidentialTransferAccount.pendingBalanceCreditCounter =
        some 1 := by decide +kernel
  obtain ⟨e, he, hcounter⟩ := Option.map_eq_some_iff.mp hlast
  obtain ⟨s, hdata, hget⟩ := Ledger.confidentialAt_eq_some he
  exact ⟨e, he, hcounter, (confidential_accounts_bounded logOps_keepsZero
    (confidentialLedger_genesis.reachable_replay _)).1 ⟨3⟩ s e ⟨howner, hdata⟩ hget⟩

end BarkToken
