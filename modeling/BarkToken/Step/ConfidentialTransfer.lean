import BarkToken.Step.Confidential
import BarkToken.Step.Hook

/-!
# Confidential transfers, step by step (Confidential/Transfer, Confidential/Proof)
-/

namespace BarkToken
open Fallible CheckedWord AccountData

variable {x : Externals} {env : Env} {ix : TokenInstruction} {accounts rest : List AccountInfo}
  {l l' : Ledger}

theorem IsConfidentialTransfer.authorityIndex {ix : TokenInstruction}
    {data : ConfidentialTransferData} (h : IsConfidentialTransfer ix data) (l : Ledger)
    (accounts : List AccountInfo) :
    ix.authorityIndex l accounts =
      accounts[1]?.map fun mint => data.authorityIndex l mint.key := by
  cases h <;> rfl

/-! ### Closing the contexts -/

/-- With these flags and accounts a transfer has the context closed. -/
structure AsksToClose (flags : SplitFlags) (infos : List AccountInfo)
    (context destination authority : Pubkey) : Prop where
  flag : flags.closeSplitContextStateOnExecution = true
  context : ∃ info ∈ infos, info.key = context
  destination : ∃ info ∈ infos, info.key = destination
  authority : ∃ info ∈ infos, info.key = authority

theorem AsksToClose.mono {flags : SplitFlags} {infos infos' : List AccountInfo}
    {context destination authority : Pubkey}
    (h : AsksToClose flags infos context destination authority) (hsub : infos ⊆ infos') :
    AsksToClose flags infos' context destination authority := by
  obtain ⟨hflag, ⟨c, hc, rfl⟩, ⟨d, hd, rfl⟩, a, ha, rfl⟩ := h
  exact ⟨hflag, ⟨c, hsub hc, rfl⟩, ⟨d, hsub hd, rfl⟩, a, hsub ha, rfl⟩

/-- The program of the proofs closes a context that it is asked to. -/
def ClosesContext (env : Env) (flags : SplitFlags) (infos : List AccountInfo) (l l' : Ledger) :
    Prop :=
  ∃ context destination authority, AsksToClose flags infos context destination authority ∧
    env.invoke (.closeContextState context destination authority) l = .ok l'

/-- It closes any number of them, and nothing else happens. -/
def ContextsClosed (env : Env) (flags : SplitFlags) (infos : List AccountInfo) :
    Ledger → Ledger → Prop :=
  Relation.ReflTransGen (ClosesContext env flags infos)

section Closing

variable {flags : SplitFlags} {contexts infos infos' : List AccountInfo} {mintKey : Pubkey}

theorem ContextsClosed.refl (l : Ledger) : ContextsClosed env flags infos l l :=
  Relation.ReflTransGen.refl

theorem ContextsClosed.mono (h : ContextsClosed env flags infos l l') (hsub : infos ⊆ infos') :
    ContextsClosed env flags infos' l l' := by
  induction h with
  | refl => exact .refl l
  | tail _ hclose ih =>
    obtain ⟨context, destination, authority, hasks, hinvoke⟩ := hclose
    exact ih.tail ⟨context, destination, authority, hasks.mono hsub, hinvoke⟩

theorem ContextsClosed.frame (h : ContextsClosed env flags infos l l') :
    ForeignStep l l' ∧ l'.totalLamports = l.totalLamports := by
  induction h with
  | refl => exact ⟨ForeignStep.refl l, rfl⟩
  | tail _ hclose ih =>
    obtain ⟨context, destination, authority, -, hinvoke⟩ := hclose
    obtain ⟨hforeign, htotal⟩ := env.invoke_frame _ _ _ hinvoke
    exact ⟨fun k => (ih.1 k).trans (hforeign k), htotal.trans ih.2⟩

theorem ContextsClosed.foreign (h : ContextsClosed env flags infos l l') : ForeignStep l l' :=
  h.frame.1

/-- The three accounts after the contexts are the destination, the authority and the program. -/
theorem asksToClose_of_mem (hflag : flags.closeSplitContextStateOnExecution = true)
    {context destination authority program : AccountInfo} (hcontext : context ∈ contexts) :
    AsksToClose flags (contexts ++ destination :: authority :: program :: rest) context.key
      destination.key authority.key where
  flag := hflag
  context := ⟨context, List.mem_append_left _ hcontext, rfl⟩
  destination := ⟨destination, by simp, rfl⟩
  authority := ⟨authority, by simp, rfl⟩

theorem closeContextStates_eq_ok (hflag : flags.closeSplitContextStateOnExecution = true)
    (h : closeContextStates env mintKey contexts infos l = .ok (rest, l')) :
    ContextsClosed env flags (contexts ++ infos) l l' ∧ infos.drop 3 = rest := by
  simp only [closeContextStates, bind_eq_ok, Prod.exists, exists_unit, nextAccountInfo_eq_ok,
    pure_eq_ok, Prod.mk.injEq] at h
  obtain ⟨destinationInfo, r₁, rfl, authorityInfo, r₂, rfl, programInfo, r₃, rfl, -, l₁, hloop, rfl,
    rfl⟩ := h
  refine ⟨loop_relation (ContextsClosed env flags _) .refl (fun _ _ _ => .trans) ?_ hloop, rfl⟩
  intro l context l' hcontext hinvoke
  exact .single ⟨_, _, _, asksToClose_of_mem hflag hcontext, hinvoke⟩

theorem finishContexts_eq_ok
    (h : finishContexts env mintKey flags contexts infos l = .ok (rest, l')) :
    ContextsClosed env flags (contexts ++ infos) l l' ∧
      infos.drop (if flags.closeSplitContextStateOnExecution then 3 else 0) = rest := by
  unfold finishContexts at h
  split at h
  case isTrue hclose =>
    rw [if_pos hclose]
    exact closeContextStates_eq_ok hclose h
  case isFalse hclose =>
    obtain ⟨rfl, rfl⟩ := Prod.mk.inj (Except.ok.inj h)
    rw [if_neg hclose]
    exact ⟨.refl l, rfl⟩

end Closing

/-- By `l'` the call has had contexts closed, and done nothing else. -/
def Call.ContextsClosed (c : Call) (l' : Ledger) : Prop :=
  ∃ data, IsConfidentialTransfer c.ix data ∧
    BarkToken.ContextsClosed c.env data.flags c.accounts c.ledger l'

theorem Call.ContextsClosed.frame {c : Call} (h : c.ContextsClosed l') :
    ForeignStep c.ledger l' ∧ l'.totalLamports = c.ledger.totalLamports := by
  obtain ⟨data, -, hclosed⟩ := h
  exact hclosed.frame

theorem Call.ContextsClosed.foreign {c : Call} (h : c.ContextsClosed l') :
    ForeignStep c.ledger l' :=
  h.frame.1

/-- The same three accounts are passed over when there is nothing to close. -/
theorem skipCloseAccounts_none {α : Type} {flags : SplitFlags} {infos : List AccountInfo}
    (h : skipCloseAccounts flags (none : Option α) infos = .ok rest) :
    infos.drop (if flags.closeSplitContextStateOnExecution then 3 else 0) = rest := by
  unfold skipCloseAccounts at h
  split at h
  case isTrue hclose =>
    simp only [bind_eq_ok, Prod.exists, nextAccountInfo_eq_ok, pure_eq_ok] at h
    obtain ⟨a, r₁, rfl, b, r₂, rfl, c, r₃, rfl, rfl⟩ := h
    rw [if_pos hclose.1]
    rfl
  case isFalse hclose =>
    obtain rfl := Except.ok.inj h
    rw [if_neg fun hflag => hclose ⟨hflag, rfl⟩]
    rfl

theorem skipCloseAccounts_some {α : Type} {flags : SplitFlags} {a : α} {infos : List AccountInfo}
    (h : skipCloseAccounts flags (some a) infos = .ok rest) : infos = rest := by
  unfold skipCloseAccounts at h
  rw [if_neg (by simp)] at h
  exact Except.ok.inj h

/-! ### Verified contexts -/

/-- A context account is missing, which the flags let pass. -/
def MissingContext (l : Ledger) (infos : List AccountInfo) (flags : SplitFlags) : Prop :=
  flags.noOpOnUninitializedSplitContextState = true ∧
    ∃ info ∈ infos, (l info.key).owner = systemProgram

theorem missingContext_of_noOp {flags : SplitFlags} {contexts infos : List AccountInfo}
    (hsub : contexts ⊆ infos) (h : noOpContext l flags contexts = true) :
    MissingContext l infos flags := by
  rw [noOpContext, Bool.and_eq_true, List.any_eq_true] at h
  obtain ⟨hflag, info, hinfo, hmissing⟩ := h
  exact ⟨hflag, info, hsub hinfo, of_decide_eq_true hmissing⟩

theorem MissingContext.of_tail {flags : SplitFlags} {infos : List AccountInfo} {a b c : AccountInfo}
    (h : MissingContext l infos flags) : MissingContext l (a :: b :: c :: infos) flags := by
  obtain ⟨hflag, info, hinfo, hmissing⟩ := h
  exact ⟨hflag, info, List.mem_append_right [a, b, c] hinfo, hmissing⟩

/-- What verifying the contexts leaves: the context is one that `certified`
accepts, and the accounts after it are the `n`-th and following; there is none only
where one is missing. -/
structure Verified {α : Type} (env : Env) (l : Ledger) (infos : List AccountInfo) (flags : SplitFlags)
    (n : ℕ) (certified : α → Prop) (v : VerifiedTransfer α) : Prop where
  closed : ContextsClosed env flags infos l v.ledger
  context : ∀ a ∈ v.context, certified a
  rest : ∀ rest, skipCloseAccounts flags v.context v.accounts = .ok rest → infos.drop n = rest
  missing : v.context = none → v.ledger = l ∧ MissingContext l infos flags

/-- How many accounts the contexts of a transfer take up. -/
def ConfidentialTransferData.contextAccounts (data : ConfidentialTransferData) (split : ℕ) : ℕ :=
  if data.proofInstructionOffset = 0 ∧ data.flags.splitProofContextStateAccounts = true then
    split + if data.flags.closeSplitContextStateOnExecution then 3 else 0
  else 1

theorem ConfidentialTransferData.authorityIndex_eq (data : ConfidentialTransferData) (l : Ledger)
    (mintKey : Pubkey) :
    data.authorityIndex l mintKey = 3 + data.contextAccounts (if isFeeMint l mintKey then 5 else 3) := by
  unfold authorityIndex contextAccounts
  split
  · rw [Nat.add_assoc]
  · rfl

theorem verifyTransferProof_eq_ok {data : ConfidentialTransferData} {mintKey : Pubkey}
    {infos : List AccountInfo} {v : VerifiedTransfer TransferProofContextInfo}
    (h : verifyTransferProof env mintKey data.proofInstructionOffset data.flags
      data.sourceDecryptHandles infos l = .ok v) :
    Verified env l infos data.flags (data.contextAccounts 3)
      (fun a => (Call.mk x env ix accounts l).Certifies a.parts none) v := by
  unfold verifyTransferProof at h
  unfold ConfidentialTransferData.contextAccounts
  split at h
  case isTrue hsplit =>
    rw [if_pos hsplit]
    simp only [verifySplitTransferProof, bind_eq_ok, Prod.exists, nextAccountInfo_eq_ok] at h
    obtain ⟨equalityInfo, r₁, rfl, validityInfo, r₂, rfl, rangeInfo, r₃, rfl, h⟩ := h
    split at h
    case isTrue hnoOp =>
      obtain rfl := pure_eq_ok.mp h
      refine ⟨.refl l, by simp, fun rest hrest => ?_, fun _ => ⟨rfl, ?_⟩⟩
      · rw [← List.drop_drop]
        exact skipCloseAccounts_none hrest
      · exact missingContext_of_noOp (List.subset_append_left [equalityInfo, validityInfo, rangeInfo] _) hnoOp
    case isFalse =>
      simp only [bind_eq_ok, Prod.exists, pure_eq_ok] at h
      obtain ⟨equality, hequality, validity, hvalidity, range, hrange, a, ha, rest, l₁, hfinish,
        rfl⟩ := h
      obtain ⟨hclosed, hdrop⟩ := finishContexts_eq_ok hfinish
      refine ⟨hclosed, fun b hb => ?_, fun rest' hrest => ?_, fun hnone => ?_⟩
      · obtain rfl := Option.some.inj (Option.mem_def.mp hb)
        exact .split (Call.provides_of_read ProofContext.ciphertextCommitmentEquality?_eq_some hequality)
          (Call.provides_of_read ProofContext.batchedGroupedCiphertext2HandlesValidity?_eq_some
            hvalidity)
          (Call.provides_of_read ProofContext.batchedRangeProofU128?_eq_some hrange) ha
      · rw [← List.drop_drop, ← skipCloseAccounts_some hrest]
        exact hdrop
      · cases hnone
  case isFalse hsplit =>
    rw [if_neg hsplit]
    simp only [bind_eq_ok, Prod.exists, pure_eq_ok] at h
    obtain ⟨context, rest, hcontext, rfl⟩ := h
    obtain ⟨proofInfo, rfl, hread⟩ := verifyProof_eq_ok hcontext
    refine ⟨.refl l, fun b hb => ?_, fun rest' hrest => ?_, fun hnone => ?_⟩
    · obtain rfl := Option.some.inj (Option.mem_def.mp hb)
      exact .transfer (Call.provides_of_context ProofContext.transfer?_eq_some hread)
    · exact skipCloseAccounts_some hrest
    · cases hnone

theorem verifyTransferWithFeeProof_eq_ok {data : ConfidentialTransferData} {mintKey : Pubkey}
    {feeParameters : TransferFee} {infos : List AccountInfo}
    {v : VerifiedTransfer TransferWithFeeProofContextInfo}
    (h : verifyTransferWithFeeProof x.zk env mintKey data.proofInstructionOffset data.flags
      data.sourceDecryptHandles feeParameters infos l = .ok v) :
    Verified env l infos data.flags (data.contextAccounts 5)
      (fun a => (Call.mk x env ix accounts l).Certifies a.parts (some a.feeParts)) v := by
  unfold verifyTransferWithFeeProof at h
  unfold ConfidentialTransferData.contextAccounts
  split at h
  case isTrue hsplit =>
    rw [if_pos hsplit]
    simp only [verifySplitTransferWithFeeProof, bind_eq_ok, Prod.exists, nextAccountInfo_eq_ok] at h
    obtain ⟨equalityInfo, r₁, rfl, validityInfo, r₂, rfl, sigmaInfo, r₃, rfl, feeInfo, r₄, rfl,
      rangeInfo, r₅, rfl, h⟩ := h
    split at h
    case isTrue hnoOp =>
      obtain rfl := pure_eq_ok.mp h
      refine ⟨.refl l, by simp, fun rest hrest => ?_, fun _ => ⟨rfl, ?_⟩⟩
      · rw [← List.drop_drop]
        exact skipCloseAccounts_none hrest
      · exact missingContext_of_noOp (List.subset_append_left
          [equalityInfo, validityInfo, sigmaInfo, feeInfo, rangeInfo] _) hnoOp
    case isFalse =>
      simp only [bind_eq_ok, Prod.exists, pure_eq_ok] at h
      obtain ⟨equality, hequality, validity, hvalidity, sigma, hsigma, fee, hfee, range, hrange, a,
        ha, rest, l₁, hfinish, rfl⟩ := h
      obtain ⟨hclosed, hdrop⟩ := finishContexts_eq_ok hfinish
      refine ⟨hclosed, fun b hb => ?_, fun rest' hrest => ?_, fun hnone => ?_⟩
      · obtain rfl := Option.some.inj (Option.mem_def.mp hb)
        exact .splitWithFee
          (Call.provides_of_read ProofContext.ciphertextCommitmentEquality?_eq_some hequality)
          (Call.provides_of_read ProofContext.batchedGroupedCiphertext2HandlesValidity?_eq_some
            hvalidity)
          (Call.provides_of_read ProofContext.feeSigma?_eq_some hsigma)
          (Call.provides_of_read ProofContext.batchedGroupedCiphertext2HandlesValidity?_eq_some hfee)
          (Call.provides_of_read ProofContext.batchedRangeProofU256?_eq_some hrange) ha
      · rw [← List.drop_drop, ← skipCloseAccounts_some hrest]
        exact hdrop
      · cases hnone
  case isFalse hsplit =>
    rw [if_neg hsplit]
    simp only [bind_eq_ok, Prod.exists, exists_unit, pure_eq_ok] at h
    obtain ⟨context, rest, hcontext, -, rfl⟩ := h
    obtain ⟨proofInfo, rfl, hread⟩ := verifyProof_eq_ok hcontext
    refine ⟨.refl l, fun b hb => ?_, fun rest' hrest => ?_, fun hnone => ?_⟩
    · obtain rfl := Option.some.inj (Option.mem_def.mp hb)
      exact .transferWithFee (Call.provides_of_context ProofContext.transferWithFee?_eq_some hread)
    · exact skipCloseAccounts_some hrest
    · cases hnone

/-! ### The two balances -/

/-- A token account of the mint at `k`. -/
def HoldsMint (l : Ledger) (k mintKey : Pubkey) : Prop :=
  ∃ s, (l k).owner = programId ∧ (l k).data = .account s ∧ s.base.mint = mintKey

/-- The source's debit, in the ledger it is written to. -/
structure SourceDebited (zk : ZkOps) (l l' : Ledger) (k mintKey : Pubkey) (p : TransferParts)
    (s : PodStateWithExtensions PodAccount) (e e' : ConfidentialTransferAccount) : Prop where
  owner : (l k).owner = programId
  data : (l k).data = .account s
  mint : s.base.mint = mintKey
  extension : s.tlv.get .confidentialTransferAccount = some e
  valid : e.validAsSource = .ok ()
  debited : ∃ balance, e.debited zk p balance = .ok e'
  ledger : l' = l.setData k (.account (s.setExtension .confidentialTransferAccount e'))

theorem sourceForTransfer_eq_ok {zk : ZkOps} {sourceInfo mintInfo authorityInfo : AccountInfo}
    {signers : List AccountInfo} {parts : Option TransferParts} {balance : AeCiphertext}
    (h : sourceForTransfer zk l sourceInfo mintInfo authorityInfo signers parts balance = .ok l') :
    (parts = none ∧ l' = l ∧ HoldsMint l sourceInfo.key mintInfo.key) ∨
      ∃ p s e e', parts = some p ∧ authorityInfo.key = s.base.owner ∧
        SourceDebited zk l l' sourceInfo.key mintInfo.key p s e e' := by
  simp only [sourceForTransfer, bind_eq_ok, exists_unit, ensure_eq_ok,
    checkProgramAccount_eq_ok] at h
  obtain ⟨howner, -, -, s, hs, hauth, -, hmint, e, he, hvalid, h⟩ := h
  cases parts with
  | none =>
    exact Or.inl ⟨rfl, (Except.ok.inj h).symm, s, howner, (unpackAccount_eq_ok.mp hs).1, hmint⟩
  | some p =>
    simp only [bind_eq_ok] at h
    obtain ⟨e', he', hwrite⟩ := h
    obtain ⟨-, hl'⟩ := Ledger.writeData_eq_ok.mp hwrite
    exact Or.inr ⟨p, s, e, e', rfl, (validateOwner_key hauth).symm, howner,
      (unpackAccount_eq_ok.mp hs).1, hmint, PodStateWithExtensions.getExtension_eq_ok.mp he,
      hvalid, ⟨balance, he'⟩, hl'⟩

/-- The fee leaves the pending balances and is withheld. -/
structure FeeWithheld (zk : ZkOps) (q : FeeParts) (d d' : PodStateWithExtensions PodAccount)
    (f g : ConfidentialTransferAccount) (v w : ConfidentialTransferFeeAmount) : Prop where
  charged : f.charged zk q.lo q.hi = .ok g
  extension : d.tlv.get .confidentialTransferFeeAmount = some v
  withheld : v.withheld zk q.lo q.hi = .ok w
  account : d' = (d.setExtension .confidentialTransferAccount g).setExtension
    .confidentialTransferFeeAmount w

/-- What the destination's account becomes, with `f` its credited extension. -/
inductive Settled (zk : ZkOps) (d : PodStateWithExtensions PodAccount)
    (f : ConfidentialTransferAccount) : Option FeeParts → PodStateWithExtensions PodAccount → Prop
  | free : Settled zk d f none (d.setExtension .confidentialTransferAccount f)
  | charged {q d' g v w} (h : FeeWithheld zk q d d' f g v w) : Settled zk d f (some q) d'

/-- The destination's credit, less the fee it is charged. -/
structure DestinationCredited (zk : ZkOps) (l l' : Ledger) (k mintKey : Pubkey)
    (p : TransferParts) (fee : Option FeeParts) (d d' : PodStateWithExtensions PodAccount)
    (f f' : ConfidentialTransferAccount) : Prop where
  owner : (l k).owner = programId
  data : (l k).data = .account d
  mint : d.base.mint = mintKey
  extension : d.tlv.get .confidentialTransferAccount = some f
  valid : f.validAsDestination = .ok ()
  credited : f.credited zk p = .ok f'
  settled : Settled zk d f' fee d'
  ledger : l' = l.setData k (.account d')

theorem checkConfidentialDestination_eq_ok {destinationInfo mintInfo : AccountInfo}
    {d : PodStateWithExtensions PodAccount} {f : ConfidentialTransferAccount}
    (h : checkConfidentialDestination env l destinationInfo mintInfo = .ok (d, f)) :
    (l destinationInfo.key).owner = programId ∧ (l destinationInfo.key).data = .account d ∧
      d.base.mint = mintInfo.key ∧ d.tlv.get .confidentialTransferAccount = some f ∧
      f.validAsDestination = .ok () := by
  simp only [checkConfidentialDestination, bind_eq_ok, exists_unit, ensure_eq_ok, pure_eq_ok,
    checkProgramAccount_eq_ok, Prod.mk.injEq] at h
  obtain ⟨howner, -, d, hd, -, hmint, -, f, hf, hvalid, rfl, rfl⟩ := h
  exact ⟨howner, (unpackAccount_eq_ok.mp hd).1, hmint,
    PodStateWithExtensions.getExtension_eq_ok.mp hf, hvalid⟩

theorem holdsMint_of_check {destinationInfo mintInfo : AccountInfo}
    {p : PodStateWithExtensions PodAccount × ConfidentialTransferAccount}
    (h : checkConfidentialDestination env l destinationInfo mintInfo = .ok p) :
    HoldsMint l destinationInfo.key mintInfo.key := by
  obtain ⟨howner, hdata, hmint, -⟩ := checkConfidentialDestination_eq_ok h
  exact ⟨p.1, howner, hdata, hmint⟩

theorem processDestinationForTransfer_eq_ok {zk : ZkOps} {destinationInfo mintInfo : AccountInfo}
    {a : TransferProofContextInfo}
    (h : processDestinationForTransfer zk env l destinationInfo mintInfo (some a) = .ok l') :
    ∃ d d' f f',
      DestinationCredited zk l l' destinationInfo.key mintInfo.key a.parts none d d' f f' := by
  simp only [processDestinationForTransfer, bind_eq_ok, Prod.exists] at h
  obtain ⟨d, f, hcheck, f', hf', hwrite⟩ := h
  obtain ⟨howner, hdata, hmint, hf, hvalid⟩ := checkConfidentialDestination_eq_ok hcheck
  obtain ⟨-, hl'⟩ := Ledger.writeData_eq_ok.mp hwrite
  exact ⟨d, _, f, f', howner, hdata, hmint, hf, hvalid, hf', .free, hl'⟩

theorem withholdFee_eq_ok {zk : ZkOps} {q : FeeParts} {d d' : PodStateWithExtensions PodAccount}
    {f : ConfidentialTransferAccount} (h : withholdFee zk d f q.lo q.hi = .ok d') :
    ∃ g v w, FeeWithheld zk q d d' f g v w := by
  simp only [withholdFee, bind_eq_ok, pure_eq_ok] at h
  obtain ⟨g, hg, v, hv, w, hw, rfl⟩ := h
  have hv := PodStateWithExtensions.getExtension_eq_ok.mp hv
  rw [PodStateWithExtensions.setExtension_tlv, TypedStore.get_put_of_ne _ _ (by decide)] at hv
  exact ⟨g, v, w, hg, hv, hw, rfl⟩

/-- A self-transfer is charged nothing. -/
theorem settleFee_eq_ok {zk : ZkOps} {d d' : PodStateWithExtensions PodAccount}
    {f : ConfidentialTransferAccount} {a : TransferWithFeeProofContextInfo} {isSelf : Bool}
    (h : settleFee zk d f a isSelf = .ok d') :
    Settled zk d f (if isSelf then none else some a.feeParts) d' := by
  unfold settleFee at h
  split at h
  case isTrue hself =>
    obtain rfl := Except.ok.inj h
    rw [if_pos hself]
    exact .free
  case isFalse hself =>
    obtain ⟨g, v, w, hfee⟩ := withholdFee_eq_ok (q := a.feeParts) h
    rw [if_neg hself]
    exact .charged hfee

theorem processDestinationForTransferWithFee_eq_ok {zk : ZkOps}
    {destinationInfo mintInfo : AccountInfo} {a : TransferWithFeeProofContextInfo} {isSelf : Bool}
    (h : processDestinationForTransferWithFee zk env l destinationInfo mintInfo (some a) isSelf =
      .ok l') :
    ∃ d d' f f', DestinationCredited zk l l' destinationInfo.key mintInfo.key a.parts
      (if isSelf then none else some a.feeParts) d d' f f' := by
  simp only [processDestinationForTransferWithFee, bind_eq_ok, Prod.exists] at h
  obtain ⟨d, f, hcheck, f', hf', d', hsettle, hwrite⟩ := h
  obtain ⟨howner, hdata, hmint, hf, hvalid⟩ := checkConfidentialDestination_eq_ok hcheck
  obtain ⟨-, hl'⟩ := Ledger.writeData_eq_ok.mp hwrite
  exact ⟨d, d', f, f', howner, hdata, hmint, hf, hvalid, hf', settleFee_eq_ok hsettle, hl'⟩

/-! ### Both balances together -/

/-- The fee that a transfer is charged: none if it goes from an account to
itself. -/
def chargedFee (fee : Option FeeParts) (source destination : Pubkey) : Option FeeParts :=
  if source = destination then none else fee

/-- The two writes of a confidential transfer, between the closing of its
contexts and its hook. -/
structure ConfidentialMoved (c : Call) (l l' : Ledger) (source mintKey destination : Pubkey)
    (p : TransferParts) (fee : Option FeeParts) (s d d' : PodStateWithExtensions PodAccount)
    (e e' f f' : ConfidentialTransferAccount) : Prop where
  certified : c.Certifies p fee
  executes : c.Executes p fee
  sourceAt : c.key 0 = some source
  mintAt : c.key 1 = some mintKey
  destinationAt : c.key 2 = some destination
  authority : c.NamesAuthority s.base.owner
  sourceDebited : SourceDebited c.x.zk l
    (l.setData source (.account (s.setExtension .confidentialTransferAccount e'))) source mintKey p
    s e e'
  destinationCredited : DestinationCredited c.x.zk
    (l.setData source (.account (s.setExtension .confidentialTransferAccount e'))) l' destination
    mintKey p (chargedFee fee source destination) d d' f f'
  /-- The withheld fee is encrypted for the mint's withdraw withheld authority. -/
  feeKey : ∀ q ∈ fee, ∃ m v, (c.ledger mintKey).data.unpackMint = .ok m ∧
    m.tlv.get .confidentialTransferFeeConfig = some v ∧
    q.withdrawWithheldAuthority = v.withdrawWithheldAuthorityElgamalPubkey

/-- A confidential transfer that moves nothing, a context being missing. -/
structure ConfidentialSkipped (c : Call) (l' : Ledger) (source mintKey destination : Pubkey) :
    Prop where
  ledger : l' = c.ledger
  missing : ∃ data, IsConfidentialTransfer c.ix data ∧ MissingContext c.ledger c.accounts data.flags
  sourceAt : c.key 0 = some source
  destinationAt : c.key 2 = some destination
  source : HoldsMint c.ledger source mintKey
  destination : HoldsMint c.ledger destination mintKey

/-- Everything a confidential transfer does up to its hook. -/
structure ExecutedConfidential (c : Call) (l' : Ledger) (source mintKey destination : Pubkey) :
    Prop where
  mintOwner : (c.ledger mintKey).owner = programId
  moved : ∃ l₁, c.ContextsClosed l₁ ∧
    ((l' = l₁ ∧ ConfidentialSkipped c l' source mintKey destination) ∨
      ∃ p fee s d d' e e' f f',
        ConfidentialMoved c l₁ l' source mintKey destination p fee s d d' e e' f f')

section Handlers

variable {data : ConfidentialTransferData}
  {m : PodStateWithExtensions PodMint} {cm : ConfidentialTransferMint}
  {tail signers : List AccountInfo} {executed : ExecutedTransfer}

/-- The authority comes right after the contexts' accounts. -/
theorem namesAuthority_of_drop {key : Pubkey} {source mint destination authorityInfo : AccountInfo}
    {n : ℕ} (hindex : ix.authorityIndex l (source :: mint :: destination :: tail) = some (3 + n))
    (hdrop : tail.drop n = authorityInfo :: signers) (hkey : authorityInfo.key = key) :
    (Call.mk x env ix (source :: mint :: destination :: tail) l).NamesAuthority key := by
  have hdrop' : (source :: mint :: destination :: tail).drop (3 + n) = authorityInfo :: signers := by
    rw [← List.drop_drop]
    exact hdrop
  exact ⟨authorityInfo, _, TokenInstruction.authority_eq hindex hdrop', hkey⟩

theorem executeTransfer_eq_ok (infos : TransferInfos) (hix : IsConfidentialTransfer ix data)
    (hindex : ix.authorityIndex l (infos.source :: infos.mint :: infos.destination :: tail) =
      some (3 + data.contextAccounts 3))
    (hmint : (l infos.mint.key).owner = programId)
    (h : executeTransfer x.zk env data infos cm tail l = .ok executed) :
    ExecutedConfidential ⟨x, env, ix, infos.source :: infos.mint :: infos.destination :: tail, l⟩
        executed.ledger infos.source.key infos.mint.key infos.destination.key ∧
      (Call.mk x env ix (infos.source :: infos.mint :: infos.destination :: tail) l).NamesAuthority
        executed.authority.key := by
  simp only [executeTransfer, bind_eq_ok, Prod.exists, exists_unit, nextAccountInfo_eq_ok,
    ensure_eq_ok, pure_eq_ok] at h
  obtain ⟨v, hv, rest, hskip, authorityInfo, signers, rfl, -, l₂, hsource, l₃, hdestination, rfl⟩ := h
  obtain ⟨hclosed, hcontext, hrest, hmissing⟩ : Verified env l tail data.flags (data.contextAccounts 3)
      (fun a => (Call.mk x env ix (infos.source :: infos.mint :: infos.destination :: tail)
        l).Certifies a.parts none) v := verifyTransferProof_eq_ok hv
  refine ⟨⟨hmint, v.ledger, ⟨data, hix, hclosed.mono ?_⟩, ?_⟩,
    namesAuthority_of_drop hindex (hrest _ hskip) rfl⟩
  · exact List.subset_append_right [infos.source, infos.mint, infos.destination] tail
  rcases sourceForTransfer_eq_ok hsource with
    ⟨hnone, rfl, hholds⟩ | ⟨p, s, e, e', hparts, hkey, hdebited⟩
  · rw [Option.map_eq_none_iff] at hnone
    rw [hnone] at hdestination
    simp only [processDestinationForTransfer, bind_eq_ok] at hdestination
    obtain ⟨p, hcheck, hsame⟩ := hdestination
    obtain rfl := Except.ok.inj hsame
    obtain ⟨hledger, hmissing⟩ := hmissing hnone
    exact Or.inl ⟨rfl, hledger, ⟨data, hix, hmissing.of_tail⟩, rfl, rfl, hledger ▸ hholds,
      hledger ▸ holdsMint_of_check hcheck⟩
  · obtain ⟨a, ha, rfl⟩ := Option.map_eq_some_iff.mp hparts
    rw [ha] at hdestination
    obtain ⟨d, d', f, f', hcredited⟩ := processDestinationForTransfer_eq_ok hdestination
    obtain rfl := hdebited.ledger
    refine Or.inr ⟨a.parts, none, s, d, d', e, e', f, f',
      hcontext a ha, .transfer hix rfl hv ha, rfl, rfl, rfl,
      namesAuthority_of_drop hindex (hrest _ hskip) hkey, hdebited, ?_, by simp⟩
    rwa [chargedFee, ite_self]

theorem executeTransferWithFee_eq_ok {config : TransferFeeConfig} (infos : TransferInfos)
    (hix : IsConfidentialTransfer ix data)
    (hindex : ix.authorityIndex l (infos.source :: infos.mint :: infos.destination :: tail) =
      some (3 + data.contextAccounts 5))
    (hmint : (l infos.mint.key).owner = programId)
    (hm : (l infos.mint.key).data.unpackMint = .ok m)
    (hconfig : m.tlv.get .transferFeeConfig = some config)
    (h : executeTransferWithFee x.zk env data infos m cm config tail l = .ok executed) :
    ExecutedConfidential ⟨x, env, ix, infos.source :: infos.mint :: infos.destination :: tail, l⟩
        executed.ledger infos.source.key infos.mint.key infos.destination.key ∧
      (Call.mk x env ix (infos.source :: infos.mint :: infos.destination :: tail) l).NamesAuthority
        executed.authority.key := by
  simp only [executeTransferWithFee, bind_eq_ok, Prod.exists, exists_unit, nextAccountInfo_eq_ok,
    ensure_eq_ok, pure_eq_ok] at h
  obtain ⟨v, hv, rest, hskip, authorityInfo, signers, rfl, -, feeConfig, hfeeConfig, hkeys, l₂,
    hsource, l₃, hdestination, rfl⟩ := h
  have hfeeConfig := PodStateWithExtensions.getExtension_eq_ok.mp hfeeConfig
  obtain ⟨hclosed, hcontext, hrest, hmissing⟩ : Verified env l tail data.flags (data.contextAccounts 5)
      (fun a => (Call.mk x env ix (infos.source :: infos.mint :: infos.destination :: tail)
        l).Certifies a.parts (some a.feeParts)) v := verifyTransferWithFeeProof_eq_ok hv
  refine ⟨⟨hmint, v.ledger, ⟨data, hix, hclosed.mono ?_⟩, ?_⟩,
    namesAuthority_of_drop hindex (hrest _ hskip) rfl⟩
  · exact List.subset_append_right [infos.source, infos.mint, infos.destination] tail
  rcases sourceForTransfer_eq_ok hsource with
    ⟨hnone, rfl, hholds⟩ | ⟨p, s, e, e', hparts, hkey, hdebited⟩
  · rw [Option.map_eq_none_iff] at hnone
    rw [hnone] at hdestination
    simp only [processDestinationForTransferWithFee, bind_eq_ok] at hdestination
    obtain ⟨p, hcheck, hsame⟩ := hdestination
    obtain rfl := Except.ok.inj hsame
    obtain ⟨hledger, hmissing⟩ := hmissing hnone
    exact Or.inl ⟨rfl, hledger, ⟨data, hix, hmissing.of_tail⟩, rfl, rfl, hledger ▸ hholds,
      hledger ▸ holdsMint_of_check hcheck⟩
  · obtain ⟨a, ha, rfl⟩ := Option.map_eq_some_iff.mp hparts
    rw [ha] at hdestination
    obtain ⟨d, d', f, f', hcredited⟩ := processDestinationForTransferWithFee_eq_ok hdestination
    obtain rfl := hdebited.ledger
    refine Or.inr ⟨a.parts, some a.feeParts, s, d, d', e, e', f, f',
      hcontext a ha, .transferWithFee hix rfl hm hconfig hv ha, rfl, rfl, rfl,
      namesAuthority_of_drop hindex (hrest _ hskip) hkey, hdebited, ?_, ?_⟩
    · simpa [chargedFee] using hcredited
    · intro q hq
      obtain rfl := Option.some.inj (Option.mem_def.mp hq)
      exact ⟨m, feeConfig, hm, hfeeConfig, hkeys a ha⟩

/-- Both kinds of confidential transfer. -/
theorem executeForMint_eq_ok (infos : TransferInfos) (hix : IsConfidentialTransfer ix data)
    (hmint : (l infos.mint.key).owner = programId)
    (hm : (l infos.mint.key).data.unpackMint = .ok m)
    (h : executeForMint x.zk env data infos m cm tail l = .ok executed) :
    ExecutedConfidential ⟨x, env, ix, infos.source :: infos.mint :: infos.destination :: tail, l⟩
        executed.ledger infos.source.key infos.mint.key infos.destination.key ∧
      (Call.mk x env ix (infos.source :: infos.mint :: infos.destination :: tail) l).NamesAuthority
        executed.authority.key := by
  have hindex : ix.authorityIndex l (infos.source :: infos.mint :: infos.destination :: tail) =
      some (data.authorityIndex l infos.mint.key) := hix.authorityIndex l _
  rw [ConfidentialTransferData.authorityIndex_eq] at hindex
  have hfee : isFeeMint l infos.mint.key = (m.tlv.get .transferFeeConfig).isSome := by
    unfold isFeeMint
    rw [hm]
    exact Bool.decide_eq_true
  rw [hfee] at hindex
  unfold executeForMint at h
  split at h
  case h_1 hnone =>
    rw [hnone] at hindex
    exact executeTransfer_eq_ok infos hix hindex hmint h
  case h_2 config hsome =>
    rw [hsome] at hindex
    exact executeTransferWithFee_eq_ok infos hix hindex hmint hm hsome h

/-- A confidential transfer, and the hook after it. -/
theorem processConfidentialTransfer_eq_ok (hix : IsConfidentialTransfer ix data)
    (h : processConfidentialTransfer x.zk env data accounts l = .ok l') :
    ∃ source mintKey destination l₁,
      ExecutedConfidential ⟨x, env, ix, accounts, l⟩ l₁ source mintKey destination ∧
        HookStep l₁ l' ∧ l'.totalLamports = l₁.totalLamports := by
  simp only [processConfidentialTransfer, bind_eq_ok, Prod.exists, exists_unit, ensure_eq_ok,
    nextAccountInfo_eq_ok, checkProgramAccount_eq_ok] at h
  obtain ⟨sourceInfo, r₁, rfl, mintInfo, r₂, rfl, destinationInfo, tail, rfl, howner, m, hm, -, cm,
    hcm, executed, hexecuted, hhook⟩ := h
  obtain ⟨hexecuted, -⟩ :=
    executeForMint_eq_ok ⟨sourceInfo, mintInfo, destinationInfo⟩ hix howner hm hexecuted
  exact ⟨_, _, _, executed.ledger, hexecuted, invokeConfidentialHook_step hhook⟩

end Handlers

/-! ### Records -/

/-- An account that this program owned when its balance moved is one that it
owned at the start. -/
theorem ForeignRecord.account {k : Pubkey} {r r' : AccountRecord}
    {s : PodStateWithExtensions PodAccount} (h : ForeignRecord k r r')
    (howner : r'.owner = programId) (hdata : r'.data = .account s) :
    r.owner = programId ∧ r.data = .account s ∧ r.lamports ≤ r'.lamports := by
  have howned : r.owner = programId := by
    by_contra hne
    obtain ⟨-, n, hzero⟩ := h.creates hne howner
    rw [hzero] at hdata
    cases hdata
  obtain ⟨-, hsame, hlamports⟩ := h.keeps howned
  exact ⟨howned, hsame.symm.trans hdata, hlamports⟩

/-- A move of one account, with other programs before it and a hook after it. -/
theorem RecordStep.of_move {c : Call} {k : Pubkey} {r r₁ r' : AccountRecord}
    {s t : PodStateWithExtensions PodAccount} {e e' : ConfidentialTransferAccount}
    (hforeign : ForeignRecord k r r₁) (howner : r₁.owner = programId) (hdata : r₁.data = .account s)
    (hget : s.tlv.get .confidentialTransferAccount = some e)
    (hget' : t.tlv.get .confidentialTransferAccount = some e')
    (hmove : ConfidentialMove c s.base e e') (hbase : t.base = s.base) (hlen : t.len = s.len)
    (htlv : Tlv.ChangesOnly [.confidentialTransferAccount, .confidentialTransferFeeAmount] s.tlv
      t.tlv)
    (hhook : KeptRecord [.transferHookAccount] k { r₁ with data := .account t } r') :
    RecordStep c k r r' := by
  obtain ⟨hprogram, hdata₀, hlamports⟩ := hforeign.account howner hdata
  obtain ⟨howner', hlamports', s'', hdata'', hbase', hlen', htlv'⟩ := hhook.account howner rfl
  refine .account hprogram howner' hdata₀ hdata'' (.move (UInt64.le_trans hlamports hlamports') hget
    ?_ hmove (hbase'.trans hbase) (hlen'.trans hlen) ?_)
  · rw [htlv'.get _ (by simp), hget']
  · exact (htlv.mono (by simp)).trans (htlv'.mono (by simp))

/-- The extension and the rest of an account whose transfer is settled. -/
theorem Settled.account {zk : ZkOps} {d d' : PodStateWithExtensions PodAccount}
    {f : ConfidentialTransferAccount} {fee : Option FeeParts} (h : Settled zk d f fee d') :
    d'.base = d.base ∧ d'.len = d.len ∧
      Tlv.ChangesOnly [.confidentialTransferAccount, .confidentialTransferFeeAmount] d.tlv d'.tlv := by
  cases h with
  | free => exact ⟨rfl, rfl, Tlv.ChangesOnly.put (t := .confidentialTransferAccount) _ _ (by simp)⟩
  | charged h =>
    rw [h.account]
    exact ⟨rfl, rfl, (Tlv.ChangesOnly.put (t := .confidentialTransferAccount) _ _ (by simp)).trans
      (Tlv.ChangesOnly.put (t := .confidentialTransferFeeAmount) _ _ (by simp))⟩

theorem FeeWithheld.get {zk : ZkOps} {q : FeeParts} {d d' : PodStateWithExtensions PodAccount}
    {f g : ConfidentialTransferAccount} {v w : ConfidentialTransferFeeAmount}
    (h : FeeWithheld zk q d d' f g v w) : d'.tlv.get .confidentialTransferAccount = some g := by
  rw [h.account, PodStateWithExtensions.setExtension_tlv, TypedStore.get_put_of_ne _ _ (by decide),
    PodStateWithExtensions.setExtension_tlv, TypedStore.get_put_self]

section Moved

variable {c : Call} {l₁ l₂ : Ledger} {source mintKey destination : Pubkey} {p : TransferParts}
  {fee : Option FeeParts} {s d d' : PodStateWithExtensions PodAccount}
  {e e' f f' : ConfidentialTransferAccount}

theorem ConfidentialMoved.keys (h : ConfidentialMoved c l₁ l₂ source mintKey destination p fee s d d'
    e e' f f') : c.key 0 = c.key 2 ↔ source = destination := by
  rw [h.sourceAt, h.destinationAt, Option.some.injEq]

/-- The source of a transfer to another account. -/
theorem ConfidentialMoved.source_step (h : ConfidentialMoved c l₁ l₂ source mintKey destination p
    fee s d d' e e' f f') (hne : source ≠ destination) (hclosed : c.ContextsClosed l₁)
    (hhook : HookStep l₂ l') : RecordStep c source (c.ledger source) (l' source) := by
  have hs := h.sourceDebited
  obtain ⟨balance, hdebited⟩ := hs.debited
  refine .of_move (t := s.setExtension .confidentialTransferAccount e')
    (hclosed.foreign source) hs.owner hs.data hs.extension (TypedStore.get_put_self _ _ _)
    (.debited h.certified h.authority (h.keys.not.mpr hne) hdebited hs.valid) rfl rfl
    (Tlv.ChangesOnly.put (t := .confidentialTransferAccount) _ _ (by simp)) ?_
  have hkept := hhook source
  rwa [h.destinationCredited.ledger, Ledger.setData_of_ne hne, Ledger.setData_self] at hkept

/-- The destination of a transfer from another account. -/
theorem ConfidentialMoved.destination_step (h : ConfidentialMoved c l₁ l₂ source mintKey destination
    p fee s d d' e e' f f') (hne : source ≠ destination) (hclosed : c.ContextsClosed l₁)
    (hhook : HookStep l₂ l') : RecordStep c destination (c.ledger destination) (l' destination) := by
  have hd := h.destinationCredited
  have howner := hd.owner
  have hdata := hd.data
  rw [Ledger.setData_of_ne (Ne.symm hne)] at howner hdata
  obtain ⟨hbase, hlen, htlv⟩ := hd.settled.account
  have hkept := hhook destination
  rw [hd.ledger, Ledger.setData_self, Ledger.setData_of_ne (Ne.symm hne)] at hkept
  have hmove : ∃ g, d'.tlv.get .confidentialTransferAccount = some g ∧
      ConfidentialMove c d.base f g := by
    have hsettled := hd.settled
    have hcertified := h.certified
    have hexecutes := h.executes
    rw [chargedFee, if_neg hne] at hsettled
    cases hsettled with
    | free =>
      exact ⟨f', TypedStore.get_put_self _ _ _,
        .credited hcertified hexecutes (h.keys.not.mpr hne) hd.credited hd.valid⟩
    | charged hfee =>
      obtain ⟨howned, hdata₀, -⟩ := (hclosed.foreign destination).account howner hdata
      exact ⟨_, hfee.get, .charged hcertified hexecutes
        ⟨destination, d, h.destinationAt, howned, hdata₀, hd.extension⟩ (h.keys.not.mpr hne)
        hd.credited hfee.charged hd.valid⟩
  obtain ⟨g, hget, hmove⟩ := hmove
  exact .of_move (hclosed.foreign destination) howner hdata hd.extension hget hmove hbase hlen htlv
    hkept

/-- An account that transfers to itself. -/
theorem ConfidentialMoved.self_step (h : ConfidentialMoved c l₁ l₂ source mintKey source p fee s d d'
    e e' f f') (hclosed : c.ContextsClosed l₁) (hhook : HookStep l₂ l') :
    RecordStep c source (c.ledger source) (l' source) := by
  have hs := h.sourceDebited
  have hd := h.destinationCredited
  obtain ⟨balance, hdebited⟩ := hs.debited
  have hdata := hd.data
  rw [Ledger.setData_self] at hdata
  obtain rfl := AccountData.account.inj hdata
  have hfe : f = e' := by
    have := hd.extension
    rw [PodStateWithExtensions.setExtension_tlv, TypedStore.get_put_self] at this
    exact (Option.some.inj this).symm
  have hsettled := hd.settled
  rw [chargedFee, if_pos rfl] at hsettled
  obtain ⟨⟩ := hsettled
  refine .of_move (t := (s.setExtension .confidentialTransferAccount e').setExtension
      .confidentialTransferAccount f') (hclosed.foreign source) hs.owner hs.data hs.extension
    (TypedStore.get_put_self _ _ _)
    (.selfTransferred h.certified h.executes h.authority (h.keys.mpr rfl) hdebited
      (hfe ▸ hd.credited) hs.valid (hfe ▸ hd.valid)) rfl rfl
    ((Tlv.ChangesOnly.put (t := .confidentialTransferAccount) _ _ (by simp)).trans
      (Tlv.ChangesOnly.put (t := .confidentialTransferAccount) _ _ (by simp))) ?_
  have hkept := hhook source
  rwa [hd.ledger, Ledger.setData_self, Ledger.setData_self] at hkept

theorem ConfidentialMoved.of_ne (h : ConfidentialMoved c l₁ l₂ source mintKey destination p fee s d
    d' e e' f f') {k : Pubkey} (hs : k ≠ source) (hd : k ≠ destination) : l₂ k = l₁ k := by
  rw [h.destinationCredited.ledger, Ledger.setData_of_ne hd, Ledger.setData_of_ne hs]

end Moved

theorem processConfidentialTransfer_step {data : ConfidentialTransferData}
    (hix : IsConfidentialTransfer ix data)
    (h : processConfidentialTransfer x.zk env data accounts l = .ok l') (k : Pubkey) :
    RecordStep ⟨x, env, ix, accounts, l⟩ k (l k) (l' k) := by
  obtain ⟨source, mintKey, destination, l₂, ⟨-, l₁, hclosed, hmoved⟩, hhook, -⟩ :=
    processConfidentialTransfer_eq_ok hix h
  rcases hmoved with ⟨rfl, -⟩ | ⟨p, fee, s, d, d', e, e', f, f', hmoved⟩
  · exact (KeptRecord.trans (Or.inl (hclosed.foreign k)) (hhook k)).recordStep (by simp)
  by_cases hs : k = source
  · subst hs
    by_cases hd : k = destination
    · subst hd
      exact hmoved.self_step hclosed hhook
    · exact hmoved.source_step hd hclosed hhook
  by_cases hd : k = destination
  · subst hd
    exact hmoved.destination_step (Ne.symm hs) hclosed hhook
  · have hkept : KeptRecord [.transferHookAccount] k (l₁ k) (l' k) :=
      hmoved.of_ne hs hd ▸ hhook k
    exact (KeptRecord.trans (Or.inl (hclosed.foreign k)) hkept).recordStep (by simp)

end BarkToken
