import BarkToken.Guarantee.TransferEffect
import BarkToken.Invariant.Accounts

/-!
# When other programs are called (extension/transfer_hook, processor.rs:505-530,
confidential_transfer/processor.rs:627-662, confidential_transfer/verify_proof.rs:180-421)

A hook program is called in the middle of a transfer only: it is the program that the mint
names, it is told what has just moved, both accounts carry the flag, and nothing else is
different. The proof program is called before anything moves.
-/

namespace BarkToken
open Fallible CheckedWord AccountData

/-! ### The flag -/

/-- An account with its flag raised. -/
def flagged (s : PodStateWithExtensions PodAccount) : PodStateWithExtensions PodAccount :=
  s.setExtension .transferHookAccount ⟨true⟩

/-- The ledger with the flag of the account at `k` raised. -/
def raiseFlag (l : Ledger) (k : Pubkey) : Ledger :=
  match (l k).data with
  | .account s => l.setData k (.account (flagged s))
  | _ => l

/-- The account at `k` says that a transfer is going on. -/
def FlagRaised (l : Ledger) (k : Pubkey) : Prop :=
  ∃ s, AccountAt l k s ∧ s.tlv.get .transferHookAccount = some ⟨true⟩

section Flags

variable {l l' : Ledger} {j k : Pubkey} {s : PodStateWithExtensions PodAccount}

theorem flagged_get (s : PodStateWithExtensions PodAccount) :
    (flagged s).tlv.get .transferHookAccount = some ⟨true⟩ := by
  rw [flagged, PodStateWithExtensions.setExtension_tlv, TypedStore.get_put_self]

theorem raiseFlag_eq (hs : (l k).data = .account s) :
    raiseFlag l k = l.setData k (.account (flagged s)) := by
  rw [raiseFlag, hs]

theorem raiseFlag_of_ne (hne : j ≠ k) : raiseFlag l k j = l j := by
  unfold raiseFlag
  cases (l k).data with
  | account s => exact Ledger.setData_of_ne hne
  | _ => rfl

theorem FlagRaised.raiseFlag_self (hs : AccountAt l k s) : FlagRaised (raiseFlag l k) k := by
  rw [raiseFlag_eq hs.data]
  exact ⟨flagged s, .setData_self hs.owner _, flagged_get s⟩

/-- Raising another flag, or the same once more. -/
theorem FlagRaised.raiseFlag (h : FlagRaised l k) : FlagRaised (raiseFlag l j) k := by
  obtain ⟨s, hs, hget⟩ := h
  by_cases hne : k = j
  · subst hne
    exact .raiseFlag_self hs
  · have hsame : BarkToken.raiseFlag l j k = l k := raiseFlag_of_ne hne
    exact ⟨s, ⟨by rw [hsame, hs.owner], by rw [hsame, hs.data]⟩, hget⟩

theorem AccountAt.raiseFlag (h : AccountAt l k s) : ∃ s', AccountAt (raiseFlag l j) k s' := by
  by_cases hne : k = j
  · subst hne
    obtain ⟨s', hs', -⟩ := FlagRaised.raiseFlag_self h
    exact ⟨s', hs'⟩
  · have hsame : BarkToken.raiseFlag l j k = l k := raiseFlag_of_ne hne
    exact ⟨s, by rw [hsame, h.owner], by rw [hsame, h.data]⟩

theorem setTransferringAt_eq_ok (h : setTransferringAt l k = .ok l') : l' = raiseFlag l k := by
  simp only [setTransferringAt, bind_eq_ok] at h
  obtain ⟨s, hs, s', hset, hwrite⟩ := h
  obtain rfl := setTransferring_eq_ok hset
  obtain ⟨-, rfl⟩ := Ledger.writeData_eq_ok.mp hwrite
  exact (raiseFlag_eq (unpackAccount_eq_ok.mp hs).1).symm

end Flags

/-! ### What a call to another program can count on -/

/-- The amount that a hook is told of a confidential transfer. -/
def hiddenAmount : UInt64 := UInt64.ofNat (2 ^ 64 - 1)

/-- By `l'` the call has moved all that its transfer moves, and changed nothing else: a
public transfer the given amount with its fee; a confidential one the encrypted amounts,
or nothing where a context is missing. -/
inductive BalancesMoved (c : Call) (l' : Ledger) (source mintKey destination authority : Pubkey) :
    UInt64 → Prop
  | plain {amount decimals declared fee} (instruction : IsTransfer amount c.ix decimals declared)
      (accounts : TransferAccounts source destination authority decimals c.accounts (some mintKey))
      (charged : computedFee c.env c.ledger amount (some mintKey) = some fee)
      (effect : TransferEffect c.ledger l' source destination authority (some mintKey) amount fee)
      (others : ∀ k, k ≠ source → k ≠ destination → l' k = c.ledger k) :
      BalancesMoved c l' source mintKey destination authority amount
  | hidden {data} (instruction : IsConfidentialTransfer c.ix data) (names : c.NamesAuthority authority)
      (executed : ExecutedConfidential c l' source mintKey destination) :
      BalancesMoved c l' source mintKey destination authority hiddenAmount

/-- `m` is the ledger in the middle of the call's transfer. -/
structure MidTransfer (c : Call) (m : Ledger)
    (program source mintKey destination authority : Pubkey) (amount : UInt64) : Prop where
  program : givenHookProgram c.ledger (some mintKey) = some program
  moved : ∃ l', BalancesMoved c l' source mintKey destination authority amount ∧
    m = raiseFlag (raiseFlag l' source) destination
  sourceFlag : FlagRaised m source
  destinationFlag : FlagRaised m destination

/-- What a call to another program promises of the ledger `m` it is made in. -/
def Invocation.Promises (c : Call) : Invocation → Ledger → Prop
  | .transferHook program source mintKey destination authority _ amount, m =>
    MidTransfer c m program source mintKey destination authority amount
  | .closeContextState context destination authority, m =>
    ∃ data, IsConfidentialTransfer c.ix data ∧
      AsksToClose data.flags c.accounts context destination authority ∧
      ContextsClosed c.env data.flags c.accounts c.ledger m

/-- The same environment with other programs in the place of its own. -/
def Env.withPrograms (env : Env) (invoke : Invocation → Ledger → Except Fault Ledger)
    (invoke_frame : ∀ c l l', invoke c l = .ok l' →
      ForeignStep l l' ∧ l'.totalLamports = l.totalLamports) : Env :=
  { env with invoke := invoke, invoke_frame := invoke_frame }

theorem TransferEffect.ends {l l' : Ledger} {source destination authority : Pubkey}
    {mintKey : Option Pubkey} {amount fee : UInt64}
    (h : TransferEffect l l' source destination authority mintKey amount fee) :
    (∃ s, AccountAt l' source s) ∧ ∃ d, AccountAt l' destination d := by
  obtain ⟨s, d, s', d', -, -, hs', hd', -⟩ := h.accounts
  exact ⟨⟨s', hs'⟩, d', hd'⟩

/-- Both ends of a confidential transfer are accounts of this program. -/
theorem ExecutedConfidential.ends {c : Call} {l' : Ledger} {source mintKey destination : Pubkey}
    (h : ExecutedConfidential c l' source mintKey destination) :
    (∃ s, AccountAt l' source s) ∧ ∃ d, AccountAt l' destination d := by
  obtain ⟨l₁, -, ⟨-, hskipped⟩ | ⟨p, fee, s, d, d', e, e', f, f', hmoved⟩⟩ := h.moved
  · obtain ⟨s, howner, hdata, -⟩ := hskipped.source
    obtain ⟨d, howner', hdata', -⟩ := hskipped.destination
    rw [hskipped.ledger]
    exact ⟨⟨s, howner, hdata⟩, d, howner', hdata'⟩
  · have hsource := AccountAt.setData_self (l := l₁) hmoved.sourceDebited.owner
      (s.setExtension .confidentialTransferAccount e')
    have hcredited := hmoved.destinationCredited
    rw [hcredited.ledger]
    have hdestination := AccountAt.setData_self hcredited.owner d'
    by_cases hne : source = destination
    · subst hne
      exact ⟨⟨d', hdestination⟩, d', hdestination⟩
    · exact ⟨⟨_, hsource.setData_of_ne hne⟩, d', hdestination⟩

theorem BalancesMoved.ends {c : Call} {l' : Ledger}
    {source mintKey destination authority : Pubkey} {amount : UInt64}
    (h : BalancesMoved c l' source mintKey destination authority amount) :
    (∃ s, AccountAt l' source s) ∧ ∃ d, AccountAt l' destination d := by
  cases h with
  | plain _ _ _ heffect _ => exact heffect.ends
  | hidden _ _ hexecuted => exact hexecuted.ends

/-- Once all has moved, raising the two flags makes the ledger that a hook may see. -/
theorem BalancesMoved.midTransfer {c : Call} {l' : Ledger}
    {program source mintKey destination authority : Pubkey} {amount : UInt64}
    (h : BalancesMoved c l' source mintKey destination authority amount)
    (hprogram : givenHookProgram c.ledger (some mintKey) = some program) :
    MidTransfer c (raiseFlag (raiseFlag l' source) destination) program source mintKey destination
      authority amount := by
  obtain ⟨⟨s, hs⟩, d, hd⟩ := h.ends
  obtain ⟨d', hd'⟩ := hd.raiseFlag (j := source)
  exact ⟨hprogram, ⟨l', h, rfl⟩, (FlagRaised.raiseFlag_self hs).raiseFlag, .raiseFlag_self hd'⟩

section

variable {x : Externals} {env : Env} {ix : TokenInstruction} {accounts : List AccountInfo}
  {l l' : Ledger} {source mintKey destination : Pubkey} {amount : UInt64}
  {invoke : Invocation → Ledger → Except Fault Ledger}
  {invoke_frame : ∀ c l l', invoke c l = .ok l' →
    ForeignStep l l' ∧ l'.totalLamports = l.totalLamports}

/-! ### Public transfers -/

theorem invokeTransferHook_congr {program authority : Pubkey} {additional : List AccountInfo}
    {s d : PodStateWithExtensions PodAccount} (env' : Env) (hne : source ≠ destination)
    (hs : (l source).data = .account s) (hd : (l destination).data = .account d)
    (hagree : env'.invoke (.transferHook program source mintKey destination authority additional
        amount) (raiseFlag (raiseFlag l source) destination) =
      env.invoke (.transferHook program source mintKey destination authority additional amount)
        (raiseFlag (raiseFlag l source) destination)) :
    invokeTransferHook env' l program source mintKey destination s d authority additional amount =
      invokeTransferHook env l program source mintKey destination s d authority additional
        amount := by
  have hd' : (l.setData source (.account (flagged s)) destination).data = .account d := by
    rw [Ledger.setData_of_ne hne.symm, hd]
  rw [raiseFlag_eq hs, raiseFlag_eq hd'] at hagree
  unfold invokeTransferHook
  refine bind_congr_ok fun s' hs => bind_congr_ok fun d' hd => bind_congr_ok fun l₁ h₁ =>
    bind_congr_ok fun l₂ h₂ => ?_
  obtain rfl := setTransferring_eq_ok hs
  obtain rfl := setTransferring_eq_ok hd
  obtain ⟨-, rfl⟩ := Ledger.writeData_eq_ok.mp h₁
  obtain ⟨-, rfl⟩ := Ledger.writeData_eq_ok.mp h₂
  show (env'.invoke _ ((l.setData source (.account (flagged s))).setData destination
    (.account (flagged d))) >>= _) = _
  rw [hagree]
  rfl

/-- What follows the checks of a transfer calls the hook in its middle. -/
theorem DueTransfer.settle_congr {decimals : Option UInt8} {declared : Option UInt64}
    {authority : Pubkey} {mint : Option Pubkey} {fee : UInt64} {p : DueTransfer}
    (hagree : ∀ i m, Invocation.Promises ⟨x, env, ix, accounts, l⟩ i m → invoke i m = env.invoke i m)
    (hix : IsTransfer amount ix decimals declared)
    (haccounts : TransferAccounts source destination authority decimals accounts mint)
    (hfee : computedFee env l amount mint = some fee)
    (hp : p.Given l amount source destination authority mint fee) :
    p.settle (env.withPrograms invoke invoke_frame) amount l = p.settle env amount l := by
  obtain ⟨⟨rfl, rfl, rfl, rfl⟩, rfl, hhook, hne, hmints, hd, s, hs, hdebited⟩ := hp
  unfold settle
  refine bind_congr_ok fun d' hcredit => bind_congr_ok fun l₁ h₁ => bind_congr_ok fun l₂ h₂ =>
    bind_congr_ok fun l₃ hmove => ?_
  obtain ⟨-, rfl⟩ := Ledger.writeData_eq_ok.mp h₁
  obtain ⟨-, rfl⟩ := Ledger.writeData_eq_ok.mp h₂
  have hmoved := moveNativeLamports_eq_ok hne hmove
  have heffect := transferEffect_of_moved hne hs hd hmints hdebited
    (creditDestination_effect hcredit) hmoved ⟨rfl, rfl, fun _ _ => rfl⟩
  split
  case h_1 program mintInfo _ hprogram hmint =>
    rw [hmint] at haccounts hfee heffect hhook
    have hbalances : BalancesMoved ⟨x, env, ix, accounts, l⟩ l₃ p.sourceInfo.key mintInfo.key
        p.destinationInfo.key p.authorityInfo.key amount := by
      refine .plain hix haccounts hfee heffect fun k hks hkd => ?_
      rw [hmoved.others k hks hkd, Ledger.setData_of_ne hkd, Ledger.setData_of_ne hks]
    refine invokeTransferHook_congr _ hne ?_ ?_
      (hagree _ _ (hbalances.midTransfer (hhook.trans hprogram)))
    · rw [hmoved.data, Ledger.setData_of_ne hne, Ledger.setData_self]
    · rw [hmoved.data, Ledger.setData_self]
  case h_2 => rfl
  case h_3 => rfl

theorem processTransfer_congr {decimals : Option UInt8} {declared : Option UInt64}
    (hagree : ∀ i m, Invocation.Promises ⟨x, env, ix, accounts, l⟩ i m → invoke i m = env.invoke i m)
    (hix : IsTransfer amount ix decimals declared) :
    processTransfer (env.withPrograms invoke invoke_frame) amount decimals declared accounts l =
      processTransfer env amount decimals declared accounts l := by
  rw [processTransfer_eq, processTransfer_eq]
  show (dueTransfer env amount decimals declared accounts l >>= _) = _
  refine bind_congr_ok fun p hp => ?_
  obtain ⟨source, destination, authority, mint, fee, haccounts, hfee, -, -, hgiven⟩ :=
    dueTransfer_given hp
  cases p with
  | none => rfl
  | some p => exact DueTransfer.settle_congr hagree hix haccounts hfee (hgiven p rfl)

/-! ### The proof program -/

section Proofs

variable {tail : List AccountInfo} {data : ConfidentialTransferData}

/-- Contexts are closed before anything has moved. -/
theorem closeContextStates_congr {contexts : List AccountInfo}
    (hagree : ∀ i m, Invocation.Promises ⟨x, env, ix, accounts, l⟩ i m → invoke i m = env.invoke i m)
    (hix : IsConfidentialTransfer ix data)
    (hflag : data.flags.closeSplitContextStateOnExecution = true)
    (hsub : contexts ++ tail ⊆ accounts) :
    closeContextStates (env.withPrograms invoke invoke_frame) mintKey contexts tail l =
      closeContextStates env mintKey contexts tail l := by
  unfold closeContextStates
  refine bind_congr_ok ?_
  rintro ⟨destinationInfo, r₁⟩ h₁
  refine bind_congr_ok ?_
  rintro ⟨authorityInfo, r₂⟩ h₂
  refine bind_congr_ok ?_
  rintro ⟨programInfo, r₃⟩ h₃
  obtain rfl := nextAccountInfo_eq_ok.mp h₁
  obtain rfl := nextAccountInfo_eq_ok.mp h₂
  obtain rfl := nextAccountInfo_eq_ok.mp h₃
  have hasks : ∀ context ∈ contexts, AsksToClose data.flags accounts context.key destinationInfo.key
      authorityInfo.key := fun context hcontext =>
    (asksToClose_of_mem hflag hcontext).mono hsub
  refine bind_congr_ok fun _ _ => ?_
  rw [loop_congr (f := fun l context => env.invoke _ l)
    (ContextsClosed env data.flags accounts l) _ ?_ ?_ _ (.refl l)]
  · intro m context hcontext m' hm hinvoke
    exact hm.tail ⟨_, _, _, hasks context hcontext, hinvoke⟩
  · intro m context hcontext hm
    exact (hagree (.closeContextState _ _ _) m ⟨data, hix, hasks context hcontext, hm⟩).symm

theorem finishContexts_congr {contexts : List AccountInfo}
    (hagree : ∀ i m, Invocation.Promises ⟨x, env, ix, accounts, l⟩ i m → invoke i m = env.invoke i m)
    (hix : IsConfidentialTransfer ix data) (hsub : contexts ++ tail ⊆ accounts) :
    finishContexts (env.withPrograms invoke invoke_frame) mintKey data.flags contexts tail l =
      finishContexts env mintKey data.flags contexts tail l := by
  unfold finishContexts
  split
  case isTrue hflag => exact closeContextStates_congr hagree hix hflag hsub
  case isFalse => rfl

theorem verifySplitTransferProof_congr {handles : SourceDecryptHandles}
    (hagree : ∀ i m, Invocation.Promises ⟨x, env, ix, accounts, l⟩ i m → invoke i m = env.invoke i m)
    (hix : IsConfidentialTransfer ix data) (hsub : tail ⊆ accounts) :
    verifySplitTransferProof (env.withPrograms invoke invoke_frame) mintKey data.flags handles tail
        l = verifySplitTransferProof env mintKey data.flags handles tail l := by
  unfold verifySplitTransferProof
  refine bind_congr_ok ?_
  rintro ⟨equalityInfo, r₁⟩ h₁
  refine bind_congr_ok ?_
  rintro ⟨validityInfo, r₂⟩ h₂
  refine bind_congr_ok ?_
  rintro ⟨rangeInfo, r₃⟩ h₃
  obtain rfl := nextAccountInfo_eq_ok.mp h₁
  obtain rfl := nextAccountInfo_eq_ok.mp h₂
  obtain rfl := nextAccountInfo_eq_ok.mp h₃
  have hfinish : finishContexts (env.withPrograms invoke invoke_frame) mintKey data.flags
      [equalityInfo, validityInfo, rangeInfo] r₃ l = finishContexts env mintKey data.flags
      [equalityInfo, validityInfo, rangeInfo] r₃ l := finishContexts_congr hagree hix hsub
  simp only [hfinish]

theorem verifyTransferProof_congr {handles : SourceDecryptHandles}
    (hagree : ∀ i m, Invocation.Promises ⟨x, env, ix, accounts, l⟩ i m → invoke i m = env.invoke i m)
    (hix : IsConfidentialTransfer ix data) (hsub : tail ⊆ accounts) :
    verifyTransferProof (env.withPrograms invoke invoke_frame) mintKey data.proofInstructionOffset
        data.flags handles tail l =
      verifyTransferProof env mintKey data.proofInstructionOffset data.flags handles tail l := by
  unfold verifyTransferProof
  rw [verifySplitTransferProof_congr hagree hix hsub]
  rfl

theorem verifySplitTransferWithFeeProof_congr {zk : ZkOps} {handles : SourceDecryptHandles}
    {fee : TransferFee}
    (hagree : ∀ i m, Invocation.Promises ⟨x, env, ix, accounts, l⟩ i m → invoke i m = env.invoke i m)
    (hix : IsConfidentialTransfer ix data) (hsub : tail ⊆ accounts) :
    verifySplitTransferWithFeeProof zk (env.withPrograms invoke invoke_frame) mintKey data.flags
        handles fee tail l =
      verifySplitTransferWithFeeProof zk env mintKey data.flags handles fee tail l := by
  unfold verifySplitTransferWithFeeProof
  refine bind_congr_ok ?_
  rintro ⟨equalityInfo, r₁⟩ h₁
  refine bind_congr_ok ?_
  rintro ⟨validityInfo, r₂⟩ h₂
  refine bind_congr_ok ?_
  rintro ⟨sigmaInfo, r₃⟩ h₃
  refine bind_congr_ok ?_
  rintro ⟨feeInfo, r₄⟩ h₄
  refine bind_congr_ok ?_
  rintro ⟨rangeInfo, r₅⟩ h₅
  obtain rfl := nextAccountInfo_eq_ok.mp h₁
  obtain rfl := nextAccountInfo_eq_ok.mp h₂
  obtain rfl := nextAccountInfo_eq_ok.mp h₃
  obtain rfl := nextAccountInfo_eq_ok.mp h₄
  obtain rfl := nextAccountInfo_eq_ok.mp h₅
  have hfinish : finishContexts (env.withPrograms invoke invoke_frame) mintKey data.flags
      [equalityInfo, validityInfo, sigmaInfo, feeInfo, rangeInfo] r₅ l =
      finishContexts env mintKey data.flags
        [equalityInfo, validityInfo, sigmaInfo, feeInfo, rangeInfo] r₅ l :=
    finishContexts_congr hagree hix hsub
  simp only [hfinish]

theorem verifyTransferWithFeeProof_congr {zk : ZkOps} {handles : SourceDecryptHandles}
    {fee : TransferFee}
    (hagree : ∀ i m, Invocation.Promises ⟨x, env, ix, accounts, l⟩ i m → invoke i m = env.invoke i m)
    (hix : IsConfidentialTransfer ix data) (hsub : tail ⊆ accounts) :
    verifyTransferWithFeeProof zk (env.withPrograms invoke invoke_frame) mintKey
        data.proofInstructionOffset data.flags handles fee tail l =
      verifyTransferWithFeeProof zk env mintKey data.proofInstructionOffset data.flags handles fee
        tail l := by
  unfold verifyTransferWithFeeProof
  rw [verifySplitTransferWithFeeProof_congr hagree hix hsub]
  rfl

theorem executeForMint_congr {zk : ZkOps} {infos : TransferInfos}
    {mint : PodStateWithExtensions PodMint} {extension : ConfidentialTransferMint}
    (hagree : ∀ i m, Invocation.Promises ⟨x, env, ix, accounts, l⟩ i m → invoke i m = env.invoke i m)
    (hix : IsConfidentialTransfer ix data) (hsub : tail ⊆ accounts) :
    executeForMint zk (env.withPrograms invoke invoke_frame) data infos mint extension tail l =
      executeForMint zk env data infos mint extension tail l := by
  unfold executeForMint
  split
  case h_1 =>
    unfold executeTransfer
    rw [verifyTransferProof_congr hagree hix hsub]
    rfl
  case h_2 =>
    unfold executeTransferWithFee
    rw [verifyTransferWithFeeProof_congr hagree hix hsub]
    rfl

end Proofs

/-! ### Confidential transfers -/

theorem invokeConfidentialHook_congr {infos : TransferInfos} {mint : PodStateWithExtensions PodMint}
    {executed : ExecutedTransfer} {data : ConfidentialTransferData}
    (hagree : ∀ i m, Invocation.Promises ⟨x, env, ix, accounts, l⟩ i m → invoke i m = env.invoke i m)
    (hix : IsConfidentialTransfer ix data)
    (hmint : (l infos.mint.key).data.unpackMint = .ok mint)
    (hexecuted : ExecutedConfidential ⟨x, env, ix, accounts, l⟩ executed.ledger infos.source.key
      infos.mint.key infos.destination.key)
    (hnames : (Call.mk x env ix accounts l).NamesAuthority executed.authority.key) :
    invokeConfidentialHook (env.withPrograms invoke invoke_frame) infos mint executed =
      invokeConfidentialHook env infos mint executed := by
  unfold invokeConfidentialHook
  split
  case h_1 program hprogram =>
    refine bind_congr_ok fun l₁ h₁ => bind_congr_ok fun l₂ h₂ => ?_
    obtain rfl := setTransferringAt_eq_ok h₁
    obtain rfl := setTransferringAt_eq_ok h₂
    have hgiven : givenHookProgram l (some infos.mint.key) = some program := by
      rw [givenHookProgram, hmint]
      exact hprogram
    have hbalances := BalancesMoved.hidden (c := ⟨x, env, ix, accounts, l⟩) hix hnames hexecuted
    have hpromise : Invocation.Promises ⟨x, env, ix, accounts, l⟩ (.transferHook program
        infos.source.key infos.mint.key infos.destination.key executed.authority.key
        executed.signers hiddenAmount) _ := hbalances.midTransfer hgiven
    have hsame := hagree _ _ hpromise
    rw [hiddenAmount] at hsame
    show (invoke _ _ >>= _) = _
    rw [hsame]
  case h_2 => rfl

theorem processConfidentialTransfer_congr {data : ConfidentialTransferData}
    (hagree : ∀ i m, Invocation.Promises ⟨x, env, ix, accounts, l⟩ i m → invoke i m = env.invoke i m)
    (hix : IsConfidentialTransfer ix data) :
    processConfidentialTransfer x.zk (env.withPrograms invoke invoke_frame) data accounts l =
      processConfidentialTransfer x.zk env data accounts l := by
  unfold processConfidentialTransfer
  refine bind_congr_ok ?_
  rintro ⟨source, r₁⟩ h₁
  refine bind_congr_ok ?_
  rintro ⟨mintInfo, r₂⟩ h₂
  refine bind_congr_ok ?_
  rintro ⟨destination, tail⟩ h₃
  obtain rfl := nextAccountInfo_eq_ok.mp h₁
  obtain rfl := nextAccountInfo_eq_ok.mp h₂
  obtain rfl := nextAccountInfo_eq_ok.mp h₃
  refine bind_congr_ok fun _ howner => bind_congr_ok fun mint hmint =>
    bind_congr_ok fun _ _ => bind_congr_ok fun _ _ => ?_
  have hsub : tail ⊆ source :: mintInfo :: destination :: tail :=
    List.subset_append_right [source, mintInfo, destination] tail
  rw [executeForMint_congr hagree hix hsub]
  refine bind_congr_ok fun executed hexecuted => ?_
  obtain ⟨hexecuted, hnames⟩ := executeForMint_eq_ok ⟨source, mintInfo, destination⟩ hix
    (checkProgramAccount_eq_ok.mp howner) hmint hexecuted
  exact invokeConfidentialHook_congr hagree hix hmint hexecuted hnames

end

/-- An instruction sees of other programs only how they answer calls that keep their
promise. -/
theorem process_calls_promised (x : Externals) (env : Env) (ix : TokenInstruction)
    (accounts : List AccountInfo) (l : Ledger)
    (invoke : Invocation → Ledger → Except Fault Ledger)
    (invoke_frame : ∀ c l l', invoke c l = .ok l' →
      ForeignStep l l' ∧ l'.totalLamports = l.totalLamports)
    (hagree : ∀ i m, Invocation.Promises ⟨x, env, ix, accounts, l⟩ i m →
      invoke i m = env.invoke i m) :
    process x (env.withPrograms invoke invoke_frame) ix accounts l = process x env ix accounts l := by
  cases ix with
  | transfer amount => exact processTransfer_congr hagree .transfer
  | transferChecked amount decimals => exact processTransfer_congr hagree .transferChecked
  | transferCheckedWithFee amount decimals fee =>
    exact processTransfer_congr hagree .transferCheckedWithFee
  | confidentialTransfer balance offset => exact processConfidentialTransfer_congr hagree .single
  | confidentialTransferWithSplitProofs balance noOp close handles =>
    exact processConfidentialTransfer_congr hagree .split
  | _ => rfl

/-! ### A hook that demands the flag -/

/-- A mint with the hook program `⟨9⟩`, and two accounts of it. -/
def hookedLedger : Ledger := .ofList
  [(⟨1⟩, ⟨1, programId, .mint ⟨⟨some ⟨5⟩, 10, 2, true, none⟩, 234,
      [⟨.transferHook, ⟨⟨⟨0⟩⟩, ⟨⟨9⟩⟩⟩⟩]⟩⟩),
   (⟨2⟩, ⟨1, programId, .account
      { fundedAccount 10 0 none with len := 171, tlv := [⟨.transferHookAccount, ⟨false⟩⟩] }⟩),
   (⟨3⟩, ⟨1, programId, .account
      { fundedAccount 0 0 none with len := 171, tlv := [⟨.transferHookAccount, ⟨false⟩⟩] }⟩)]

/-- Every call succeeds, and changes nothing. -/
def acceptCalls (_ : Invocation) (l : Ledger) : Except Fault Ledger := .ok l

def flagIsRaised (l : Ledger) (k : Pubkey) : Bool :=
  match (l k).data with
  | .account s => decide (s.tlv.get .transferHookAccount = some ⟨true⟩)
  | _ => false

/-- The same, but a hook is refused outside of transfers. -/
def demandFlags : Invocation → Ledger → Except Fault Ledger
  | .transferHook _ source _ destination _ _ _, l => do
    ensure (flagIsRaised l source = true ∧ flagIsRaised l destination = true) Fault.runtime
    return l
  | .closeContextState _ _ _, l => .ok l

theorem acceptCalls_frame (c : Invocation) (l l' : Ledger) (h : acceptCalls c l = .ok l') :
    ForeignStep l l' ∧ l'.totalLamports = l.totalLamports := by
  obtain rfl := Except.ok.inj h
  exact ⟨.refl _, rfl⟩

theorem demandFlags_frame (c : Invocation) (l l' : Ledger) (h : demandFlags c l = .ok l') :
    ForeignStep l l' ∧ l'.totalLamports = l.totalLamports := by
  have hsame : l' = l := by
    cases c with
    | transferHook =>
      simp only [demandFlags, bind_eq_ok, exists_unit, pure_eq_ok] at h
      exact h.2.symm
    | closeContextState => exact (Except.ok.inj h).symm
  obtain rfl := hsame
  exact ⟨.refl _, rfl⟩

theorem FlagRaised.flagIsRaised {l : Ledger} {k : Pubkey} (h : FlagRaised l k) :
    flagIsRaised l k = true := by
  obtain ⟨s, hs, hget⟩ := h
  unfold BarkToken.flagIsRaised
  rw [hs.data]
  exact decide_eq_true hget

/-- A transfer passes a hook that demands the flags. -/
theorem process_calls_promised_demandFlags :
    (process .refusing
      ((Env.withPrograms (.plain 0) acceptCalls acceptCalls_frame).withPrograms demandFlags
        demandFlags_frame) (.transferChecked 10 2)
      [⟨⟨2⟩, false⟩, ⟨⟨1⟩, false⟩, ⟨⟨3⟩, false⟩, ⟨⟨7⟩, true⟩] hookedLedger).isOk = true := by
  rw [process_calls_promised .refusing (Env.withPrograms (.plain 0) acceptCalls acceptCalls_frame)
    (.transferChecked 10 2) _ hookedLedger demandFlags demandFlags_frame]
  · decide
  · intro c m hpromise
    cases c with
    | transferHook =>
      show (ensure _ _ >>= fun _ => _) = _
      rw [ensure, if_pos ⟨hpromise.sourceFlag.flagIsRaised, hpromise.destinationFlag.flagIsRaised⟩]
      rfl
    | closeContextState => rfl

end BarkToken
