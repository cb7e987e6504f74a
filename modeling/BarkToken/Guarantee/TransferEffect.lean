import BarkToken.Step.Record
import BarkToken.Step.Transfer
import BarkToken.Program.Replay

/-!
# What a transfer changes (processor.rs:285-533, extension/transfer_hook/mod.rs:63-80,
extension/transfer_fee/mod.rs:136-154)

The amounts, a withheld fee, an allowance that was used, and the lamports of
native accounts. A hook sees its flags set, and finds them as they were.
-/

namespace BarkToken
open Fallible CheckedWord AccountData

/-! ### The instruction -/

/-- The three forms of a transfer: whether a mint is given, and the fee that is
declared. -/
inductive IsTransfer (amount : UInt64) : TokenInstruction → Option UInt8 → Option UInt64 → Prop
  | transfer : IsTransfer amount (.transfer amount) none none
  | transferChecked {decimals} :
      IsTransfer amount (.transferChecked amount decimals) (some decimals) none
  | transferCheckedWithFee {decimals fee} :
      IsTransfer amount (.transferCheckedWithFee amount decimals fee) (some decimals) (some fee)

/-- The accounts of a transfer. -/
inductive TransferAccounts (source destination authority : Pubkey) :
    Option UInt8 → List AccountInfo → Option Pubkey → Prop
  | unchecked {sourceInfo destinationInfo authorityInfo rest} (hsource : sourceInfo.key = source)
      (hdestination : destinationInfo.key = destination) (hauthority : authorityInfo.key = authority) :
      TransferAccounts source destination authority none
        (sourceInfo :: destinationInfo :: authorityInfo :: rest) none
  | checked {decimals sourceInfo mintInfo destinationInfo authorityInfo rest}
      (hsource : sourceInfo.key = source) (hdestination : destinationInfo.key = destination)
      (hauthority : authorityInfo.key = authority) :
      TransferAccounts source destination authority (some decimals)
        (sourceInfo :: mintInfo :: destinationInfo :: authorityInfo :: rest) (some mintInfo.key)

/-- The fee that the given mint charges; none without a mint. -/
def computedFee (env : Env) (l : Ledger) (amount : UInt64) : Option Pubkey → Option UInt64
  | none => some 0
  | some mintKey => do
    let mint ← (l mintKey).data.unpackMint.toOption
    (mintFee env mint amount).toOption

/-- The permanent delegate of the given mint. -/
def givenPermanentDelegate (l : Ledger) : Option Pubkey → Option Pubkey
  | none => none
  | some mintKey => (l mintKey).data.unpackMint.toOption.bind getPermanentDelegate

/-- The hook program of the given mint. -/
def givenHookProgram (l : Ledger) : Option Pubkey → Option Pubkey
  | none => none
  | some mintKey => (l mintKey).data.unpackMint.toOption.bind getTransferHookProgramId

/-! ### The effect -/

/-- The hook's program leaves the account at `k` alone. -/
def Env.HookSpares (env : Env) (k : Pubkey) : Prop :=
  ∀ hookProgram source mint destination authority additionalAccounts amount l l',
    env.invoke (.transferHook hookProgram source mint destination authority additionalAccounts
      amount) l = .ok l' → l' k = l k

/-- No transfer is going on in the account at `k`. -/
def NotTransferring (l : Ledger) (k : Pubkey) : Prop :=
  ∀ s v, (l k).data = .account s → s.tlv.get .transferHookAccount = some v → v.transferring = false

/-- Where a hook runs, it touches none of the three accounts, and no transfer has
been going on in the two. -/
structure QuietHook (env : Env) (l : Ledger) (source destination : Pubkey)
    (mintKey : Option Pubkey) : Prop where
  source : env.HookSpares source ∧ NotTransferring l source
  destination : env.HookSpares destination ∧ NotTransferring l destination
  mint : ∀ k ∈ mintKey, env.HookSpares k

/-- The authority is the delegate, and not the permanent one. -/
def DelegateBranch (l : Ledger) (mintKey : Option Pubkey) (s : PodStateWithExtensions PodAccount)
    (authority : Pubkey) : Prop :=
  s.base.delegate = some authority ∧ givenPermanentDelegate l mintKey ≠ some authority

/-- The source before and after a transfer. -/
structure SourceEffect (l : Ledger) (mintKey : Option Pubkey) (authority : Pubkey) (amount : UInt64)
    (s s' : PodStateWithExtensions PodAccount) : Prop where
  debit : s'.base.amount.toNat + amount.toNat = s.base.amount.toNat
  delegate : DelegateBranch l mintKey s authority →
    s'.base.delegatedAmount.toNat + amount.toNat = s.base.delegatedAmount.toNat ∧
    s'.base.delegate = if s'.base.delegatedAmount = 0 then none else s.base.delegate
  others : ¬ DelegateBranch l mintKey s authority →
    s'.base.delegatedAmount = s.base.delegatedAmount ∧ s'.base.delegate = s.base.delegate
  frame : s' = { s with base := { s.base with
    amount := s'.base.amount, delegate := s'.base.delegate
    delegatedAmount := s'.base.delegatedAmount } }

/-- The destination before and after a transfer. -/
structure DestinationEffect (amount fee : UInt64) (d d' : PodStateWithExtensions PodAccount) :
    Prop where
  fee_le : fee.toNat ≤ amount.toNat
  credit : d'.base.amount.toNat = d.base.amount.toNat + (amount.toNat - fee.toNat)
  free : fee = 0 → d'.tlv = d.tlv
  withheld : fee ≠ 0 → ∃ v w : UInt64, d.tlv.get .transferFeeAmount = some ⟨v⟩ ∧
    w.toNat = v.toNat + fee.toNat ∧ d'.tlv = d.tlv.put .transferFeeAmount ⟨w⟩
  frame : d' = { d with base := { d.base with amount := d'.base.amount }, tlv := d'.tlv }

/-- What a transfer between two accounts changes. -/
structure TransferEffect (l l' : Ledger) (source destination authority : Pubkey)
    (mintKey : Option Pubkey) (amount fee : UInt64) : Prop where
  accounts : ∃ s d s' d', AccountAt l source s ∧ AccountAt l destination d ∧
    AccountAt l' source s' ∧ AccountAt l' destination d' ∧
    SourceEffect l mintKey authority amount s s' ∧ DestinationEffect amount fee d d' ∧
    (s.base.isNative.isSome →
      (l' source).lamports.toNat + amount.toNat = (l source).lamports.toNat ∧
      (l' destination).lamports.toNat = (l destination).lamports.toNat + amount.toNat) ∧
    (s.base.isNative = none → (l' source).lamports = (l source).lamports ∧
      (l' destination).lamports = (l destination).lamports)
  mint : ∀ k ∈ mintKey, l' k = l k

section

variable {env : Env} {l l' : Ledger} {amount : UInt64}

/-! ### The parts -/

theorem computedFee_of_terms {sourceKey : Pubkey} {s : PodStateWithExtensions PodAccount}
    {expectedMint : Option (AccountInfo × UInt8)} {terms : TransferTerms}
    (h : transferTerms env l sourceKey s expectedMint amount = .ok terms) :
    computedFee env l amount (expectedMint.map fun p => p.1.key) = some terms.fee ∧
      givenPermanentDelegate l (expectedMint.map fun p => p.1.key) = terms.permanentDelegate ∧
      givenHookProgram l (expectedMint.map fun p => p.1.key) = terms.transferHookProgramId ∧
      ∀ k ∈ expectedMint.map fun p => p.1.key, k ≠ sourceKey ∧ ∃ m, (l k).data = .mint m := by
  unfold transferTerms at h
  split at h
  case h_1 mintInfo decimals =>
    simp only [bind_eq_ok, exists_unit, ensure_eq_ok, pure_eq_ok] at h
    obtain ⟨-, hne, mint, hunpack, -, fee, hfee, rfl⟩ := h
    simp only [Option.map_some, computedFee, givenPermanentDelegate, givenHookProgram, hunpack, hfee,
      Except.toOption, Option.bind_eq_bind, Option.bind_some, true_and]
    intro k hk
    obtain rfl := Option.some.inj (Option.mem_def.mp hk)
    exact ⟨hne, mint, (unpackMint_eq_ok.mp hunpack).1⟩
  case h_2 =>
    simp only [bind_eq_ok, exists_unit, pure_eq_ok] at h
    obtain ⟨-, -, rfl⟩ := h
    exact ⟨rfl, rfl, rfl, fun k hk => absurd hk (Option.not_mem_none k)⟩

/-- The base state that an authorised debit leaves. -/
theorem authorizeDebit_effect {s : PodStateWithExtensions PodAccount} {mintKey : Option Pubkey}
    {blocked : TokenError} {authorityInfo : AccountInfo} {signers : List AccountInfo}
    {base : PodAccount} {sourceAmount : UInt64} (h : authorizeDebit env blocked l s
      (givenPermanentDelegate l mintKey) authorityInfo signers amount false = .ok base)
    (hsub : checkedSub s.base.amount amount = some sourceAmount) :
    SourceEffect l mintKey authorityInfo.key amount s
      { s with base := { base with amount := sourceAmount } } := by
  have hdebit := checkedSub_eq_some.mp hsub
  unfold authorizeDebit at h
  split at h
  case isTrue hp =>
    simp only [bind_eq_ok, exists_unit, pure_eq_ok] at h
    obtain ⟨-, rfl⟩ := h
    exact ⟨hdebit, fun hbranch => absurd hp hbranch.2, fun _ => ⟨rfl, rfl⟩, rfl⟩
  case isFalse hp =>
  split at h
  case isTrue hd =>
    simp only [bind_eq_ok, exists_unit, Bool.false_eq_true, if_false, okOr_eq_ok, pure_eq_ok] at h
    obtain ⟨-, -, remaining, hremaining, rfl⟩ := h
    exact ⟨hdebit, fun _ => ⟨checkedSub_eq_some.mp hremaining, rfl⟩,
      fun hother => absurd ⟨hd, hp⟩ hother, rfl⟩
  case isFalse hd =>
    simp only [bind_eq_ok, exists_unit, pure_eq_ok] at h
    obtain ⟨-, -, rfl⟩ := h
    exact ⟨hdebit, fun hbranch => absurd hbranch.1 hd, fun _ => ⟨rfl, rfl⟩, rfl⟩

theorem creditDestination_effect {d d' : PodStateWithExtensions PodAccount} {fee : UInt64}
    (h : creditDestination d amount fee = .ok d') : DestinationEffect amount fee d d' := by
  simp only [creditDestination, bind_eq_ok, okOr_eq_ok] at h
  obtain ⟨credited, hcredited, newAmount, hnew, h⟩ := h
  have hcredited := checkedSub_eq_some.mp hcredited
  have hnew := checkedAdd_eq_some.mp hnew
  have hcredit : newAmount.toNat = d.base.amount.toNat + (amount.toNat - fee.toNat) := by
    omega
  split at h
  case isTrue hpos =>
    have hfee : fee ≠ 0 := (UInt64.pos_iff_ne_zero).mp hpos
    split at h
    case h_1 extension hget =>
      simp only [bind_eq_ok, okOr_eq_ok, pure_eq_ok] at h
      obtain ⟨withheld, hwithheld, rfl⟩ := h
      exact ⟨by omega, hcredit, fun hzero => absurd hzero hfee,
        fun _ => ⟨_, withheld, hget, checkedAdd_eq_some.mp hwithheld, rfl⟩, rfl⟩
    case h_2 => cases h
  case isFalse hzero =>
    obtain rfl := pure_eq_ok.mp h
    have hfee : fee = 0 := UInt64.le_antisymm (UInt64.not_lt.mp hzero) UInt64.zero_le
    exact ⟨by omega, hcredit, fun _ => rfl, fun hne => absurd hfee hne, rfl⟩

/-! ### The hook -/

/-- A flag that was not set is as it was once it has been set and taken back. -/
theorem setExtension_transferring {s : PodStateWithExtensions PodAccount} {v : TransferHookAccount}
    (hget : s.tlv.get .transferHookAccount = some v) (hflag : v.transferring = false) :
    (s.setExtension .transferHookAccount ⟨true⟩).setExtension .transferHookAccount ⟨false⟩ = s := by
  have hv : v = ⟨false⟩ := by
    cases v
    exact congrArg _ hflag
  have hsame : s.tlv.put .transferHookAccount ⟨false⟩ = s.tlv := by
    rw [hv] at hget
    exact TypedStore.put_eq_self hget
  rw [PodStateWithExtensions.setExtension, PodStateWithExtensions.setExtension]
  dsimp only
  rw [TypedStore.put_put, hsame]

/-- Both flags are set on the way to the hook and taken back after it. -/
theorem invokeTransferHook_eq {hookProgram source mint destination authority : Pubkey}
    {s d : PodStateWithExtensions PodAccount} {additionalAccounts : List AccountInfo}
    (hs : (l source).data = .account s) (hd : (l destination).data = .account d)
    (hne : source ≠ destination) (hmint : mint ≠ source ∧ mint ≠ destination)
    (hsource : env.HookSpares source) (hdestination : env.HookSpares destination)
    (hspared : env.HookSpares mint)
    (hsFlag : ∀ v, s.tlv.get .transferHookAccount = some v → v.transferring = false)
    (hdFlag : ∀ v, d.tlv.get .transferHookAccount = some v → v.transferring = false)
    (h : invokeTransferHook env l hookProgram source mint destination s d authority
      additionalAccounts amount = .ok l') :
    l' source = l source ∧ l' destination = l destination ∧ l' mint = l mint := by
  simp only [invokeTransferHook, setTransferring, unsetTransferring, bind_eq_ok, pure_eq_ok,
    Ledger.writeData_eq_ok] at h
  obtain ⟨s₁, ⟨v, hv, rfl⟩, d₁, ⟨w, hw, rfl⟩, l₁, ⟨-, rfl⟩, l₂, ⟨-, rfl⟩, l₃, hinvoke, l₄,
    ⟨s₂, hs₂, -, -, -, rfl⟩, d₂, hd₂, -, -, -, rfl⟩ := h
  have hs₃ := hsource _ _ _ _ _ _ _ _ _ hinvoke
  have hd₃ := hdestination _ _ _ _ _ _ _ _ _ hinvoke
  have hm₃ := hspared _ _ _ _ _ _ _ _ _ hinvoke
  rw [Ledger.setData_of_ne hne, Ledger.setData_self] at hs₃
  rw [Ledger.setData_self, Ledger.setData_of_ne hne.symm] at hd₃
  rw [Ledger.setData_of_ne hmint.2, Ledger.setData_of_ne hmint.1] at hm₃
  rw [Ledger.setData_of_ne hne.symm, hd₃] at hd₂
  rw [hs₃] at hs₂
  obtain rfl := AccountData.account.inj (unpackAccount_eq_ok.mp hs₂).1
  obtain rfl := AccountData.account.inj (unpackAccount_eq_ok.mp hd₂).1
  have hv := PodStateWithExtensions.getExtension_eq_ok.mp hv
  have hw := PodStateWithExtensions.getExtension_eq_ok.mp hw
  rw [setExtension_transferring hv (hsFlag v hv), setExtension_transferring hw (hdFlag w hw)]
  refine ⟨?_, ?_, ?_⟩
  · rw [Ledger.setData_of_ne hne, Ledger.setData_self, hs₃, ← hs]
  · rw [Ledger.setData_self, Ledger.setData_of_ne hne.symm, hd₃, ← hd]
  · rw [Ledger.setData_of_ne hmint.2, Ledger.setData_of_ne hmint.1, hm₃]

/-! ### The whole transfer -/

theorem TransferAccounts.unique {decimals : Option UInt8} {accounts : List AccountInfo}
    {source destination authority source' destination' authority' : Pubkey}
    {mintKey mintKey' : Option Pubkey}
    (h : TransferAccounts source destination authority decimals accounts mintKey)
    (h' : TransferAccounts source' destination' authority' decimals accounts mintKey') :
    source' = source ∧ destination' = destination ∧ authority' = authority ∧ mintKey' = mintKey := by
  cases h with
  | unchecked hsource hdestination hauthority =>
    cases h' with
    | unchecked hsource' hdestination' hauthority' =>
      exact ⟨hsource'.symm.trans hsource, hdestination'.symm.trans hdestination,
        hauthority'.symm.trans hauthority, rfl⟩
  | checked hsource hdestination hauthority =>
    cases h' with
    | checked hsource' hdestination' hauthority' =>
      exact ⟨hsource'.symm.trans hsource, hdestination'.symm.trans hdestination,
        hauthority'.symm.trans hauthority, rfl⟩

/-- Between two accounts, up to the hook and through it. -/
theorem transferEffect_of_moved {l₁ : Ledger} {source destination authority : Pubkey}
    {mintKey : Option Pubkey} {fee : UInt64} {s d s' d' : PodStateWithExtensions PodAccount}
    (hne : source ≠ destination) (hs : AccountAt l source s) (hd : AccountAt l destination d)
    (hmint : ∀ k ∈ mintKey, k ≠ source ∧ k ≠ destination)
    (hsource : SourceEffect l mintKey authority amount s s')
    (hdestination : DestinationEffect amount fee d d')
    (hmoved : NativeMoved ((l.setData source (.account s')).setData destination (.account d')) l₁
      s'.base.isNative source destination amount)
    (hspared : l' source = l₁ source ∧ l' destination = l₁ destination ∧
      ∀ k ∈ mintKey, l' k = l₁ k) :
    TransferEffect l l' source destination authority mintKey amount fee := by
  obtain ⟨hsameSource, hsameDestination, hsameMint⟩ := hspared
  have hnative : s'.base.isNative = s.base.isNative := by rw [hsource.frame]
  refine ⟨⟨s, d, s', d', hs, hd, ⟨?_, ?_⟩, ⟨?_, ?_⟩, hsource, hdestination, fun hsome => ?_,
    fun hnone => ?_⟩, fun k hk => ?_⟩
  · rw [hsameSource, hmoved.owner, Ledger.setData_owner, Ledger.setData_owner]
    exact hs.owner
  · rw [hsameSource, hmoved.data, Ledger.setData_of_ne hne, Ledger.setData_self]
  · rw [hsameDestination, hmoved.owner, Ledger.setData_owner, Ledger.setData_owner]
    exact hd.owner
  · rw [hsameDestination, hmoved.data, Ledger.setData_self]
  · have hdebit := hmoved.debit (hnative ▸ hsome)
    have hcredit := hmoved.credit (hnative ▸ hsome)
    rw [Ledger.setData_lamports, Ledger.setData_lamports] at hdebit hcredit
    rw [hsameSource, hsameDestination]
    exact ⟨hdebit, hcredit⟩
  · rw [hsameSource, hsameDestination, hmoved.none (hnative.trans hnone), Ledger.setData_lamports,
      Ledger.setData_lamports, Ledger.setData_lamports, Ledger.setData_lamports]
    exact ⟨rfl, rfl⟩
  · obtain ⟨hks, hkd⟩ := hmint k hk
    rw [hsameMint k hk, hmoved.others k hks hkd, Ledger.setData_of_ne hkd, Ledger.setData_of_ne hks]

/-- What a due transfer has been given, and what it has made of the source. -/
structure DueTransfer.Given (p : DueTransfer) (l : Ledger) (amount : UInt64)
    (source destination authority : Pubkey) (mintKey : Option Pubkey) (fee : UInt64) : Prop where
  keys : p.sourceInfo.key = source ∧ p.destinationInfo.key = destination ∧
    p.authorityInfo.key = authority ∧ (p.expectedMint.map fun q => q.1.key) = mintKey
  charged : p.terms.fee = fee
  hook : givenHookProgram l mintKey = p.terms.transferHookProgramId
  ne : source ≠ destination
  mint : ∀ k ∈ mintKey, k ≠ source ∧ k ≠ destination
  destinationAt : AccountAt l destination p.destination
  debited : ∃ s, AccountAt l source s ∧ SourceEffect l mintKey authority amount s p.source

/-- Only a self-transfer is not due. -/
theorem dueTransfer_given {decimals : Option UInt8} {declared : Option UInt64}
    {accounts : List AccountInfo} {p : Option DueTransfer}
    (h : dueTransfer env amount decimals declared accounts l = .ok p) :
    ∃ source destination authority mintKey fee,
      TransferAccounts source destination authority decimals accounts mintKey ∧
      computedFee env l amount mintKey = some fee ∧ (∀ f ∈ declared, f = fee) ∧
      (p = none → source = destination) ∧
      ∀ q ∈ p, q.Given l amount source destination authority mintKey fee := by
  simp only [dueTransfer, bind_eq_ok, Prod.exists, exists_unit, nextAccountInfo_eq_ok,
    takeExpectedMint_eq_ok, checkProgramAccount_eq_ok, ensure_eq_ok] at h
  obtain ⟨sourceInfo, rest, rfl, mint, rest', hmint, destinationInfo, rest'', rfl, authorityInfo,
    signers, rfl, s, hs, -, -, -, terms, hterms, hdeclared, base, hbase, hsourceOwner,
    hdestinationOwner, h⟩ := h
  obtain ⟨hfee, hpermanent, hhook, hkeys⟩ := computedFee_of_terms hterms
  refine ⟨sourceInfo.key, destinationInfo.key, authorityInfo.key, mint.map fun p => p.1.key,
    terms.fee, ?_, hfee, hdeclared, ?_⟩
  · rcases hmint with ⟨rfl, rfl, rfl⟩ | ⟨dec, info, rfl, rfl, rfl⟩
    · exact .unchecked rfl rfl rfl
    · exact .checked rfl rfl rfl
  split at h
  case isTrue hself =>
    obtain rfl := pure_eq_ok.mp h
    exact ⟨fun _ => of_decide_eq_true hself, fun q hq => absurd hq (Option.not_mem_none q)⟩
  case isFalse hself =>
    simp only [bind_eq_ok, exists_unit, ensure_eq_ok, okOr_eq_ok, pure_eq_ok] at h
    obtain ⟨d, hd, -, -, -, -, sourceAmount, hsub, rfl⟩ := h
    have hdestination : AccountAt l destinationInfo.key d :=
      ⟨hdestinationOwner, (unpackAccount_eq_ok.mp hd).1⟩
    rw [Bool.eq_false_iff.mpr hself, ← hpermanent] at hbase
    refine ⟨fun hnone => absurd hnone (Option.some_ne_none _), fun q hq => ?_⟩
    obtain rfl := Option.some.inj (Option.mem_def.mp hq)
    refine ⟨⟨rfl, rfl, rfl, rfl⟩, rfl, hhook, by simpa using hself, fun k hk => ?_, hdestination,
      s, ⟨hsourceOwner, (unpackAccount_eq_ok.mp hs).1⟩, authorizeDebit_effect hbase hsub⟩
    obtain ⟨hks, m, hm⟩ := hkeys k hk
    refine ⟨hks, ?_⟩
    rintro rfl
    exact absurd (hm.symm.trans hdestination.data) (by simp)

/-- Settling a due transfer, with its hook. -/
theorem DueTransfer.settle_eq_ok {p : DueTransfer} {source destination authority : Pubkey}
    {mintKey : Option Pubkey} {fee : UInt64}
    (hp : p.Given l amount source destination authority mintKey fee)
    (h : p.settle env amount l = .ok l')
    (hquiet : (givenHookProgram l mintKey).isSome → QuietHook env l source destination mintKey) :
    TransferEffect l l' source destination authority mintKey amount fee := by
  obtain ⟨⟨rfl, rfl, rfl, rfl⟩, rfl, hhook, hne, hmintKeys, hd, s, hs, hdebited⟩ := hp
  simp only [settle, bind_eq_ok] at h
  obtain ⟨d', hcredit, l₁, hwrite, l₂, hwrite', l₃, hmove, h⟩ := h
  obtain ⟨-, rfl⟩ := Ledger.writeData_eq_ok.mp hwrite
  obtain ⟨-, rfl⟩ := Ledger.writeData_eq_ok.mp hwrite'
  have hmoved := moveNativeLamports_eq_ok hne hmove
  refine transferEffect_of_moved hne hs hd hmintKeys hdebited (creditDestination_effect hcredit)
    hmoved ?_
  split at h
  case h_1 hookProgram mintInfo decimals hhookProgram hmint =>
    rw [hmint] at hquiet hmintKeys
    obtain ⟨⟨hsSpared, hsFlag⟩, ⟨hdSpared, hdFlag⟩, hmSpared⟩ :=
      hquiet (by rw [← hmint, hhook, hhookProgram]; rfl)
    have hsKept : p.source.tlv = s.tlv := by rw [hdebited.frame]
    have hdKept := (creditDestination_eq_ok hcredit).changesOnly
    have hsData := hmoved.data p.sourceInfo.key
    rw [Ledger.setData_of_ne hne, Ledger.setData_self] at hsData
    have hdData := hmoved.data p.destinationInfo.key
    rw [Ledger.setData_self] at hdData
    obtain ⟨hsame, hsame', hsameMint⟩ := invokeTransferHook_eq hsData hdData hne
      (hmintKeys mintInfo.key rfl) hsSpared hdSpared (hmSpared mintInfo.key rfl)
      (fun v hv => hsFlag s v hs.data (hsKept ▸ hv))
      (fun v hv => hdFlag _ v hd.data (by rwa [← hdKept.get _ (by simp)])) h
    refine ⟨hsame, hsame', fun k hk => ?_⟩
    rw [hmint] at hk
    obtain rfl := Option.some.inj (Option.mem_def.mp hk)
    exact hsameMint
  case h_2 => cases h
  case h_3 =>
    obtain rfl := pure_eq_ok.mp h
    exact ⟨rfl, rfl, fun _ _ => rfl⟩

/-- What `process_transfer` does when it succeeds. -/
theorem processTransfer_effect {decimals : Option UInt8} {declared : Option UInt64}
    {accounts : List AccountInfo} (h : processTransfer env amount decimals declared accounts l = .ok l') :
    ∃ source destination authority mintKey fee,
      TransferAccounts source destination authority decimals accounts mintKey ∧
      computedFee env l amount mintKey = some fee ∧ (∀ f ∈ declared, f = fee) ∧
      (source = destination → l' = l) ∧
      (source ≠ destination → ((givenHookProgram l mintKey).isSome →
          QuietHook env l source destination mintKey) →
        TransferEffect l l' source destination authority mintKey amount fee) := by
  rw [processTransfer_eq, bind_eq_ok] at h
  obtain ⟨p, hdue, h⟩ := h
  obtain ⟨source, destination, authority, mintKey, fee, haccounts, hfee, hdeclared, hself, hgiven⟩ :=
    dueTransfer_given hdue
  refine ⟨source, destination, authority, mintKey, fee, haccounts, hfee, hdeclared, ?_⟩
  cases p with
  | none => exact ⟨fun _ => (Except.ok.inj h).symm, fun hne => absurd (hself rfl) hne⟩
  | some p =>
    have hp := hgiven p rfl
    exact ⟨fun heq => absurd heq hp.ne, fun _ => DueTransfer.settle_eq_ok hp h⟩

end

theorem Call.process_transfer_eq {c : Call} {amount : UInt64} {decimals : Option UInt8}
    {declared : Option UInt64} (hix : IsTransfer amount c.ix decimals declared) :
    c.process = processTransfer c.env amount decimals declared c.accounts c.ledger := by
  obtain ⟨x, env, ix, accounts, l⟩ := c
  cases hix <;> rfl

/-- The exact effect of every form of a transfer. -/
theorem transfer_exact {c : Call} {amount : UInt64} {decimals : Option UInt8}
    {declared : Option UInt64} (hix : IsTransfer amount c.ix decimals declared)
    {source destination authority : Pubkey} {mintKey : Option Pubkey}
    (haccounts : TransferAccounts source destination authority decimals c.accounts mintKey) :
    (∀ l', c.process = .ok l' →
      ∃ fee, computedFee c.env c.ledger amount mintKey = some fee ∧
        (source = destination → l' = c.ledger) ∧
        (source ≠ destination → ((givenHookProgram c.ledger mintKey).isSome →
            QuietHook c.env c.ledger source destination mintKey) →
          TransferEffect c.ledger l' source destination authority mintKey amount fee)) ∧
    ∀ fee f, computedFee c.env c.ledger amount mintKey = some fee → declared = some f → f ≠ fee →
      ∃ e, c.process = .error e := by
  rw [Call.process_transfer_eq hix]
  constructor
  · intro l' hrun
    obtain ⟨source', destination', authority', mintKey', fee, haccounts', hfee, -, hself, heffect⟩ :=
      processTransfer_effect hrun
    obtain ⟨rfl, rfl, rfl, rfl⟩ := haccounts.unique haccounts'
    exact ⟨fee, hfee, hself, heffect⟩
  · rintro fee f hfee rfl hne
    cases hrun : processTransfer c.env amount decimals (some f) c.accounts c.ledger with
    | error e => exact ⟨e, rfl⟩
    | ok l' =>
      obtain ⟨source', destination', authority', mintKey', fee', haccounts', hfee', hdeclared, -⟩ :=
        processTransfer_effect hrun
      obtain ⟨rfl, rfl, rfl, rfl⟩ := haccounts.unique haccounts'
      obtain rfl := Option.some.inj (hfee.symm.trans hfee')
      exact absurd (hdeclared f rfl) hne

/-- A mint with a fee of one percent, and two accounts of it. -/
def feeCalls : List (Env × TokenInstruction × List AccountInfo) :=
  [(.plain 0, .initializeTransferFeeConfig none none 100 5, [⟨⟨1⟩, false⟩]),
   (.plain 0, .initializeMint 2 ⟨5⟩ none false, [⟨⟨1⟩, false⟩]),
   (.plain 0, .initializeAccount3 ⟨7⟩, [⟨⟨2⟩, false⟩, ⟨⟨1⟩, false⟩]),
   (.plain 0, .initializeAccount3 ⟨8⟩, [⟨⟨3⟩, false⟩, ⟨⟨1⟩, false⟩]),
   (.plain 0, .mintTo 900 none, [⟨⟨1⟩, false⟩, ⟨⟨2⟩, false⟩, ⟨⟨5⟩, true⟩])]

def feeLedger : Ledger :=
  replay .refusing feeCalls (.ofList [(⟨1⟩, ⟨1, programId, .zeroed 278 []⟩),
    (⟨2⟩, ⟨1, programId, .zeroed 178 []⟩), (⟨3⟩, ⟨1, programId, .zeroed 178 []⟩)])

/-- Of 300 tokens, three are withheld. -/
theorem transfer_exact_fee :
    ∃ l', (Call.mk .refusing (.plain 0) (.transferCheckedWithFee 300 2 3)
      [⟨⟨2⟩, false⟩, ⟨⟨1⟩, false⟩, ⟨⟨3⟩, false⟩, ⟨⟨7⟩, true⟩] feeLedger).process = .ok l' ∧
      TransferEffect feeLedger l' ⟨2⟩ ⟨3⟩ ⟨7⟩ (some ⟨1⟩) 300 3 := by
  obtain ⟨l', hl'⟩ := Call.succeeds_of_isOk (c := .mk .refusing (.plain 0)
    (.transferCheckedWithFee 300 2 3)
    [⟨⟨2⟩, false⟩, ⟨⟨1⟩, false⟩, ⟨⟨3⟩, false⟩, ⟨⟨7⟩, true⟩] feeLedger) (by decide +kernel)
  obtain ⟨fee, hfee, -, heffect⟩ := (transfer_exact (c := .mk .refusing (.plain 0)
    (.transferCheckedWithFee 300 2 3)
    [⟨⟨2⟩, false⟩, ⟨⟨1⟩, false⟩, ⟨⟨3⟩, false⟩, ⟨⟨7⟩, true⟩] feeLedger)
    .transferCheckedWithFee (.checked rfl rfl rfl)).1 l' hl'
  have hthree : computedFee (.plain 0) feeLedger 300 (some ⟨1⟩) = some 3 := by decide +kernel
  obtain rfl := Option.some.inj (hfee.symm.trans hthree)
  have hnone : givenHookProgram feeLedger (some ⟨1⟩) = none := by decide +kernel
  refine ⟨l', hl', heffect (by decide) fun hsome => ?_⟩
  rw [hnone] at hsome
  cases hsome

end BarkToken
