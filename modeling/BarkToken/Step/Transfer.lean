import BarkToken.Step.Hook

/-!
# Transfer, step by step (Processor/Transfer)
-/

namespace BarkToken
open Fallible CheckedWord AccountData

variable {x : Externals} {env : Env} {ix : TokenInstruction} {accounts : List AccountInfo}
  {l l' : Ledger}

/-! ### Authority and terms -/

theorem authorizeDebit_eq_ok {blocked : TokenError} {s : PodStateWithExtensions PodAccount}
    {permanentDelegate : Option Pubkey} {authorityInfo : AccountInfo} {signers : List AccountInfo}
    {amount : UInt64} {base : PodAccount} {i : ℕ}
    (hindex : ix.authorityIndex l accounts = some i)
    (hdrop : accounts.drop i = authorityInfo :: signers) (hnum : ix.numTokenAccounts = 0)
    (hpermanent : ∀ d, permanentDelegate = some d → PermanentDelegateAt l s.base.mint d)
    (h : authorizeDebit env blocked l s permanentDelegate authorityInfo signers amount false =
      .ok base) :
    DebitAuthority ⟨x, env, ix, accounts, l⟩ s amount base := by
  unfold authorizeDebit at h
  split at h
  case isTrue hp =>
    simp only [bind_eq_ok, exists_unit, pure_eq_ok] at h
    obtain ⟨hauth, rfl⟩ := h
    exact .permanentDelegate (hpermanent _ hp) (Call.authorisedBy hindex hdrop hnum hauth)
  split at h
  case isTrue _ hd =>
    simp only [bind_eq_ok, exists_unit, ensure_eq_ok, Bool.false_eq_true, if_false, okOr_eq_ok,
      pure_eq_ok] at h
    obtain ⟨hauth, -, remaining, hremaining, rfl⟩ := h
    exact .delegate hd (Call.authorisedBy hindex hdrop hnum hauth)
      (checkedSub_eq_some.mp hremaining)
  case isFalse =>
    simp only [bind_eq_ok, exists_unit, checkCpiGuard_eq_ok, pure_eq_ok] at h
    obtain ⟨hauth, hguard, rfl⟩ := h
    exact .owner (Call.authorisedBy hindex hdrop hnum hauth) hguard

/-- What `transferTerms` reads from the mint, when one is given. -/
theorem transferTerms_eq_ok {sourceKey : Pubkey} {s : PodStateWithExtensions PodAccount}
    {expectedMint : Option (AccountInfo × UInt8)} {amount : UInt64} {terms : TransferTerms}
    (h : transferTerms env l sourceKey s expectedMint amount = .ok terms) :
    (expectedMint = none ∧ terms = ⟨0, none, none⟩) ∨
      ∃ mintInfo decimals mint, expectedMint = some (mintInfo, decimals) ∧
        s.base.mint = mintInfo.key ∧ (l s.base.mint).data.unpackMint = .ok mint ∧
        mintFee env mint amount = .ok terms.fee ∧
        terms.permanentDelegate = getPermanentDelegate mint ∧
        terms.transferHookProgramId = getTransferHookProgramId mint := by
  unfold transferTerms at h
  split at h
  case h_1 mintInfo decimals =>
    simp only [bind_eq_ok, exists_unit, ensure_eq_ok, pure_eq_ok] at h
    obtain ⟨hmint, -, mint, hunpack, -, fee, hfee, rfl⟩ := h
    exact Or.inr ⟨mintInfo, decimals, mint, rfl, hmint, hmint ▸ hunpack, hfee, rfl, rfl⟩
  case h_2 =>
    simp only [bind_eq_ok, exists_unit, pure_eq_ok] at h
    exact Or.inl ⟨rfl, h.2.2.symm⟩

theorem permanentDelegateAt_of_terms {sourceKey : Pubkey} {s : PodStateWithExtensions PodAccount}
    {expectedMint : Option (AccountInfo × UInt8)} {amount : UInt64} {terms : TransferTerms}
    (h : transferTerms env l sourceKey s expectedMint amount = .ok terms) (d : Pubkey)
    (hd : terms.permanentDelegate = some d) : PermanentDelegateAt l s.base.mint d := by
  rcases transferTerms_eq_ok h with ⟨-, rfl⟩ | ⟨mintInfo, decimals, mint, -, -, hmint, -, hp, -⟩
  · simp at hd
  · exact ⟨mint, hmint, hp ▸ hd⟩

/-! ### The destination -/

/-- A destination credited with an amount less its fee, which it withholds. -/
structure Credited (d d' : PodStateWithExtensions PodAccount) (amount fee : UInt64) : Prop where
  base : d'.base = { d.base with amount := d'.base.amount }
  len : d'.len = d.len
  credit : d'.base.amount.toNat + fee.toNat = d.base.amount.toNat + amount.toNat
  fee_le : fee.toNat ≤ amount.toNat
  withheld : (withheldAmount d').toNat = (withheldAmount d).toNat + fee.toNat
  changesOnly : Tlv.ChangesOnly [.transferFeeAmount] d.tlv d'.tlv

theorem creditDestination_eq_ok {d d' : PodStateWithExtensions PodAccount} {amount fee : UInt64}
    (h : creditDestination d amount fee = .ok d') : Credited d d' amount fee := by
  simp only [creditDestination, bind_eq_ok, okOr_eq_ok] at h
  obtain ⟨credited, hcredited, newAmount, hnew, h⟩ := h
  have hcredited := checkedSub_eq_some.mp hcredited
  have hnew := checkedAdd_eq_some.mp hnew
  split at h
  case isTrue =>
    split at h
    case h_1 extension hget =>
      simp only [bind_eq_ok, okOr_eq_ok, pure_eq_ok] at h
      obtain ⟨withheld, hwithheld, rfl⟩ := h
      refine ⟨rfl, rfl, ?_, by omega, ?_,
        Tlv.ChangesOnly.put (t := .transferFeeAmount) _ _ List.mem_cons_self⟩
      · dsimp only [PodStateWithExtensions.setExtension_base]
        omega
      · simp only [withheldAmount, PodStateWithExtensions.setExtension_tlv,
          TypedStore.get_put_self, Option.map_some, Option.getD_some]
        rw [checkedAdd_eq_some.mp hwithheld, hget]
        rfl
    case h_2 => simp at h
  case isFalse hzero =>
    obtain rfl := pure_eq_ok.mp h
    have hfee : fee.toNat = 0 := by
      have := UInt64.lt_iff_toNat_lt.not.mp hzero
      simpa using this
    refine ⟨rfl, rfl, ?_, by omega, ?_, .refl _ _⟩
    · dsimp only
      omega
    · simp only [withheldAmount, hfee, Nat.add_zero]

/-! ### Lamports -/

/-- The lamports behind a native balance, moved or not. -/
structure NativeMoved (l l' : Ledger) (isNative : Option UInt64) (source destination : Pubkey)
    (amount : UInt64) : Prop where
  owner : ∀ k, (l' k).owner = (l k).owner
  data : ∀ k, (l' k).data = (l k).data
  others : ∀ k, k ≠ source → k ≠ destination → l' k = l k
  debit : isNative.isSome → (l' source).lamports.toNat + amount.toNat = (l source).lamports.toNat
  credit : isNative.isSome →
    (l' destination).lamports.toNat = (l destination).lamports.toNat + amount.toNat
  none : isNative = none → l' = l
  total : l'.totalLamports = l.totalLamports

theorem moveNativeLamports_eq_ok {isNative : Option UInt64} {source destination : Pubkey}
    {amount : UInt64} (hne : source ≠ destination)
    (h : moveNativeLamports l isNative source destination amount = .ok l') :
    NativeMoved l l' isNative source destination amount := by
  unfold moveNativeLamports at h
  split at h
  case isTrue hsome =>
    simp only [bind_eq_ok, okOr_eq_ok, Ledger.writeLamports_eq_ok] at h
    obtain ⟨debited, hdebited, l₁, ⟨-, rfl⟩, credited, hcredited, -, rfl⟩ := h
    have hdebited := checkedSub_eq_some.mp hdebited
    have hcredited := checkedAdd_eq_some.mp hcredited
    have hdestination := Ledger.setLamports_of_ne (l := l) (n := debited) (Ne.symm hne)
    rw [hdestination] at hcredited
    refine ⟨fun k => ?_, fun k => ?_, fun k hs hd => ?_, fun _ => ?_, fun _ => ?_, fun hnone => ?_,
      ?_⟩
    · rw [Ledger.setLamports_owner, Ledger.setLamports_owner]
    · rw [Ledger.setLamports_data, Ledger.setLamports_data]
    · rw [Ledger.setLamports_of_ne hd, Ledger.setLamports_of_ne hs]
    · rw [Ledger.setLamports_of_ne hne, Ledger.setLamports_self]
      exact hdebited
    · rw [Ledger.setLamports_self]
      exact hcredited
    · rw [hnone] at hsome
      simp at hsome
    · rw [Ledger.totalLamports_setLamports, Ledger.totalLamports_setLamports, hdestination]
      omega
  case isFalse hnone =>
    obtain rfl := pure_eq_ok.mp h
    exact ⟨fun _ => rfl, fun _ => rfl, fun _ _ _ => rfl, fun hs => absurd hs hnone,
      fun hs => absurd hs hnone, fun _ => rfl, rfl⟩

/-! ### A transfer up to its credit -/

/-- A transfer whose checks have passed: the source is debited, the destination is
still to be credited. -/
structure DueTransfer where
  sourceInfo : AccountInfo
  expectedMint : Option (AccountInfo × UInt8)
  destinationInfo : AccountInfo
  authorityInfo : AccountInfo
  signers : List AccountInfo
  terms : TransferTerms
  source : PodStateWithExtensions PodAccount
  destination : PodStateWithExtensions PodAccount

/-- `process_transfer` up to the credit (`processor.rs:292-480`), without result for
a self-transfer. -/
def dueTransfer (env : Env) (amount : UInt64) (expectedDecimals : Option UInt8)
    (expectedFee : Option UInt64) (accounts : List AccountInfo) (l : Ledger) :
    Except Fault (Option DueTransfer) := do
  let (sourceInfo, accounts) ← nextAccountInfo accounts
  let (expectedMint, accounts) ← takeExpectedMint expectedDecimals accounts
  let (destinationInfo, accounts) ← nextAccountInfo accounts
  let (authorityInfo, signers) ← nextAccountInfo accounts
  let source ← (l sourceInfo.key).data.unpackAccount
  ensure (¬ source.base.frozen) (TokenError.accountFrozen : Fault)
  ensure (amount ≤ source.base.amount) (TokenError.insufficientFunds : Fault)
  ensure (¬ source.hasExtension .nonTransferableAccount) (TokenError.nonTransferable : Fault)
  let terms ← transferTerms env l sourceInfo.key source expectedMint amount
  ensure (∀ f ∈ expectedFee, f = terms.fee) (TokenError.feeMismatch : Fault)
  let selfTransfer := decide (sourceInfo.key = destinationInfo.key)
  let base ← authorizeDebit env .cpiGuardTransferBlocked l source terms.permanentDelegate
    authorityInfo signers amount selfTransfer
  checkProgramAccount (l sourceInfo.key).owner
  checkProgramAccount (l destinationInfo.key).owner
  if selfTransfer then return none
  else do
    let destination ← (l destinationInfo.key).data.unpackAccount
    ensure (¬ destination.base.frozen) (TokenError.accountFrozen : Fault)
    ensure (source.base.mint = destination.base.mint) (TokenError.mintMismatch : Fault)
    checkMemo env destination
    checkNonConfidentialTransferAllowed destination
    let sourceAmount ← okOr (checkedSub source.base.amount amount) (TokenError.overflow : Fault)
    let source := { source with base := { base with amount := sourceAmount } }
    return some ⟨sourceInfo, expectedMint, destinationInfo, authorityInfo, signers, terms, source,
      destination⟩

/-- The credit of `process_transfer`, and what comes after it (`processor.rs:480-530`). -/
def DueTransfer.settle (p : DueTransfer) (env : Env) (amount : UInt64) (l : Ledger) :
    Except Fault Ledger := do
  let destination ← creditDestination p.destination amount p.terms.fee
  let l ← l.writeData p.sourceInfo.key (.account p.source)
  let l ← l.writeData p.destinationInfo.key (.account destination)
  let l ← moveNativeLamports l p.source.base.isNative p.sourceInfo.key p.destinationInfo.key amount
  match p.terms.transferHookProgramId, p.expectedMint with
  | some hookProgram, some (mintInfo, _) =>
    invokeTransferHook env l hookProgram p.sourceInfo.key mintInfo.key p.destinationInfo.key
      p.source destination p.authorityInfo.key p.signers amount
  | some _, none => .error TokenError.mintRequiredForTransfer
  | none, _ => return l

/-- `process_transfer` is the two parts one after the other. -/
theorem processTransfer_eq {amount : UInt64} {decimals : Option UInt8} {fee : Option UInt64} :
    processTransfer env amount decimals fee accounts l =
      dueTransfer env amount decimals fee accounts l >>= fun p =>
        match p with
        | none => .ok l
        | some p => p.settle env amount l := by
  unfold processTransfer dueTransfer
  rw [bind_assoc]
  refine bind_congr_ok ?_
  rintro ⟨sourceInfo, rest⟩ -
  rw [bind_assoc]
  refine bind_congr_ok ?_
  rintro ⟨mint, rest⟩ -
  rw [bind_assoc]
  refine bind_congr_ok ?_
  rintro ⟨destinationInfo, rest⟩ -
  rw [bind_assoc]
  refine bind_congr_ok ?_
  rintro ⟨authorityInfo, signers⟩ -
  simp only [bind_assoc]
  refine bind_congr_ok fun source _ => bind_congr_ok fun _ _ => bind_congr_ok fun _ _ =>
    bind_congr_ok fun _ _ => bind_congr_ok fun terms _ => bind_congr_ok fun _ _ =>
    bind_congr_ok fun base _ => bind_congr_ok fun _ _ => bind_congr_ok fun _ _ => ?_
  split
  case isTrue => rfl
  case isFalse =>
    simp only [bind_assoc, pure_bind]
    rfl

/-! ### The whole instruction -/

/-- A transfer between two different accounts, up to the hook. -/
structure Transferred (c : Call) (l' : Ledger) (source destination : Pubkey)
    (s d s' d' : PodStateWithExtensions PodAccount) (amount fee : UInt64) : Prop where
  ne : source ≠ destination
  sourceOwner : (c.ledger source).owner = programId
  sourceData : (c.ledger source).data = .account s
  destinationOwner : (c.ledger destination).owner = programId
  destinationData : (c.ledger destination).data = .account d
  mint : s.base.mint = d.base.mint
  notFrozen : ¬ s.base.frozen ∧ ¬ d.base.frozen
  transferable : ¬ s.hasExtension .nonTransferableAccount
  authority : ∃ base, DebitAuthority c s amount base ∧
    s' = { s with base := { base with amount := s'.base.amount } }
  debit : s'.base.amount.toNat + amount.toNat = s.base.amount.toNat
  credited : Credited d d' amount fee
  owner : ∀ k, (l' k).owner = (c.ledger k).owner
  sourceData' : (l' source).data = .account s'
  destinationData' : (l' destination).data = .account d'
  others : ∀ k, k ≠ source → k ≠ destination → l' k = c.ledger k
  nativeDebit : s.base.isNative.isSome →
    (l' source).lamports.toNat + amount.toNat = (c.ledger source).lamports.toNat
  nativeCredit : s.base.isNative.isSome →
    (l' destination).lamports.toNat = (c.ledger destination).lamports.toNat + amount.toNat
  lamports : s.base.isNative = none → ∀ k, (l' k).lamports = (c.ledger k).lamports
  total : l'.totalLamports = c.ledger.totalLamports

theorem DebitAuthority.base_eq {c : Call} {s : PodStateWithExtensions PodAccount} {amount : UInt64}
    {base : PodAccount} (h : DebitAuthority c s amount base) :
    base.mint = s.base.mint ∧ base.owner = s.base.owner ∧ base.amount = s.base.amount ∧
      base.state = s.base.state ∧ base.isNative = s.base.isNative ∧
      base.closeAuthority = s.base.closeAuthority := by
  cases h with
  | permanentDelegate => exact ⟨rfl, rfl, rfl, rfl, rfl, rfl⟩
  | delegate => exact ⟨rfl, rfl, rfl, rfl, rfl, rfl⟩
  | owner => exact ⟨rfl, rfl, rfl, rfl, rfl, rfl⟩
  | burn => exact ⟨rfl, rfl, rfl, rfl, rfl, rfl⟩

/-- The mint listed by a checked transfer has a hook program. -/
def ListsHook (l : Ledger) (accounts : List AccountInfo) : Prop :=
  ∃ mintInfo mint, accounts[1]? = some mintInfo ∧ (l mintInfo.key).data.unpackMint = .ok mint ∧
    (getTransferHookProgramId mint).isSome

/-- `process_transfer` leaves a self-transfer alone and moves everything else,
then runs the hook if there is one. -/
theorem processTransfer_eq_ok {amount : UInt64} {decimals : Option UInt8} {fee : Option UInt64}
    (hindex : ix.authorityIndex l accounts = some (if decimals.isSome then 3 else 2))
    (hnum : ix.numTokenAccounts = 0)
    (h : processTransfer env amount decimals fee accounts l = .ok l') :
    l' = l ∨ ∃ source destination s d s' d' fee' l₁,
      Transferred ⟨x, env, ix, accounts, l⟩ l₁ source destination s d s' d' amount fee' ∧
        HookStep l₁ l' ∧ l'.totalLamports = l₁.totalLamports ∧ (l' = l₁ ∨ ListsHook l accounts) ∧
        source ∈ accounts.map AccountInfo.key ∧ destination ∈ accounts.map AccountInfo.key := by
  simp only [processTransfer, bind_eq_ok, Prod.exists, exists_unit, nextAccountInfo_eq_ok,
    takeExpectedMint_eq_ok, checkProgramAccount_eq_ok, ensure_eq_ok] at h
  obtain ⟨sourceInfo, rest, rfl, mint, rest', hmint, destinationInfo, rest'', rfl, authorityInfo,
    signers, rfl, s, hs, hsFrozen, -, hmarker, terms, hterms, -, base, hbase, hsourceOwner, hdestinationOwner,
    h⟩ := h
  have hsourceData := (unpackAccount_eq_ok.mp hs).1
  split at h
  case isTrue => exact Or.inl (pure_eq_ok.mp h).symm
  case isFalse hself =>
  have hne : sourceInfo.key ≠ destinationInfo.key := by simpa using hself
  simp only [hself] at hbase
  simp only [bind_eq_ok, exists_unit, ensure_eq_ok, okOr_eq_ok] at h
  obtain ⟨d, hd, hdFrozen, hmintEq, -, -, sourceAmount, hsub, d', hcredit, l₁, hwrite, l₂, hwrite', l₃,
    hmove, h⟩ := h
  have hdestinationData := (unpackAccount_eq_ok.mp hd).1
  obtain ⟨-, rfl⟩ := Ledger.writeData_eq_ok.mp hwrite
  obtain ⟨-, rfl⟩ := Ledger.writeData_eq_ok.mp hwrite'
  have hauth : DebitAuthority ⟨x, env, ix, sourceInfo :: rest, l⟩ s amount base := by
    refine authorizeDebit_eq_ok hindex ?_ hnum (permanentDelegateAt_of_terms hterms) hbase
    rcases hmint with ⟨rfl, -, rfl⟩ | ⟨dec, info, rfl, -, rfl⟩
    · rfl
    · rfl
  obtain ⟨-, -, -, -, hnative, -⟩ := hauth.base_eq
  have hmoved := moveNativeLamports_eq_ok hne hmove
  have htransferred : Transferred ⟨x, env, ix, sourceInfo :: rest, l⟩ l₃ sourceInfo.key
      destinationInfo.key s d { s with base := { base with amount := sourceAmount } } d' amount
      terms.fee := by
    refine ⟨hne, hsourceOwner, hsourceData, hdestinationOwner, hdestinationData, hmintEq,
      ⟨hsFrozen, hdFrozen⟩, hmarker, ⟨base, hauth, rfl⟩, checkedSub_eq_some.mp hsub, creditDestination_eq_ok hcredit, fun k => ?_,
      ?_, ?_, fun k hks hkd => ?_, fun hsome => ?_, fun hsome => ?_, fun hnone k => ?_, ?_⟩
    · rw [hmoved.owner, Ledger.setData_owner, Ledger.setData_owner]
    · rw [hmoved.data, Ledger.setData_of_ne hne, Ledger.setData_self]
    · rw [hmoved.data, Ledger.setData_self]
    · rw [hmoved.others k hks hkd, Ledger.setData_of_ne hkd, Ledger.setData_of_ne hks]
    · have := hmoved.debit (hnative ▸ hsome)
      rwa [Ledger.setData_lamports, Ledger.setData_lamports] at this
    · have := hmoved.credit (hnative ▸ hsome)
      rwa [Ledger.setData_lamports, Ledger.setData_lamports] at this
    · rw [hmoved.none (hnative.trans hnone), Ledger.setData_lamports, Ledger.setData_lamports]
    · rw [hmoved.total, Ledger.totalLamports_setData, Ledger.totalLamports_setData]
  have hlisted : sourceInfo.key ∈ (sourceInfo :: rest).map AccountInfo.key ∧
      destinationInfo.key ∈ (sourceInfo :: rest).map AccountInfo.key := by
    rcases hmint with ⟨rfl, -, rfl⟩ | ⟨dec, info, rfl, -, rfl⟩ <;> simp
  refine Or.inr ⟨_, _, _, _, _, _, _, l₃, htransferred, ?_⟩
  split at h
  case h_1 hookProgram mintInfo decimals hhook =>
    obtain ⟨hstep, htotal⟩ :=
      invokeTransferHook_step hne htransferred.sourceData' htransferred.destinationData' h
    refine ⟨hstep, htotal, Or.inr ?_, hlisted⟩
    rcases hmint with ⟨-, hnone, -⟩ | ⟨dec, info, rfl, hmint, rfl⟩
    · exact absurd hnone (by simp)
    · obtain ⟨rfl, -⟩ := Prod.mk.inj (Option.some.inj hmint)
      rcases transferTerms_eq_ok hterms with ⟨hnone, -⟩ | ⟨info, dec, m, hsome, hkey, hm, -, -, hterm⟩
      · exact absurd hnone (by simp)
      · obtain ⟨rfl, -⟩ := Prod.mk.inj (Option.some.inj hsome)
        exact ⟨_, m, rfl, hkey ▸ hm, by rw [← hterm, hhook]; rfl⟩
  case h_2 => simp at h
  case h_3 =>
    obtain rfl := pure_eq_ok.mp h
    exact ⟨.refl _, rfl, Or.inl rfl, hlisted⟩

end BarkToken
