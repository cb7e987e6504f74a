import BarkToken.Step.Initialize

/-!
# Lamports, step by step (Processor/Initialize, Processor/Supply, Processor/Lamports)
-/

namespace BarkToken
open Fallible CheckedWord AccountData

variable {x : Externals} {env : Env} {accounts : List AccountInfo} {l l' : Ledger}

theorem programId_ne_systemProgram : programId ≠ systemProgram := by decide

/-! ### The system program's transfer -/

/-- A transfer of the system program: only lamports move, and none leaves an
account of this program. -/
structure SystemTransferred (l l' : Ledger) (payer receiver : Pubkey) (lamports : UInt64) : Prop where
  owner : ∀ k, (l' k).owner = (l k).owner
  data : ∀ k, (l' k).data = (l k).data
  keeps : ∀ k, (l k).owner = programId → (l k).lamports ≤ (l' k).lamports
  receives : payer ≠ receiver →
    (l' receiver).lamports.toNat = (l receiver).lamports.toNat + lamports.toNat
  total : l'.totalLamports = l.totalLamports
  payerOwner : (l payer).owner = systemProgram

theorem systemTransfer_eq_ok {payer : AccountInfo} {receiver : Pubkey} {lamports : UInt64}
    (h : systemTransfer l payer receiver lamports = .ok l') :
    SystemTransferred l l' payer.key receiver lamports := by
  simp only [systemTransfer, bind_eq_ok, exists_unit, ensure_eq_ok, okOr_eq_ok, pure_eq_ok] at h
  obtain ⟨-, -, howner, debited, hdebited, credited, hcredited, rfl⟩ := h
  have hsub := checkedSub_eq_some.mp hdebited
  have hadd := checkedAdd_eq_some.mp hcredited
  refine ⟨fun k => ?_, fun k => ?_, fun k hk => ?_, fun hne => ?_, ?_, howner⟩
  · rw [Ledger.setLamports_owner, Ledger.setLamports_owner]
  · rw [Ledger.setLamports_data, Ledger.setLamports_data]
  · have hpayer : k ≠ payer.key := by
      rintro rfl
      exact programId_ne_systemProgram (hk.symm.trans howner)
    by_cases hreceiver : k = receiver
    · subst hreceiver
      rw [Ledger.setLamports_of_ne hpayer] at hadd
      rw [Ledger.setLamports_self, UInt64.le_iff_toNat_le]
      dsimp only
      omega
    · rw [Ledger.setLamports_of_ne hreceiver, Ledger.setLamports_of_ne hpayer]
      exact UInt64.le_refl _
  · rw [Ledger.setLamports_self]
    rw [Ledger.setLamports_of_ne (Ne.symm hne)] at hadd
    exact hadd
  · rw [Ledger.totalLamports_setLamports, Ledger.totalLamports_setLamports]
    omega

theorem SystemTransferred.foreignStep {payer receiver : Pubkey} {lamports : UInt64}
    (h : SystemTransferred l l' payer receiver lamports) : ForeignStep l l' := fun k =>
  ⟨fun hk => ⟨(h.owner k).trans hk, h.data k, h.keeps k hk⟩,
    fun hk hk' => absurd ((h.owner k).symm.trans hk') hk⟩

theorem processCreateNativeMint_step {c : Call}
    (h : processCreateNativeMint env accounts l = .ok l') (k : Pubkey) :
    NeutralStep c k (l k) (l' k) := by
  simp only [processCreateNativeMint, bind_eq_ok, Prod.exists, exists_unit, ensure_eq_ok,
    pure_eq_ok] at h
  obtain ⟨payerInfo, rest, -, nativeMintInfo, rest', -, systemInfo, rest'', -, hkey, l₁, htransfer,
    ⟨howner, -⟩, rfl⟩ := h
  have hsystem := systemTransfer_eq_ok htransfer
  by_cases hk : k = nativeMintInfo.key
  · subst hk
    rw [Function.update_self]
    exact .createNativeMint hkey ((hsystem.owner _).symm.trans howner) rfl rfl
  · rw [Function.update_of_ne hk]
    exact .foreign (hsystem.foreignStep k)

/-! ### Lengths -/

theorem totalTlvLen_bound {types : List ExtensionType} {start n : ℕ}
    (h : loop (fun n t => do
      let valueLen ← okOr (ExtensionType.typeLen t) (ProgramError.invalidArgument : Fault)
      return n + Tlv.entryLen valueLen) types start = .ok n) :
    start ≤ n ∧ (types ≠ [] → start < n) := by
  induction types generalizing start with
  | nil =>
    obtain rfl := Except.ok.inj h
    simp
  | cons t types ih =>
    obtain ⟨m, hm, hrest⟩ := loop_cons_eq_ok.mp h
    simp only [bind_eq_ok, okOr_eq_ok, pure_eq_ok] at hm
    obtain ⟨valueLen, -, rfl⟩ := hm
    have := (ih hrest).1
    unfold Tlv.entryLen at this
    exact ⟨by omega, fun _ => by omega⟩

/-- The length of an account with these extensions is one that unpacks. -/
theorem calculateAccountLen_bound {sizeOf n : ℕ} {types : List ExtensionType}
    (h : ExtensionType.calculateAccountLen sizeOf types = .ok n) :
    types = [] ∧ n = sizeOf ∨ n ≠ multisigLen ∧ baseAccountAndTypeLength < n := by
  unfold ExtensionType.calculateAccountLen at h
  split at h
  case isTrue hnil => exact Or.inl ⟨hnil, (Except.ok.inj h).symm⟩
  case isFalse hne =>
    simp only [bind_eq_ok, pure_eq_ok] at h
    obtain ⟨tlvLen, htlv, rfl⟩ := h
    have hdups : types.eraseDups ≠ [] := by
      cases types with
      | nil => exact absurd rfl hne
      | cons t rest => simp [List.eraseDups_cons]
    have hpos := (totalTlvLen_bound htlv).2 hdups
    refine Or.inr ?_
    unfold adjustLenForMultisig multisigLen baseAccountAndTypeLength
    split <;> omega

/-! ### Reallocation -/

/-- What a reallocation looks at. -/
structure ReallocationOf (c : Call) (types : List ExtensionType) (k : Pubkey)
    (s : PodStateWithExtensions PodAccount) (needed : ℕ) : Prop where
  key : c.key 0 = some k
  unpack : (c.ledger k).data.unpackAccount = .ok s
  kinds : ∀ t ∈ types, t.accountType = .account
  needed : ExtensionType.calculateAccountLen baseAccountLength (s.extensionTypes ++ types) =
    .ok needed

/-- The account with room for more; the reserve of a native one follows. -/
structure Grown (s s' : PodStateWithExtensions PodAccount) (needed : ℕ) : Prop where
  longer : s.len < needed
  len : s'.len = needed
  tlv : s'.tlv = s.tlv
  base : s'.base = { s.base with isNative := s'.base.isNative }
  native : s'.base.isNative.isSome = s.base.isNative.isSome

/-- What a reallocation that grows an account does. -/
structure Reallocated (c : Call) (l' : Ledger) (k : Pubkey)
    (s s' : PodStateWithExtensions PodAccount) : Prop where
  owner : (c.ledger k).owner = programId
  data : (c.ledger k).data = .account s
  owner' : (l' k).owner = programId
  data' : (l' k).data = .account s'
  lamports : (c.ledger k).lamports ≤ (l' k).lamports
  update : AccountUpdate c k (l' k).lamports s s'
  others : ∀ j, j ≠ k → ForeignRecord j (c.ledger j) (l' j)

theorem topUpRent_foreign {payerInfo : AccountInfo} {k : Pubkey} {lamports : UInt64}
    (h : topUpRent l payerInfo k lamports = .ok l') :
    ForeignStep l l' ∧ ∀ j, (l' j).data = (l j).data := by
  unfold topUpRent at h
  split at h
  · have hsystem := systemTransfer_eq_ok h
    exact ⟨hsystem.foreignStep, hsystem.data⟩
  · obtain rfl := Except.ok.inj h
    exact ⟨.refl l, fun _ => rfl⟩

/-- The recorded reserve after `syncReserve`, and what it promises. -/
theorem syncReserve_eq_ok {k : Pubkey} {s : PodStateWithExtensions PodAccount} {reserve : UInt64}
    (hdata : (l k).data = .account s) (h : syncReserve l k s reserve = .ok l') :
    ∃ isNative, l' = l.setData k (.account { s with base := { s.base with isNative := isNative } }) ∧
      (s.base.isNative = none → isNative = none) ∧
      (s.base.isNative.isSome → isNative = some reserve ∧
        reserve.toNat + s.base.amount.toNat ≤ (l k).lamports.toNat) := by
  unfold syncReserve at h
  split at h
  case isTrue hsome =>
    simp only [bind_eq_ok, exists_unit, okOr_eq_ok, ensure_eq_ok] at h
    obtain ⟨minimum, hminimum, hle, hwrite⟩ := h
    obtain ⟨-, rfl⟩ := Ledger.writeData_eq_ok.mp hwrite
    refine ⟨some reserve, rfl, fun hnone => ?_, fun _ => ⟨rfl, ?_⟩⟩
    · rw [hnone] at hsome
      simp at hsome
    · rw [← checkedAdd_eq_some.mp hminimum]
      exact UInt64.le_iff_toNat_le.mp hle
  case isFalse hnone =>
    obtain rfl := Except.ok.inj h
    exact ⟨s.base.isNative, (Ledger.setData_eq_self hdata).symm, id, fun hsome => absurd hsome hnone⟩

theorem processReallocate_eq_ok {types : List ExtensionType}
    (h : processReallocate env types accounts l = .ok l') :
    ∃ k s needed, ReallocationOf ⟨x, env, .reallocate types, accounts, l⟩ types k s needed ∧
      (l' = l ∧ needed ≤ s.len ∨
        ∃ s', Reallocated ⟨x, env, .reallocate types, accounts, l⟩ l' k s s' ∧ Grown s s' needed) := by
  simp only [processReallocate, bind_eq_ok, Prod.exists, exists_unit, nextAccountInfo_eq_ok] at h
  obtain ⟨tokenAccountInfo, rest, rfl, payerInfo, rest', rfl, systemInfo, rest'', rfl, authorityInfo,
    signers, rfl, account, haccount, howner, hkinds, needed, hneeded, h⟩ := h
  obtain ⟨hdata, -, -, hlen⟩ := unpackAccount_eq_ok.mp haccount
  refine ⟨tokenAccountInfo.key, account, needed, ⟨rfl, haccount, ensure_eq_ok.mp hkinds, hneeded⟩, ?_⟩
  simp only [ite_eq_ok, pure_eq_ok, bind_eq_ok, okOr_eq_ok] at h
  rcases h with ⟨hlong, rfl⟩ | ⟨hgrow, l₁, hwrite, currentReserve, -, l₂, htop, hsync⟩
  · exact Or.inl ⟨rfl, hlong⟩
  obtain ⟨hprogram, rfl⟩ := Ledger.writeData_eq_ok.mp hwrite
  have hprogram : (l tokenAccountInfo.key).owner = programId := by
    refine hprogram.resolve_right fun hsame => hgrow ?_
    rw [hdata, AccountData.account.injEq] at hsame
    exact (congrArg PodStateWithExtensions.len hsame).ge
  obtain ⟨hforeign, hdata₂⟩ := topUpRent_foreign htop
  have hkeeps := (hforeign tokenAccountInfo.key).keeps (by simpa using hprogram)
  have hdata₂' : (l₂ tokenAccountInfo.key).data = .account { account with len := needed } := by
    rw [hdata₂, Ledger.setData_self]
  obtain ⟨isNative, rfl, hnone, hsome⟩ := syncReserve_eq_ok hdata₂' hsync
  have hneeded' : needed ≠ multisigLen ∧ baseAccountAndTypeLength < needed := by
    refine (calculateAccountLen_bound hneeded).resolve_left fun hbare => hgrow ?_
    have hbase := hbare.2
    unfold baseAccountAndTypeLength baseAccountLength at *
    omega
  refine Or.inr ⟨{ account with base := { account.base with isNative := isNative }, len := needed },
    ⟨hprogram, hdata, ?_, by rw [Ledger.setData_self], ?_, ?_, fun j hj => ?_⟩,
    ⟨not_le.mp hgrow, rfl, rfl, rfl, ?_⟩⟩
  · rw [Ledger.setData_owner]
    exact hkeeps.1
  · rw [Ledger.setData_lamports]
    simpa using hkeeps.2.2
  · rw [Ledger.setData_lamports]
    exact .reallocate (Call.authorisedBy rfl rfl rfl howner) hneeded' hnone
      (fun hs => ⟨_, hsome hs⟩) ⟨types, rfl⟩
  · rw [Ledger.setData_of_ne hj]
    have := hforeign j
    rwa [Ledger.setData_of_ne hj] at this
  · cases hnative : account.base.isNative with
    | none => rw [hnone hnative]
    | some reserve => rw [(hsome (Option.isSome_of_eq_some hnative)).1]; rfl

theorem processReallocate_step {types : List ExtensionType}
    (h : processReallocate env types accounts l = .ok l') (k : Pubkey) :
    NeutralStep ⟨x, env, .reallocate types, accounts, l⟩ k (l k) (l' k) := by
  obtain ⟨j, s, needed, -, ⟨rfl, -⟩ | ⟨s', hr, -⟩⟩ := processReallocate_eq_ok (x := x) h
  · exact .refl _ k _
  · by_cases hk : k = j
    · subst hk
      exact .account hr.owner hr.owner' hr.data hr.data' hr.lamports hr.update
    · exact .foreign (hr.others k hk)

/-! ### Excess lamports -/

/-- What `WithdrawExcessLamports` does: the source keeps its rent-exempt minimum
and is no native account, and what it loses its destination gains. -/
structure ExcessWithdrawn (env : Env) (l l' : Ledger) (source destination : Pubkey) : Prop where
  owner : ∀ k, (l' k).owner = (l k).owner
  data : ∀ k, (l' k).data = (l k).data
  others : ∀ k, k ≠ source → (l k).lamports ≤ (l' k).lamports
  frame : ∀ k, k ≠ source → k ≠ destination → l' k = l k
  nativeFree : ∀ s, (l source).data.unpackAccount = .ok s → s.base.isNative = none
  debit : (l source).owner = programId ∨ l' = l
  minimum : env.minimumBalance (l source).data.len ≤ (l' source).lamports
  total : l'.totalLamports = l.totalLamports

theorem processWithdrawExcessLamports_eq_ok
    (h : processWithdrawExcessLamports env accounts l = .ok l') :
    ∃ sourceInfo destinationInfo rest, accounts = sourceInfo :: destinationInfo :: rest ∧
      ExcessWithdrawn env l l' sourceInfo.key destinationInfo.key := by
  simp only [processWithdrawExcessLamports, bind_eq_ok, Prod.exists, exists_unit,
    nextAccountInfo_eq_ok, okOr_eq_ok, Ledger.writeLamports_eq_ok] at h
  obtain ⟨sourceInfo, rest, rfl, destinationInfo, rest', rfl, authorityInfo, signers, rfl, hauth,
    transferAmount, htransfer, newLamports, hnew, l₁, ⟨hsource, rfl⟩, destinationLamports, hadd, -,
    rfl⟩ := h
  refine ⟨sourceInfo, destinationInfo, _, rfl, ?_⟩
  have htransfer := checkedSub_eq_some.mp htransfer
  have hnew := checkedSub_eq_some.mp hnew
  have hadd := checkedAdd_eq_some.mp hadd
  refine ⟨fun k => ?_, fun k => ?_, fun k hk => ?_, fun k hs hd => ?_, fun s hs => ?_, ?_, ?_, ?_⟩
  · rw [Ledger.setLamports_owner, Ledger.setLamports_owner]
  · rw [Ledger.setLamports_data, Ledger.setLamports_data]
  · by_cases hd : k = destinationInfo.key
    · subst hd
      rw [Ledger.setLamports_of_ne hk] at hadd
      rw [Ledger.setLamports_self, UInt64.le_iff_toNat_le]
      dsimp only
      omega
    · rw [Ledger.setLamports_of_ne hd, Ledger.setLamports_of_ne hk]
      exact UInt64.le_refl _
  · rw [Ledger.setLamports_of_ne hd, Ledger.setLamports_of_ne hs]
  · rw [authorizeWithdrawExcess, hs] at hauth
    simp only [bind_eq_ok, exists_unit, ensure_eq_ok] at hauth
    exact hauth.1
  · rcases hsource with howner | hle
    · exact Or.inl howner
    · have hle := UInt64.le_iff_toNat_le.mp hle
      have hzero : newLamports = (l sourceInfo.key).lamports := UInt64.toNat_inj.mp (by omega)
      have hsame : l.setLamports sourceInfo.key newLamports = l := by
        rw [hzero]
        exact Function.update_eq_self _ l
      rw [hsame] at hadd ⊢
      have hzero' : destinationLamports = (l destinationInfo.key).lamports :=
        UInt64.toNat_inj.mp (by omega)
      rw [hzero']
      exact Or.inr (Function.update_eq_self _ l)
  · by_cases hd : sourceInfo.key = destinationInfo.key
    · rw [← hd, Ledger.setLamports_self] at hadd
      rw [hd, Ledger.setLamports_self, UInt64.le_iff_toNat_le, ← hd]
      dsimp only at hadd ⊢
      omega
    · rw [Ledger.setLamports_of_ne hd, Ledger.setLamports_self, UInt64.le_iff_toNat_le]
      dsimp only
      omega
  · rw [Ledger.totalLamports_setLamports, Ledger.totalLamports_setLamports]
    omega

theorem processWithdrawExcessLamports_step {c : Call}
    (h : processWithdrawExcessLamports env accounts l = .ok l') (k : Pubkey) :
    NeutralStep c k (l k) (l' k) := by
  obtain ⟨sourceInfo, destinationInfo, rest, -, hw⟩ := processWithdrawExcessLamports_eq_ok h
  rcases hw.debit with howner | rfl
  · by_cases hk : k = sourceInfo.key
    · subst hk
      exact .withdrawExcess howner ((hw.owner _).trans howner) (hw.data _) hw.nativeFree
    · refine .foreign ⟨fun ho => ⟨(hw.owner k).trans ho, hw.data k, hw.others k hk⟩, fun ho ho' => ?_⟩
      exact absurd ((hw.owner k).symm.trans ho') ho
  · exact .refl c k _

/-! ### Wrapped lamports -/

theorem processSyncNative_step {c : Call} (h : processSyncNative accounts l = .ok l')
    (k : Pubkey) : NeutralStep c k (l k) (l' k) := by
  simp only [processSyncNative, bind_eq_ok, Prod.exists, exists_unit, okOr_eq_ok, ensure_eq_ok] at h
  obtain ⟨nativeInfo, rest, -, -, account, haccount, reserve, hreserve, newAmount, hamount, hle,
    hwrite⟩ := h
  refine forall_of_writeData (NeutralStep.refl c) hwrite (fun howner => ?_) k
  exact .sync howner howner (unpackAccount_eq_ok.mp haccount).1 rfl (UInt64.le_refl _) hreserve
    (checkedSub_eq_some.mp hamount) hle

end BarkToken
