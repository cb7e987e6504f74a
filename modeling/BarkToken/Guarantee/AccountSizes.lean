import BarkToken.Bytes.TlvRun
import BarkToken.Guarantee.VariableLen
import BarkToken.Guarantee.PackPod
import BarkToken.Invariant.Accounts
import BarkToken.Program.Replay
import Mathlib.Algebra.Order.BigOperators.Group.List

/-!
# Announced account sizes (processor.rs:1298-1334, extension/mod.rs:742-790, 1200-1289,
extension/reallocate.rs:24-116)

The length that `GetAccountDataSize` returns and `Reallocate` provides is the sum
of the slots of distinct extensions, and every allocation takes up one of them.
-/

namespace BarkToken
open Fallible CheckedWord AccountData

/-! ### Slots -/

/-- The bytes an extension of this type takes up. -/
def ExtensionType.slotLen (t : ExtensionType) : ℕ := Tlv.entryLen (t.typeLen.getD 0)

theorem ExtensionType.typeLen_lt (t : ExtensionType) : t.typeLen.getD 0 < 65536 := by
  cases t <;> decide

/-- What the distinct types of a list take up. -/
def ExtensionType.slotsLen (types : List ExtensionType) : ℕ :=
  (types.eraseDups.map slotLen).sum

theorem nodup_eraseDups {α : Type} [BEq α] [LawfulBEq α] : (l : List α) → l.eraseDups.Nodup
  | [] => List.nodup_nil
  | a :: l => by
    rw [List.eraseDups_cons]
    refine List.nodup_cons.mpr ⟨fun hmem => ?_, nodup_eraseDups _⟩
    have hne := (List.mem_filter.mp (List.mem_eraseDups.mp hmem)).2
    simp at hne
termination_by l => l.length
decreasing_by exact Nat.lt_succ_of_le (List.length_filter_le _ _)

/-- Distinct elements of a list add up to no more than all of them. -/
theorem sum_map_le_of_subset {α : Type} [BEq α] [LawfulBEq α] {l m : List α} (f : α → ℕ)
    (hl : l.Nodup) (h : l ⊆ m) : (l.map f).sum ≤ (m.eraseDups.map f).sum := by
  have hsub : l ⊆ m.eraseDups := fun a ha => List.mem_eraseDups.mpr (h ha)
  obtain ⟨k, hperm, hk⟩ := List.subperm_of_subset hl hsub
  rw [← (hperm.map f).sum_nat]
  exact (hk.map f).sum_le_sum fun n _ => Nat.zero_le n

theorem ExtensionType.slotsLen_mono {types types' : List ExtensionType} (h : types ⊆ types') :
    slotsLen types ≤ slotsLen types' :=
  sum_map_le_of_subset slotLen (nodup_eraseDups types) fun _ ht => h (List.mem_eraseDups.mp ht)

theorem totalTlvLen_eq {types : List ExtensionType} {n : ℕ}
    (h : ExtensionType.totalTlvLen types = .ok n) : n = ExtensionType.slotsLen types := by
  have hloop : ∀ (us : List ExtensionType) (start n : ℕ),
      loop (fun n t => do
        let valueLen ← okOr (ExtensionType.typeLen t) (ProgramError.invalidArgument : Fault)
        return n + Tlv.entryLen valueLen) us start = .ok n →
      n = start + (us.map ExtensionType.slotLen).sum := by
    intro us
    induction us with
    | nil =>
      intro start n h
      obtain rfl := Except.ok.inj h
      rfl
    | cons t us ih =>
      intro start n h
      obtain ⟨m, hm, hrest⟩ := loop_cons_eq_ok.mp h
      simp only [bind_eq_ok, okOr_eq_ok, pure_eq_ok] at hm
      obtain ⟨valueLen, hvalueLen, rfl⟩ := hm
      rw [ih _ n hrest, List.map_cons, List.sum_cons, ExtensionType.slotLen, hvalueLen,
        Option.getD_some, Nat.add_assoc]
  rw [hloop _ _ _ h, Nat.zero_add]
  rfl

/-- Every account extension has a fixed length. -/
theorem totalTlvLen_of_account {types : List ExtensionType}
    (h : ∀ t ∈ types, t.accountType = .account) :
    ExtensionType.totalTlvLen types = .ok (ExtensionType.slotsLen types) := by
  have hfixed : ∀ us : List ExtensionType, (∀ t ∈ us, t.accountType = .account) →
      ∀ start, ∃ n, loop (fun n t => do
        let valueLen ← okOr (ExtensionType.typeLen t) (ProgramError.invalidArgument : Fault)
        return n + Tlv.entryLen valueLen) us start = .ok n := by
    intro us
    induction us with
    | nil => exact fun _ start => ⟨start, rfl⟩
    | cons t us ih =>
      intro hus start
      have hlen : ∃ m, t.typeLen = some m := by
        have ht := hus t List.mem_cons_self
        cases t <;> first | exact ⟨_, rfl⟩ | cases ht
      obtain ⟨m, hm⟩ := hlen
      obtain ⟨n, hn⟩ := ih (fun u hu => hus u (List.mem_cons_of_mem _ hu)) (start + Tlv.entryLen m)
      refine ⟨n, loop_cons_eq_ok.mpr ⟨start + Tlv.entryLen m, ?_, hn⟩⟩
      rw [hm]
      rfl
  obtain ⟨n, hn⟩ := hfixed types.eraseDups (fun t ht => h t (List.mem_eraseDups.mp ht)) 0
  have hn : ExtensionType.totalTlvLen types = .ok n := hn
  rw [hn, totalTlvLen_eq hn]

/-- An announced length has room for the slots. -/
theorem slotsLen_le {types : List ExtensionType} {n : ℕ}
    (h : ExtensionType.calculateAccountLen baseAccountLength types = .ok n) :
    n ≠ multisigLen ∧ baseAccountLength ≤ n ∧ (types ≠ [] → baseAccountAndTypeLength < n ∧
      baseAccountAndTypeLength + ExtensionType.slotsLen types ≤ n) := by
  rcases calculateAccountLen_bound h with ⟨rfl, rfl⟩ | ⟨hmultisig, hlong⟩
  · exact ⟨by decide, le_rfl, fun hne => absurd rfl hne⟩
  · refine ⟨hmultisig, ?_, fun hne => ⟨hlong, ?_⟩⟩
    · rw [baseAccountAndTypeLength] at hlong
      rw [baseAccountLength]
      omega
    · rw [ExtensionType.calculateAccountLen, if_neg hne] at h
      obtain ⟨tlvLen, htlv, hn⟩ := bind_eq_ok.mp h
      rw [← pure_eq_ok.mp hn, ← totalTlvLen_eq htlv, Nat.add_comm]
      exact Bytes.le_adjustLenForMultisig _

/-! ### Room in an account -/

/-- The account holds distinct extensions of `types`, and has a slot for each of
them. -/
structure HasRoomFor (types : List ExtensionType) (s : PodStateWithExtensions PodAccount) :
    Prop where
  kinds : ∀ t ∈ types, t.accountType = .account
  nodup : s.tlv.tags.Nodup
  among : s.tlv.tags ⊆ types
  room : types ≠ [] → baseAccountAndTypeLength + ExtensionType.slotsLen types ≤ s.len

/-- The remaining extensions of `types` can be added in any order. -/
def AddsInAnyOrder (types : List ExtensionType) (s : PodStateWithExtensions PodAccount) : Prop :=
  ∀ (more : Tlv) (overwrite : Bool), more.tags.Nodup →
    (∀ t ∈ more.tags, t ∈ types ∧ ¬ s.hasExtension t) →
    ∃ s', loop (fun s e => s.initExtension e.1 e.2 overwrite) more s = .ok s'

theorem AddsInAnyOrder.mono {types types' : List ExtensionType}
    {s : PodStateWithExtensions PodAccount} (h : AddsInAnyOrder types' s) (hsub : types ⊆ types') :
    AddsInAnyOrder types s :=
  fun more overwrite hnodup hmore =>
    h more overwrite hnodup fun t ht => ⟨hsub (hmore t ht).1, (hmore t ht).2⟩

section Room

variable {types : List ExtensionType} {s : PodStateWithExtensions PodAccount}

theorem valueLen_of_account {t : ExtensionType} (h : t.accountType = .account) (v : t.Value) :
    t.valueLen v = t.typeLen.getD 0 := by
  cases t <;> first | rfl | cases h

theorem usedLen_of_account {tlv : Tlv} (h : ∀ t ∈ tlv.tags, t.accountType = .account) :
    tlv.usedLen = (tlv.tags.map ExtensionType.slotLen).sum := by
  have hlen : ∀ e ∈ tlv, Tlv.entryLen (e.1.valueLen e.2) = ExtensionType.slotLen e.1 :=
    fun e he => congrArg Tlv.entryLen (valueLen_of_account (h e.1 (List.mem_map_of_mem he)) e.2)
  rw [Tlv.usedLen, List.map_congr_left hlen, TypedStore.tags, List.map_map]
  rfl

namespace HasRoomFor

theorem setExtension (h : HasRoomFor types s) {t : ExtensionType} (ht : t ∈ types) (v : t.Value) :
    HasRoomFor types (s.setExtension t v) where
  kinds := h.kinds
  nodup := TypedStore.nodup_tags_put h.nodup t v
  among u hu := by
    rcases TypedStore.mem_tags_put.mp hu with rfl | hu
    · exact ht
    · exact h.among hu
  room := h.room

theorem withBase (h : HasRoomFor types s) (base : PodAccount) :
    HasRoomFor types { s with base := base } := ⟨h.kinds, h.nodup, h.among, h.room⟩

/-- An extension of `types` finds its slot. -/
theorem initExtension (h : HasRoomFor types s) {t : ExtensionType} (ht : t ∈ types) (v : t.Value)
    (overwrite : Bool) (hnew : s.tlv.get t = none ∨ overwrite = true) :
    s.initExtension t v overwrite = .ok (s.setExtension t v) := by
  have hvalue := valueLen_of_account (h.kinds t ht)
  unfold PodStateWithExtensions.initExtension
  split
  case h_1 hnone =>
    have hsmall : t.valueLen v < 65536 := (hvalue v).trans_lt t.typeLen_lt
    have hnodup : (t :: s.tlv.tags).Nodup :=
      List.nodup_cons.mpr ⟨TypedStore.get_eq_none_iff.mp hnone, h.nodup⟩
    have hslots := sum_map_le_of_subset ExtensionType.slotLen hnodup
      (List.cons_subset.mpr ⟨ht, h.among⟩)
    rw [List.map_cons, List.sum_cons, ← usedLen_of_account fun u hu => h.kinds u (h.among hu)]
      at hslots
    have hroom := h.room (List.ne_nil_of_mem ht)
    have hfree : Tlv.entryLen (t.valueLen v) ≤ s.freeLen := by
      rw [hvalue v, PodStateWithExtensions.freeLen]
      unfold ExtensionType.slotsLen at hroom
      unfold ExtensionType.slotLen at hslots hroom
      omega
    exact ensure_bind_eq_ok.mpr ⟨hfree, ensure_bind_eq_ok.mpr ⟨hsmall, rfl⟩⟩
  case h_2 w hsome =>
    have hoverwrite : overwrite = true := hnew.resolve_left (by rw [hsome]; exact Option.some_ne_none w)
    exact ensure_bind_eq_ok.mpr ⟨hoverwrite,
      ensure_bind_eq_ok.mpr ⟨(hvalue w).trans (hvalue v).symm, rfl⟩⟩

theorem addsInAnyOrder (h : HasRoomFor types s) : AddsInAnyOrder types s := by
  intro more overwrite
  induction more generalizing s with
  | nil => exact fun _ _ => ⟨s, rfl⟩
  | cons e more ih =>
    intro hnodup hmore
    obtain ⟨hfirst, hnodup⟩ := List.nodup_cons.mp hnodup
    obtain ⟨ht, hnew⟩ := hmore e.1 List.mem_cons_self
    have hinit := h.initExtension ht e.2 overwrite
      (Or.inl (Option.not_isSome_iff_eq_none.mp hnew))
    obtain ⟨s', hs'⟩ := ih (h.setExtension ht e.2) hnodup fun u hu => by
      obtain ⟨hu', hnone⟩ := hmore u (List.mem_cons_of_mem _ hu)
      refine ⟨hu', fun hsome => hnone ?_⟩
      have hne : u ≠ e.1 := by
        rintro rfl
        exact hfirst hu
      rwa [PodStateWithExtensions.hasExtension, PodStateWithExtensions.setExtension_tlv,
        TypedStore.get_put_of_ne _ _ hne] at hsome
    exact ⟨s', loop_cons_eq_ok.mpr ⟨_, hinit, hs'⟩⟩

end HasRoomFor
end Room

/-! ### Initialisation -/

/-- The forms of `InitializeAccount` for the account `newInfo` of `mintInfo`. -/
inductive IsInitializeAccount (newInfo mintInfo : AccountInfo) :
    TokenInstruction → List AccountInfo → Prop
  | initializeAccount {ownerInfo rentInfo rest} (hrent : rentInfo.key = rentSysvar) :
      IsInitializeAccount newInfo mintInfo .initializeAccount
        (newInfo :: mintInfo :: ownerInfo :: rentInfo :: rest)
  | initializeAccount2 {owner rentInfo rest} (hrent : rentInfo.key = rentSysvar) :
      IsInitializeAccount newInfo mintInfo (.initializeAccount2 owner)
        (newInfo :: mintInfo :: rentInfo :: rest)
  | initializeAccount3 {owner rest} :
      IsInitializeAccount newInfo mintInfo (.initializeAccount3 owner) (newInfo :: mintInfo :: rest)

/-- Every form of `InitializeAccount` succeeds, and leaves room for `types`. -/
def InitializesWithRoom (x : Externals) (env : Env) (newInfo mintInfo : AccountInfo)
    (types : List ExtensionType) (l : Ledger) : Prop :=
  ∀ ix accounts, IsInitializeAccount newInfo mintInfo ix accounts →
    ∃ l' s, (Call.mk x env ix accounts l).process = .ok l' ∧ AccountAt l' newInfo.key s ∧
      AddsInAnyOrder types s

theorem IsInitializeAccount.process_eq {newInfo mintInfo : AccountInfo} {ix : TokenInstruction}
    {accounts : List AccountInfo} (h : IsInitializeAccount newInfo mintInfo ix accounts)
    (x : Externals) (env : Env) (l : Ledger) :
    ∃ owner rent tail key rest rest', accounts = newInfo :: mintInfo :: tail ∧
      takeOwner owner tail = .ok (key, rest) ∧ takeRent rent rest = .ok rest' ∧
      (Call.mk x env ix accounts l).process = processInitializeAccount env owner rent accounts l := by
  have hrent {info : AccountInfo} (rest : List AccountInfo) (hinfo : info.key = rentSysvar) :
      takeRent true (info :: rest) = .ok rest := ensure_bind_eq_ok.mpr ⟨hinfo, rfl⟩
  cases h with
  | initializeAccount h => exact ⟨none, true, _, _, _, _, rfl, rfl, hrent _ h, rfl⟩
  | @initializeAccount2 owner _ _ h => exact ⟨some owner, true, _, _, _, _, rfl, rfl, hrent _ h, rfl⟩
  | @initializeAccount3 owner rest =>
    exact ⟨some owner, false, _, _, rest, rest, rfl, rfl, rfl, rfl⟩

section Initialise

variable {x : Externals} {env : Env} {l : Ledger} {newInfo mintInfo : AccountInfo}
  {mint : PodStateWithExtensions PodMint} {types : List ExtensionType} {lamports : UInt64} {n : ℕ}
  {tlv : Tlv}

/-- The extensions that a mint asks for are short. -/
theorem calculateAccountLen_required (mintTypes : List ExtensionType) :
    ∃ n, ExtensionType.calculateAccountLen baseAccountLength
        (ExtensionType.requiredInitAccountExtensions mintTypes) = .ok n ∧
      (n = baseAccountLength ∨
        ExtensionType.requiredInitAccountExtensions mintTypes ≠ [] ∧
          n = baseAccountAndTypeLength +
            ExtensionType.slotsLen (ExtensionType.requiredInitAccountExtensions mintTypes)) := by
  obtain ⟨required, hrequired⟩ : ∃ required,
    required = ExtensionType.requiredInitAccountExtensions mintTypes := ⟨_, rfl⟩
  have hkinds : ∀ t ∈ required, t.accountType = .account := fun t ht =>
    requiredInitAccountExtensions_kind (hrequired ▸ ht)
  rw [← hrequired]
  by_cases hnil : required = []
  · exact ⟨baseAccountLength, if_pos hnil, Or.inl rfl⟩
  · have hshort : ExtensionType.slotsLen required ≤ 25 := by
      refine sum_map_le_of_subset (m := [ExtensionType.transferFeeAmount, .nonTransferableAccount,
        .immutableOwner, .transferHookAccount]) ExtensionType.slotLen (nodup_eraseDups required)
        fun t ht => ?_
      exact mem_requiredInitAccountExtensions (hrequired ▸ List.mem_eraseDups.mp ht)
    refine ⟨_, ?_, Or.inr ⟨hnil, rfl⟩⟩
    rw [ExtensionType.calculateAccountLen, if_neg hnil, totalTlvLen_of_account hkinds, ok_bind,
      adjustLenForMultisig, if_neg, Nat.add_comm]
    · rfl
    · rw [multisigLen, baseAccountAndTypeLength]
      omega

/-- Each required extension is initialised, whether or not it is there. -/
theorem loop_required {required : List ExtensionType} (hsub : required ⊆ types)
    (hmem : ∀ t ∈ required, t ∈ [ExtensionType.transferFeeAmount, .nonTransferableAccount,
      .immutableOwner, .transferHookAccount])
    {s : PodStateWithExtensions PodAccount} (h : HasRoomFor types s) :
    ∃ s', loop initAccountExtensionFromType required s = .ok s' ∧ HasRoomFor types s' := by
  induction required generalizing s with
  | nil => exact ⟨s, rfl, h⟩
  | cons t required ih =>
    have ht : t ∈ types := hsub List.mem_cons_self
    have hinit : initAccountExtensionFromType s t = .ok (s.setExtension t default) := by
      have hset := h.initExtension ht default true (Or.inr rfl)
      have hfour := hmem t List.mem_cons_self
      simp only [List.mem_cons, List.not_mem_nil, or_false] at hfour
      rcases hfour with rfl | rfl | rfl | rfl <;> exact hset
    obtain ⟨s', hs', hroom⟩ := ih (fun u hu => hsub (List.mem_cons_of_mem _ hu))
      (fun u hu => hmem u (List.mem_cons_of_mem _ hu)) (h.setExtension ht default)
    exact ⟨s', loop_cons_eq_ok.mpr ⟨_, hinit, hs'⟩, hroom⟩

/-- What `InitializeAccount` needs: an account without base state that is rent
exempt and has room for what its mint asks for. -/
structure Announced (env : Env) (l : Ledger) (newInfo mintInfo : AccountInfo)
    (mint : PodStateWithExtensions PodMint) (types : List ExtensionType) (lamports : UInt64) (n : ℕ)
    (tlv : Tlv) : Prop where
  record : l newInfo.key = ⟨lamports, programId, .zeroed n tlv⟩
  exempt : env.isExempt lamports n
  mintOwner : (l mintInfo.key).owner = programId
  mintData : (l mintInfo.key).data.unpackMint = .ok mint
  len : ExtensionType.calculateAccountLen baseAccountLength
    (ExtensionType.requiredInitAccountExtensions mint.extensionTypes ++ types) = .ok n
  room : HasRoomFor (ExtensionType.requiredInitAccountExtensions mint.extensionTypes ++ types)
    ⟨default, n, tlv⟩

namespace Announced

theorem unpack (h : Announced env l newInfo mintInfo mint types lamports n tlv) :
    (l newInfo.key).data.unpackUninitializedAccount = .ok ⟨default, n, tlv⟩ := by
  obtain ⟨hmultisig, hlen, hlong⟩ := slotsLen_le h.len
  have hshape : n = baseAccountLength ∨ baseAccountAndTypeLength < n := by
    by_cases hnil : ExtensionType.requiredInitAccountExtensions mint.extensionTypes ++ types = []
    · have hbase := h.len
      rw [ExtensionType.calculateAccountLen, if_pos hnil] at hbase
      exact Or.inl (Except.ok.inj hbase).symm
    · exact Or.inr (hlong hnil).1
  have hhead : checkAccountTypeMatchesExtensionType tlv .account = .ok () := by
    cases tlv with
    | nil => rfl
    | cons e rest =>
      exact ensure_eq_ok.mpr (h.room.kinds e.1 (h.room.among List.mem_cons_self))
  rw [h.record]
  exact ensure_bind_eq_ok.mpr ⟨⟨hmultisig, hlen⟩, ensure_bind_eq_ok.mpr ⟨hshape,
    bind_eq_ok.mpr ⟨(), hhead, rfl⟩⟩⟩

/-- Two accounts, as one of them has a base state. -/
theorem key_ne (h : Announced env l newInfo mintInfo mint types lamports n tlv) :
    mintInfo.key ≠ newInfo.key := by
  intro heq
  have hdata := (unpackMint_eq_ok.mp h.mintData).1
  rw [heq, h.record] at hdata
  cases hdata

/-- The account as `InitializeAccount` leaves it. -/
theorem processInitializeAccount_eq
    (h : Announced env l newInfo mintInfo mint types lamports n tlv) {owner : Option Pubkey}
    {rent : Bool} {tail rest rest' : List AccountInfo} {key : Pubkey}
    (howner : takeOwner owner tail = .ok (key, rest)) (hrent : takeRent rent rest = .ok rest')
    {needed : ℕ} (hneeded : ExtensionType.calculateAccountLen baseAccountLength
      (ExtensionType.requiredInitAccountExtensions mint.extensionTypes) = .ok needed)
    (hfits : needed ≤ n) {s : PodStateWithExtensions PodAccount}
    (hloop : loop initAccountExtensionFromType
      (ExtensionType.requiredInitAccountExtensions mint.extensionTypes) ⟨default, n, tlv⟩ = .ok s)
    {amount : UInt64} (hamount : initialAmount (decide (mintInfo.key = nativeMint)) lamports
      (env.minimumBalance n) = .ok amount) :
    ∃ base, processInitializeAccount env owner rent (newInfo :: mintInfo :: tail) l =
      .ok (l.setData newInfo.key (.account { s with base := base })) := by
  have hborrow : borrowData [newInfo.key] mintInfo.key = .ok () :=
    ensure_eq_ok.mpr fun hmem => h.key_ne (List.mem_singleton.mp hmem)
  have hmint : mapErr (l mintInfo.key).data.unpackMint (fun _ => (TokenError.invalidMint : Fault)) =
      .ok mint := by
    rw [h.mintData]
    rfl
  have hprogram : checkProgramAccount (l mintInfo.key).owner = .ok () :=
    checkProgramAccount_eq_ok.mpr h.mintOwner
  have hrequired : getRequiredAccountExtensions (l mintInfo.key).owner mint =
      .ok (ExtensionType.requiredInitAccountExtensions mint.extensionTypes) := by
    rw [getRequiredAccountExtensions, hprogram]
    rfl
  have hexempt : ensure (env.isExempt lamports n) (TokenError.notRentExempt : Fault) = .ok () :=
    ensure_eq_ok.mpr h.exempt
  have hlen : ensure (needed ≤ n) (ProgramError.invalidAccountData : Fault) = .ok () :=
    ensure_eq_ok.mpr hfits
  have hunpack := h.unpack
  rw [h.record] at hunpack
  simp only [processInitializeAccount, nextAccountInfo, ok_bind, howner, hrent, h.record, hunpack,
    AccountData.len, hexempt, hborrow, hmint, hrequired, hneeded, hlen, hloop, hamount]
  exact ⟨_, ensure_bind_eq_ok.mpr ⟨Or.inl (by rw [h.record]), rfl⟩⟩

theorem initializes (h : Announced env l newInfo mintInfo mint types lamports n tlv) :
    InitializesWithRoom x env newInfo mintInfo types l := by
  intro ix accounts hix
  obtain ⟨owner, rent, tail, key, rest, rest', rfl, howner, hrent, hprocess⟩ :=
    hix.process_eq x env l
  obtain ⟨needed, hneeded, hshort⟩ := calculateAccountLen_required mint.extensionTypes
  have hfits : needed ≤ n := by
    obtain ⟨-, hlen, hlong⟩ := slotsLen_le h.len
    rcases hshort with rfl | ⟨hne, rfl⟩
    · exact hlen
    · have hall := List.append_ne_nil_of_left_ne_nil hne types
      have hmono := ExtensionType.slotsLen_mono (List.subset_append_left
        (ExtensionType.requiredInitAccountExtensions mint.extensionTypes) types)
      exact (Nat.add_le_add_left hmono _).trans (hlong hall).2
  obtain ⟨s, hs, hroom⟩ := loop_required (List.subset_append_left _ types)
    (fun t ht => mem_requiredInitAccountExtensions ht) h.room
  obtain ⟨amount, hamount⟩ : ∃ amount, initialAmount (decide (mintInfo.key = nativeMint)) lamports
      (env.minimumBalance n) = .ok amount := by
    unfold initialAmount
    split
    · obtain ⟨amount, hsub⟩ := checkedSub_of_le h.exempt
      exact ⟨amount, okOr_eq_ok.mpr hsub⟩
    · exact ⟨0, rfl⟩
  obtain ⟨base, hbase⟩ := h.processInitializeAccount_eq howner hrent hneeded hfits hs hamount
  refine ⟨_, { s with base := base }, hprocess.trans hbase, ⟨?_, ?_⟩, ?_⟩
  · rw [Ledger.setData_owner, h.record]
  · rw [Ledger.setData_self]
  · exact (hroom.withBase base).addsInAnyOrder.mono (List.subset_append_right _ _)

/-- `InitializeImmutableOwner` finds its slot, and leaves all there is to
announce. -/
theorem immutableOwner (h : Announced env l newInfo mintInfo mint types lamports n tlv)
    (hmem : ExtensionType.immutableOwner ∈ types) (more : List AccountInfo) :
    ∃ l₁, (Call.mk x env .initializeImmutableOwner (newInfo :: more) l).process = .ok l₁ ∧
      Announced env l₁ newInfo mintInfo mint types lamports n (tlv.put .immutableOwner default) := by
  have hslot := List.mem_append_right
    (ExtensionType.requiredInitAccountExtensions mint.extensionTypes) hmem
  have hinit := h.room.initExtension hslot default true (Or.inr rfl)
  have hne := h.key_ne
  refine ⟨l.setData newInfo.key (.zeroed n (tlv.put .immutableOwner default)), ?_, ?_⟩
  · simp only [Call.process, process, processInitializeImmutableOwner, nextAccountInfo, ok_bind,
      h.unpack, hinit]
    exact ensure_bind_eq_ok.mpr ⟨Or.inl (by rw [h.record]), rfl⟩
  · refine ⟨?_, h.exempt, ?_, ?_, h.len, h.room.setExtension hslot default⟩
    · rw [Ledger.setData, Function.update_self, h.record]
    · rw [Ledger.setData_of_ne hne]
      exact h.mintOwner
    · rw [Ledger.setData_of_ne hne]
      exact h.mintData

end Announced

/-- What `GetAccountDataSize` looks at, and the length it returns. -/
theorem dataSize_eq_ok {rest : List AccountInfo}
    (h : processGetAccountDataSize types (mintInfo :: rest) l = .ok n) :
    ∃ mint, ((l mintInfo.key).owner = programId ∧ (l mintInfo.key).data.unpackMint = .ok mint) ∧
      (∀ t ∈ ExtensionType.requiredInitAccountExtensions mint.extensionTypes ++ types,
        t.accountType = .account) ∧
      ExtensionType.calculateAccountLen baseAccountLength
        (ExtensionType.requiredInitAccountExtensions mint.extensionTypes ++ types) = .ok n := by
  simp only [processGetAccountDataSize, nextAccountInfo, ok_bind, bind_eq_ok,
    mapErr_eq_ok, getRequiredAccountExtensions, exists_unit, checkProgramAccount_eq_ok,
    pure_eq_ok] at h
  obtain ⟨hkinds, mint, hmint, required, ⟨howner, rfl⟩, hlen⟩ := h
  refine ⟨mint, ⟨howner, hmint⟩, fun t ht => ?_, hlen⟩
  rcases List.mem_append.mp ht with ht | ht
  · exact requiredInitAccountExtensions_kind ht
  · exact ensure_eq_ok.mp hkinds t ht

/-- A zeroed account of the length that `GetAccountDataSize` returns. -/
theorem announced_of_dataSize {rest : List AccountInfo} (h : processGetAccountDataSize types
      (mintInfo :: rest) l = .ok n)
    (hrecord : l newInfo.key = ⟨lamports, programId, .zeroed n []⟩)
    (hexempt : env.isExempt lamports n) :
    ∃ mint, Announced env l newInfo mintInfo mint types lamports n [] := by
  obtain ⟨mint, ⟨howner, hmint⟩, hkinds, hlen⟩ := dataSize_eq_ok h
  exact ⟨mint, hrecord, hexempt, howner, hmint, hlen, hkinds, List.nodup_nil, List.nil_subset _,
    fun hne => ((slotsLen_le hlen).2.2 hne).2⟩

end Initialise

/-! ### Reallocation -/

/-- The account has room for its extensions and for those asked for. -/
theorem hasRoomFor_of_reallocation {c : Call} {types : List ExtensionType} {k : Pubkey}
    {s s' : PodStateWithExtensions PodAccount} {needed : ℕ} {lamports : UInt64}
    (h : ReallocationOf c types k s needed) (hs : WellFormedAccount lamports s)
    (hlen : needed ≤ s'.len) (htlv : s'.tlv = s.tlv) :
    HasRoomFor (s.extensionTypes ++ types) s' where
  kinds t ht := by
    rcases List.mem_append.mp ht with ht | ht
    · exact hs.kinds t (TypedStore.mem_tags_iff.mp ht)
    · exact h.kinds t ht
  nodup := htlv ▸ hs.nodup
  among := by
    rw [htlv]
    exact List.subset_append_left _ _
  room hne := ((slotsLen_le h.needed).2.2 hne).2.trans hlen

namespace Bytes

/-! ### Packing what has been unpacked -/

section Pack

variable {b : Bytes} {a : PodAccount}

/-- Packing changes no byte but those of a new reserve. -/
theorem packAccount_isNative (h : AccountAgrees (podAccount b) a) (hlen : b.length = baseAccountLength)
    (o : Option UInt64) : packAccount { a with isNative := o } b =
      field b 0 109 ++ (packCOption u64Bytes o (field b 109 12) ++ field b 121 44) := by
  have hsize : b.length = 165 := hlen
  have hmint : keyBytes a.mint = field b 0 32 := by
    rw [← h.mint]
    exact keyBytes_key (by omega)
  have howner : keyBytes a.owner = field b 32 32 := by
    rw [← h.owner]
    exact keyBytes_key (by omega)
  have hamount : u64Bytes a.amount = field b 64 8 := by
    rw [← h.amount]
    exact u64Bytes_u64 (by omega)
  have hdelegate := packKey_of_agrees h.delegate (by omega)
  have hstate : [stateByte a.state] = field b 108 1 := by
    rw [← h.state]
    exact (field_one (by omega)).symm
  have hdelegated : u64Bytes a.delegatedAmount = field b 121 8 := by
    rw [← h.delegatedAmount]
    exact u64Bytes_u64 (by omega)
  have hclose := packKey_of_agrees h.closeAuthority (by omega)
  have hfirst : field b 0 109 =
      field b 0 32 ++ (field b 32 32 ++ (field b 64 8 ++ (field b 72 36 ++ field b 108 1))) := by
    calc field b 0 109 = field b 0 32 ++ field b 32 77 := (field_append b 0 32 77).symm
      _ = field b 0 32 ++ (field b 32 32 ++ field b 64 45) :=
        congrArg _ (field_append b 32 32 45).symm
      _ = field b 0 32 ++ (field b 32 32 ++ (field b 64 8 ++ field b 72 37)) :=
        congrArg _ (congrArg _ (field_append b 64 8 37).symm)
      _ = _ := congrArg _ (congrArg _ (congrArg _ (field_append b 72 36 1).symm))
  have hlast : field b 121 44 = field b 121 8 ++ field b 129 36 := (field_append b 121 8 36).symm
  rw [hfirst, hlast, ← hmint, ← howner, ← hamount, ← hstate, ← hdelegated]
  simp only [packAccount, hdelegate, hclose, List.append_assoc, List.singleton_append]

end Pack

/-! ### Growing -/

section Grow

variable {m : Entries} {b b' : Bytes} {s : PodStateMut} {types : List ExtensionType}
  {minimumBalance : ℕ → UInt64}

/-- Setting the account type again changes nothing. -/
theorem setAccountType_of_unpackMut {S : BaseState} (h : unpackMut S b = .ok s)
    (htlv : s.tlvData ≠ []) (hset : setAccountType S b = .ok b') : b' = b := by
  obtain ⟨base, x, tlv, hbase, _, _, _, _, hb, hb'⟩ := setAccountType_eq_ok hset
  obtain ⟨⟨hlen, hbehind⟩, hdata, _⟩ := unpackMut_eq_ok.mp h
  obtain ⟨hpadding, htype, _⟩ := hbehind.resolve_left fun hbare => htlv hbare.2.2
  have hsplit : s.base ++ (zeroPadding S ++ S.accountType.toU8 :: s.tlvData) =
      base ++ (zeroPadding S ++ x :: tlv) := by
    rw [← hb, ← hdata, PodStateMut.data, hpadding, htype, List.append_assoc, List.append_assoc]
    rfl
  have hbehind := (List.append_inj hsplit (hlen.trans hbase.symm)).2
  have htype := (List.cons.inj (List.append_cancel_left hbehind)).1
  rw [hb', hb, htype]

/-- The base state after a reallocation: the bytes there were, but for the reserve
of an account of the native mint. -/
structure BaseKept (base base' : Bytes) : Prop where
  before : field base' 0 109 = field base 0 109
  after : field base' 121 44 = field base 121 44
  nonNative : (podAccount base).isNative.isNone → base' = base
  native : (podAccount base).isNative.isSome → (podAccount base').isNative.isSome

theorem BaseKept.refl (base : Bytes) : BaseKept base base := ⟨rfl, rfl, fun _ => rfl, fun h => h⟩

theorem ValidState.withBase {S : BaseState} (h : ValidState S m b s) {base : Bytes}
    (hlen : base.length = S.sizeOf) (hinit : byte base S.initByte ≠ 0) :
    ValidState S m (PodStateMut.data { s with base := base }) { s with base := base } ∧
      (PodStateMut.data { s with base := base }).length = b.length := by
  obtain ⟨⟨hold, hbehind⟩, hmultisig, _⟩ := open_iff.mp h.open_
  have hkept : (PodStateMut.data { s with base := base }).length = s.data.length := by
    rw [length_data, length_data s, hold, hlen]
  have hopen : Open S { s with base := base } :=
    open_iff.mpr ⟨⟨hlen, hbehind⟩, hkept ▸ hmultisig, hinit⟩
  exact ⟨⟨hopen, h.layout⟩, hkept.trans (congrArg List.length h.data_eq)⟩

/-- A new reserve in the place of the old one. -/
theorem ValidState.withReserve (h : ValidState .account m b s) {a : PodAccount}
    (ha : unpackFromSlice .account s.base = .ok a) (hnative : a.isNative.isSome)
    (reserve : UInt64) {base : Bytes}
    (hbase : base = packAccount { a with isNative := some reserve } s.base) :
    ValidState .account m (PodStateMut.data { s with base := base }) { s with base := base } ∧
      (PodStateMut.data { s with base := base }).length = b.length ∧ BaseKept s.base base := by
  have hagrees : AccountAgrees (podAccount s.base) a := unpackFromSlice_eq_ok.mp ha
  obtain ⟨⟨hlen, _⟩, _, hinit⟩ := open_iff.mp h.open_
  have hsize : s.base.length = 165 := hlen
  have hpacked := packAccount_isNative hagrees hlen (some reserve)
  rw [← hbase] at hpacked
  have hfirst : (field s.base 0 109).length = 109 := length_field (by omega)
  have hreserve : (packCOption u64Bytes (some reserve) (field s.base 109 12)).length = 12 :=
    length_packCOption length_u64Bytes _ (length_field (by omega))
  have hlast : (field s.base 121 44).length = 44 := length_field (by omega)
  have hnew : base.length = BaseState.account.sizeOf := hbase ▸ length_packAccount _ hlen
  have hstate : byte base BaseState.account.initByte ≠ 0 := by
    have hbyte : byte base 108 = stateByte a.state := hbase ▸ byte_packAccount _ hlen
    rw [BaseState.initByte, hbyte, ← hagrees.state]
    exact hinit
  obtain ⟨hvalid, hsame⟩ := h.withBase hnew hstate
  refine ⟨hvalid, hsame, ?_, ?_, ?_, ?_⟩
  · rw [hpacked, field, List.drop_zero, List.take_left' hfirst]
  · have hdrop : base.drop 121 = field s.base 121 44 := by
      rw [hpacked, ← List.append_assoc, List.drop_left' (by rw [List.length_append]; omega)]
    rw [field, hdrop, List.take_of_length_le (by omega)]
  · intro hnone
    obtain ⟨v, hv⟩ := Option.isSome_iff_exists.mp hnative
    have hsome := hagrees.isNative
    rw [hv] at hsome
    exact absurd (hnone.symm.trans hsome.1) (by decide)
  · intro _
    have hfield : field base 109 4 = PodCOption.SOME := by
      rw [hpacked, field, List.drop_left' hfirst, packCOption, List.append_assoc]
      exact List.take_left' rfl
    exact hfield

/-- The state after the account has grown. -/
theorem ValidState.grown (h : ValidState .account m b s) {n : ℕ} (hn : n ≠ multisigLen)
    (hlen : b.length < n) (hlong : baseAccountAndTypeLength < n) {c : Bytes}
    (hset : setAccountType .account (b.take n ++ List.replicate (n - b.length) 0) = .ok c) :
    ∃ s' k, ValidState .account m c s' ∧ s'.tlvData = s.tlvData ++ List.replicate k 0 ∧
      s'.base = s.base ∧ c.length = n := by
  have hsize : c.length = n := by
    rw [setAccountType_length hset, List.length_append, List.length_take, List.length_replicate]
    omega
  obtain ⟨k, hk⟩ := Nat.exists_eq_add_of_lt hlong
  have hk : n = baseAccountAndTypeLength + (k + 1) := hk
  by_cases htlv : s.tlvData = []
  · obtain ⟨rfl, _, c', hset', hvalid⟩ := h.grow_bare htlv (Nat.succ_pos k) hk hn
    obtain rfl := Except.ok.inj (hset'.symm.trans hset)
    refine ⟨_, k + 1, hvalid, ?_, rfl, hsize⟩
    rw [htlv, List.nil_append]
  · have hvalid := h.grow htlv hn hlen
    have hc := setAccountType_of_unpackMut hvalid.unpack (List.append_ne_nil_of_left_ne_nil htlv _)
      hset
    rw [← hc] at hvalid
    exact ⟨{ s with tlvData := s.tlvData ++ List.replicate (n - b.length) 0 }, n - b.length,
      hvalid, rfl, rfl, hsize⟩

/-- The state after a reallocation. -/
theorem reallocateData_written (h : ValidState .account m b s)
    (hrun : reallocateData minimumBalance types b = .ok b') :
    ∃ s' k needed, ValidState .account m b' s' ∧ s'.tlvData = s.tlvData ++ List.replicate k 0 ∧
      BaseKept s.base s'.base ∧ b.length ≤ b'.length ∧
      ExtensionType.calculateAccountLen baseAccountLength (TypedStore.tags m ++ types) = .ok needed ∧
      needed ≤ b'.length ∧ ∀ t ∈ types, t.accountType = .account := by
  obtain ⟨p, hp, hrun⟩ := bind_eq_ok.mp hrun
  obtain ⟨s₀, hs₀, ha, htlv⟩ := unpackPacked_eq_ok.mp hp
  obtain rfl := Except.ok.inj (h.unpack.symm.trans hs₀)
  rw [← htlv, h.layout.holds.getTlvDataInfo_eq, ok_bind, ensure_bind_eq_ok] at hrun
  obtain ⟨hkinds, hrun⟩ := hrun
  obtain ⟨n, hn, hrun⟩ := bind_eq_ok.mp hrun
  obtain ⟨hmultisig, _, hroom⟩ := slotsLen_le hn
  split at hrun
  case isTrue hfits =>
    cases hrun
    refine ⟨s, 0, n, h, ?_, .refl _, le_rfl, hn, hfits, hkinds⟩
    rw [List.replicate_zero, List.append_nil]
  case isFalse hshort =>
    have hlen : b.length < n := Nat.lt_of_not_le hshort
    have hne : TypedStore.tags m ++ types ≠ [] := by
      intro hnil
      rw [ExtensionType.calculateAccountLen, if_pos hnil] at hn
      obtain rfl := Except.ok.inj hn
      obtain ⟨⟨hbase, _⟩, _, _⟩ := open_iff.mp h.open_
      have hdata := h.data_eq
      have hbase : s.base.length = baseAccountLength := hbase
      rw [← hdata, length_data] at hlen
      omega
    obtain ⟨buffer, hrealloc, hrun⟩ := bind_eq_ok.mp hrun
    obtain ⟨c, hset, hrun⟩ := bind_eq_ok.mp hrun
    rw [reallocAccount_eq_ok hrealloc] at hset
    obtain ⟨s', k, hvalid, hdata, hbase, hsize⟩ := h.grown hmultisig hlen (hroom hne).1 hset
    rw [← hbase] at ha
    split at hrun
    case isTrue hnative =>
      rw [unpackPackedMut_eq_ok.mpr ⟨hvalid.unpack, ha⟩, ok_bind] at hrun
      obtain ⟨hpacked, hsame, hkept⟩ := hvalid.withReserve ha hnative (minimumBalance n) rfl
      cases hrun
      have hsize := hsame.trans hsize
      exact ⟨_, k, n, hpacked, hdata, hbase ▸ hkept, hsize.symm ▸ hlen.le, hn, hsize.ge, hkinds⟩
    case isFalse =>
      cases hrun
      exact ⟨s', k, n, hvalid, hdata, hbase ▸ .refl _, hsize.symm ▸ hlen.le, hn, hsize.ge, hkinds⟩

end Grow

/-! ### Room, byte by byte -/

/-- The extensions of `types` that the TLV data lacks can be initialised in any
order. -/
def InitialisesInAnyOrder (types : List ExtensionType) (m : Entries) (tlvData : Bytes) : Prop :=
  ∀ cs : List TlvCall, (TypedStore.tags m ++ cs.map TlvCall.type).Nodup →
    (∀ c ∈ cs, ∃ t ∈ types, ∃ default overwrite, c = .initExtension t default overwrite none ∧
      default.length = t.typeLen.getD 0) →
    ∃ tlvData', (TlvCall.runAll .account cs).run tlvData = (.ok (), tlvData')

/-- The values are as long as their types say. -/
def Sized (m : Entries) : Prop := ∀ e ∈ m, e.2.length = e.1.typeLen.getD 0

theorem Sized.length_encode {m : Entries} (h : Sized m) :
    (encode m).length = ((TypedStore.tags m).map ExtensionType.slotLen).sum := by
  have hlen : ∀ e ∈ m, addTypeAndLengthToLen e.2.length = ExtensionType.slotLen e.1 := fun e he => by
    rw [h e he]
    rfl
  rw [Bytes.length_encode, List.map_congr_left hlen, TypedStore.tags, List.map_map]
  rfl

theorem initialisesInAnyOrder_of_room {types : List ExtensionType} {m : Entries} {b : Bytes}
    (h : Layout .account m b) (hsized : Sized m) (hkinds : ∀ t ∈ types, t.accountType = .account)
    (hroom : types ≠ [] → ExtensionType.slotsLen (TypedStore.tags m ++ types) ≤ b.length) :
    InitialisesInAnyOrder types m b := by
  intro cs hdistinct hcs
  have hinit : ∀ c ∈ cs, c.Initialises := fun c hc => by
    obtain ⟨t, _, default, overwrite, rfl, _⟩ := hcs c hc
    exact trivial
  refine (TlvCall.runAll_init h hinit hdistinct).1.mpr ⟨fun c hc => ?_, ?_⟩
  · obtain ⟨t, ht, default, overwrite, rfl, hlen⟩ := hcs c hc
    exact ⟨hkinds t ht, hlen.trans_lt t.typeLen_lt, fun w hw => absurd hw (Option.not_mem_none w)⟩
  by_cases hnil : cs = []
  · subst hnil
    exact (List.append_nil m).symm ▸ h.used_le
  · have hsized' : Sized (m ++ TlvCall.entries cs) := by
      intro e he
      rcases List.mem_append.mp he with he | he
      · exact hsized e he
      · obtain ⟨c, hc, rfl⟩ := List.mem_map.mp he
        obtain ⟨t, _, default, overwrite, rfl, hlen⟩ := hcs c hc
        exact hlen
    have hsub : TypedStore.tags m ++ cs.map TlvCall.type ⊆ TypedStore.tags m ++ types := by
      refine List.append_subset.mpr ⟨List.subset_append_left _ _, fun t ht => ?_⟩
      obtain ⟨c, hc, rfl⟩ := List.mem_map.mp ht
      obtain ⟨u, hu, default, overwrite, rfl, _⟩ := hcs c hc
      exact List.mem_append_right _ hu
    have htypes : types ≠ [] := by
      obtain ⟨c, hc⟩ := List.exists_mem_of_ne_nil _ hnil
      obtain ⟨t, ht, _⟩ := hcs c hc
      exact List.ne_nil_of_mem ht
    rw [hsized'.length_encode, TypedStore.tags_append, TlvCall.tags_entries]
    exact (sum_map_le_of_subset ExtensionType.slotLen hdistinct hsub).trans (hroom htypes)

/-- Zeroes of an announced length. -/
theorem zeroes_initialises {types : List ExtensionType} {n : ℕ}
    (hn : ExtensionType.calculateAccountLen baseAccountLength types = .ok n)
    (hkinds : ∀ t ∈ types, t.accountType = .account) :
    ∃ s, unpackUninitialized .account (List.replicate n 0) = .ok s ∧
      InitialisesInAnyOrder types [] s.tlvData := by
  obtain ⟨hmultisig, _, hroom⟩ := slotsLen_le hn
  have hmultisig : (List.replicate n (0 : UInt8)).length ≠ multisigLen := by
    rwa [List.length_replicate]
  have hinit : byte (List.replicate baseAccountLength 0) BaseState.account.initByte = 0 :=
    byte_replicate _ _
  by_cases hnil : types = []
  · subst hnil
    obtain rfl : n = baseAccountLength := (Except.ok.inj hn).symm
    refine ⟨⟨List.replicate baseAccountLength 0, [], [], []⟩, unpackUninitialized_eq_ok.mpr
      ⟨⟨List.length_replicate, Or.inl ⟨rfl, rfl, rfl⟩⟩, PodStateMut.data_bare _, hmultisig, hinit,
        rfl⟩, ?_⟩
    exact initialisesInAnyOrder_of_room (.zeroes .account 0) (fun _ he => absurd he List.not_mem_nil)
      hkinds fun hne => absurd rfl hne
  · obtain ⟨hlong, hslots⟩ := hroom hnil
    obtain ⟨k, hk⟩ := Nat.exists_eq_add_of_lt hlong
    have hk : n = baseAccountAndTypeLength + (k + 1) := hk
    have hfresh := Layout.zeroes .account (k + 1)
    have hhead : checkAccountTypeMatchesExtensionType .account (List.replicate (k + 1) 0) =
        .ok () := by
      have hfirst : getFirstExtensionType (List.replicate (k + 1) 0) = .ok none := by
        rw [getFirstExtensionType]
        split
        case isTrue => rfl
        case isFalse hlen =>
          rw [List.length_replicate] at hlen
          have htwo : 2 ≤ (List.replicate (k + 1) (0 : UInt8)).length := by
            rw [List.length_replicate]
            exact (not_le.mp hlen).le
          exact readType_end [] (ends_replicate (k + 1)) htwo
      rw [checkAccountTypeMatchesExtensionType, hfirst]
      rfl
    refine ⟨⟨List.replicate baseAccountLength 0, zeroPadding .account, [0], List.replicate (k + 1) 0⟩,
      unpackUninitialized_eq_ok.mpr ⟨⟨List.length_replicate, Or.inr ⟨rfl, rfl, ?_⟩⟩, ?_, hmultisig,
        hinit, hhead⟩, ?_⟩
    · exact List.ne_nil_of_length_pos (by rw [List.length_replicate]; exact Nat.succ_pos k)
    · rw [PodStateMut.data_extended, zeroPadding, ← List.replicate_succ, ← List.replicate_add,
        ← List.replicate_add]
      congr 1
      rw [hk, baseAccountAndTypeLength, baseAccountLength, BaseState.sizeOf, baseAccountLength]
      omega
    · refine initialisesInAnyOrder_of_room hfresh (fun _ he => absurd he List.not_mem_nil) hkinds
        fun _ => ?_
      rw [List.length_replicate, TypedStore.tags, List.map_nil, List.nil_append]
      omega

/-- What a reallocation leaves of the bytes, and makes room for. -/
theorem reallocateData_initialises {m : Entries} {b b' : Bytes} {s : PodStateMut}
    {types : List ExtensionType} {minimumBalance : ℕ → UInt64} (h : ValidState .account m b s)
    (hsized : Sized m) (hrun : reallocateData minimumBalance types b = .ok b') :
    ∃ s' k, unpackMut .account b' = .ok s' ∧ s'.tlvData = s.tlvData ++ List.replicate k 0 ∧
      BaseKept s.base s'.base ∧ b.length ≤ b'.length ∧
      InitialisesInAnyOrder types m s'.tlvData := by
  obtain ⟨s', k, needed, hvalid, htlv, hbase, hlen, hneeded, hfits, hkinds⟩ :=
    reallocateData_written h hrun
  refine ⟨s', k, hvalid.unpack, htlv, hbase, hlen,
    initialisesInAnyOrder_of_room hvalid.layout hsized hkinds fun hne => ?_⟩
  obtain ⟨hlong, hslots⟩ := (slotsLen_le hneeded).2.2 (List.append_ne_nil_of_right_ne_nil _ hne)
  have hdata := hvalid.data_eq
  have htlv' : s'.tlvData ≠ [] := by
    intro hnil
    have hbase' : s'.base.length = 165 := (open_iff.mp hvalid.open_).1.base
    rw [hvalid.open_.bare hnil, PodStateMut.data_bare] at hdata
    rw [← hdata, hbase'] at hfits
    rw [baseAccountAndTypeLength] at hlong
    omega
  have hlength := hvalid.open_.length_eq htlv'
  rw [hdata] at hlength
  omega

end Bytes

/-! ### The whole promise -/

/-- `Reallocate` on an account of the program. -/
theorem reallocate_suffices {c : Call} {types : List ExtensionType} {l' : Ledger} {k : Pubkey}
    {s : PodStateWithExtensions PodAccount} (hw : WellFormedLedger c.ledger)
    (hix : c.ix = .reallocate types) (hrun : c.process = .ok l') (hk : c.key 0 = some k)
    (hs : AccountAt c.ledger k s) :
    ∃ s', AccountAt l' k s' ∧ s'.len ≠ multisigLen ∧ s.len ≤ s'.len ∧ s'.tlv = s.tlv ∧
      s'.base = { s.base with isNative := s'.base.isNative } ∧
      s'.base.isNative.isSome = s.base.isNative.isSome ∧ AddsInAnyOrder types s' := by
  obtain ⟨x, env, ix, accounts, l⟩ := c
  subst hix
  obtain ⟨j, t, needed, hof, hstep⟩ := processReallocate_eq_ok (x := x) hrun
  obtain rfl : j = k := Option.some.inj (hof.key.symm.trans hk)
  have hdata := hof.unpack
  rw [hs.data] at hdata
  obtain rfl : s = t := AccountData.account.inj (unpackAccount_eq_ok.mp hdata).1
  have hwell := (hw j).of_account hs.owner hs.data
  have hroom : ∀ s' : PodStateWithExtensions PodAccount, needed ≤ s'.len → s'.tlv = s.tlv →
      AddsInAnyOrder types s' := fun s' hlen htlv =>
    (hasRoomFor_of_reallocation hof hwell hlen htlv).addsInAnyOrder.mono
      (List.subset_append_right _ _)
  rcases hstep with ⟨rfl, hfits⟩ | ⟨s', hr, hgrown⟩
  · exact ⟨s, hs, hwell.len.1, le_rfl, rfl, rfl, rfl, hroom s hfits rfl⟩
  · refine ⟨s', ⟨hr.owner', hr.data'⟩, ?_, ?_, hgrown.tlv, hgrown.base, hgrown.native,
      hroom s' hgrown.len.ge hgrown.tlv⟩
    · rw [hgrown.len]
      exact (slotsLen_le hof.needed).1
    · rw [hgrown.len]
      exact hgrown.longer.le

open ExtensionType in
/-- An account of the length that `GetAccountDataSize` returns, or that
`Reallocate` has provided, is large enough for what it was asked for. -/
theorem announced_sizes_suffice {x : Externals} {l : Ledger} (h : Reachable x l)
    (types : List ExtensionType) :
    (∀ mintInfo rest n, processGetAccountDataSize types (mintInfo :: rest) l = .ok n →
      n ≠ multisigLen ∧
      (∀ env newInfo lamports, l newInfo.key = ⟨lamports, programId, .zeroed n []⟩ →
        env.isExempt lamports n →
        InitializesWithRoom x env newInfo mintInfo types l ∧
        (immutableOwner ∈ types → ∀ more, ∃ l₁,
          (Call.mk x env .initializeImmutableOwner (newInfo :: more) l).process = .ok l₁ ∧
          InitializesWithRoom x env newInfo mintInfo types l₁)) ∧
      ∃ mint s, (l mintInfo.key).data.unpackMint = .ok mint ∧
        Bytes.unpackUninitialized .account (List.replicate n 0) = .ok s ∧
        Bytes.InitialisesInAnyOrder (requiredInitAccountExtensions mint.extensionTypes ++ types) []
          s.tlvData) ∧
    (∀ c : Call, c.ledger = l → c.ix = .reallocate types →
      ∀ l' k s, c.process = .ok l' → c.key 0 = some k → AccountAt l k s →
      ∃ s', AccountAt l' k s' ∧ s'.len ≠ multisigLen ∧ s.len ≤ s'.len ∧ s'.tlv = s.tlv ∧
        s'.base = { s.base with isNative := s'.base.isNative } ∧
        s'.base.isNative.isSome = s.base.isNative.isSome ∧ AddsInAnyOrder types s') ∧
    ∀ minimumBalance m b b' s, Bytes.ValidState .account m b s → Bytes.Sized m →
      Bytes.reallocateData minimumBalance types b = .ok b' →
      ∃ s' k, Bytes.unpackMut .account b' = .ok s' ∧ b'.length ≠ multisigLen ∧
        b.length ≤ b'.length ∧ s'.tlvData = s.tlvData ++ List.replicate k 0 ∧
        Bytes.BaseKept s.base s'.base ∧ Bytes.InitialisesInAnyOrder types m s'.tlvData := by
  refine ⟨fun mintInfo rest n hsize => ⟨?_, fun env newInfo lamports hrecord hexempt => ?_, ?_⟩,
    ?_, ?_⟩
  · exact (dataSize_eq_ok hsize).elim fun mint hm => (slotsLen_le hm.2.2).1
  · obtain ⟨mint, hannounced⟩ := announced_of_dataSize hsize hrecord hexempt
    refine ⟨hannounced.initializes, fun hmem more => ?_⟩
    obtain ⟨l₁, hrun, hannounced₁⟩ := hannounced.immutableOwner hmem more
    exact ⟨l₁, hrun, hannounced₁.initializes⟩
  · obtain ⟨mint, ⟨_, hmint⟩, hkinds, hlen⟩ := dataSize_eq_ok hsize
    obtain ⟨s, hs, hroom⟩ := Bytes.zeroes_initialises hlen hkinds
    exact ⟨mint, s, hmint, hs, hroom⟩
  · rintro c rfl hix l' k s hrun hk hs
    exact reallocate_suffices h.wellFormed hix hrun hk hs
  · intro minimumBalance m b b' s hvalid hsized hrun
    obtain ⟨s', k, hunpack, htlv, hbase, hlen, hroom⟩ :=
      Bytes.reallocateData_initialises hvalid hsized hrun
    exact ⟨s', k, hunpack, (Bytes.unpackMut_eq_ok.mp hunpack).2.2.1, hlen, htlv, hbase, hroom⟩

/-- An account for a memo and for an owner that stays. -/
theorem announced_sizes_suffice_memo :
    InitializesWithRoom .refusing (.plain 0) ⟨⟨2⟩, false⟩ ⟨⟨1⟩, false⟩
      [.immutableOwner, .memoTransfer]
      (replay .refusing [(.plain 0, .initializeMint 2 ⟨5⟩ none false, [⟨⟨1⟩, false⟩])]
        (.ofList [(⟨1⟩, ⟨1, programId, .zeroed 82 []⟩), (⟨2⟩, ⟨1, programId, .zeroed 175 []⟩)])) := by
  have hgenesis : Genesis (.ofList [(⟨1⟩, ⟨1, programId, .zeroed 82 []⟩),
      (⟨2⟩, ⟨1, programId, .zeroed 175 []⟩)]) := .ofList (by decide) (by decide)
  have hlen : processGetAccountDataSize [.immutableOwner, .memoTransfer] [⟨⟨1⟩, false⟩]
      (replay .refusing [(.plain 0, .initializeMint 2 ⟨5⟩ none false, [⟨⟨1⟩, false⟩])]
        (.ofList [(⟨1⟩, ⟨1, programId, .zeroed 82 []⟩), (⟨2⟩, ⟨1, programId, .zeroed 175 []⟩)])) =
      .ok 175 := by decide +kernel
  have hsuffices := (announced_sizes_suffice (hgenesis.reachable_replay _)
    [.immutableOwner, .memoTransfer]).1 _ _ _ hlen
  exact (hsuffices.2.1 (.plain 0) ⟨⟨2⟩, false⟩ 1 (by decide +kernel) (by decide)).1

end BarkToken
