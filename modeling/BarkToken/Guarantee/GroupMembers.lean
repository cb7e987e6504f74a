import BarkToken.Foundation.Numbering
import BarkToken.Invariant.Mints
import BarkToken.Program.Replay

/-!
# The numbers of group members (extension/token_group/processor.rs:47-205)

`InitializeMember` counts the group up and stores the count in the new member. The
counter is an extension of the group's own mint and goes with it, and
`CloseAccount` does not ask for members (processor.rs:1167-1195).
-/

namespace BarkToken
open Fallible AccountData Transition

/-! ### Extensions on the ledger -/

/-- The value of an extension of the mint at `k`, if there is one. -/
def Ledger.mintExtension (l : Ledger) (k : Pubkey) (t : ExtensionType) : Option t.Value :=
  match (l k).data with
  | .mint m => if (l k).owner = programId then m.tlv.get t else none
  | _ => none

section

variable {l l' : Ledger} {k g : Pubkey} {t : ExtensionType} {m : PodStateWithExtensions PodMint}

theorem MintAt.mintExtension (h : MintAt l k m) (t : ExtensionType) :
    l.mintExtension k t = m.tlv.get t := by
  simp only [Ledger.mintExtension, h.data, h.owner, if_true]

theorem Ledger.mintExtension_eq_some {v : t.Value} :
    l.mintExtension k t = some v ↔ ∃ m, MintAt l k m ∧ m.tlv.get t = some v := by
  constructor
  · intro h
    unfold Ledger.mintExtension at h
    split at h
    · next m hdata =>
      split at h
      · next howner => exact ⟨m, ⟨howner, hdata⟩, h⟩
      · cases h
    · cases h
  · rintro ⟨m, hm, hget⟩
    rw [hm.mintExtension, hget]

theorem Ledger.mintExtension_congr (h : l' k = l k) (t : ExtensionType) :
    l'.mintExtension k t = l.mintExtension k t := by
  simp only [Ledger.mintExtension, h]

/-- One extension is written into a mint, whose length may change. -/
theorem Ledger.mintExtension_put (hm : MintAt l k m) (len : ℕ) (v : t.Value) :
    (fun j => (l.setData k (.mint ({ m with len := len }.setExtension t v))).mintExtension j t) =
      Function.update (fun j => l.mintExtension j t) k (some v) := by
  funext j
  by_cases hj : j = k
  · subst hj
    rw [Function.update_self]
    exact Ledger.mintExtension_eq_some.mpr ⟨_, ⟨by simpa using hm.owner, by simp; rfl⟩,
      TypedStore.get_put_self ..⟩
  · rw [Function.update_of_ne hj]
    exact Ledger.mintExtension_congr (Ledger.setData_of_ne hj) t

theorem Ledger.mintExtension_put_of_ne (hm : MintAt l k m) (len : ℕ) (v : t.Value)
    {u : ExtensionType} (hu : u ≠ t) (j : Pubkey) :
    (l.setData k (.mint ({ m with len := len }.setExtension t v))).mintExtension j u =
      l.mintExtension j u := by
  by_cases hj : j = k
  · subst hj
    have hm' : MintAt (l.setData j (.mint ({ m with len := len }.setExtension t v))) j
        ({ m with len := len }.setExtension t v) := ⟨by simpa using hm.owner, by simp⟩
    rw [hm.mintExtension, hm'.mintExtension]
    exact TypedStore.get_put_of_ne _ v hu
  · exact Ledger.mintExtension_congr (Ledger.setData_of_ne hj) u

/-- A new extension of a mint of this program. -/
theorem allocAndSerialize_new {v : t.Value} (howner : (l k).owner = programId)
    (h : allocAndSerialize t v false k l = .ok l') :
    ∃ m len, MintAt l k m ∧ m.tlv.get t = none ∧
      l' = l.setData k (.mint ({ m with len := len }.setExtension t v)) := by
  simp only [allocAndSerialize, bind_eq_ok, exists_unit] at h
  obtain ⟨m, hm, -, m', hinit, hwrite⟩ := h
  obtain ⟨rfl, hnone⟩ := PodStateWithExtensions.initExtension_eq_ok hinit
  obtain ⟨-, rfl⟩ := Ledger.writeData_eq_ok.mp hwrite
  exact ⟨m, _, ⟨howner, (unpackMint_eq_ok.mp hm).1⟩, hnone rfl, rfl⟩

theorem checkMintForInterface_owner {pointer : ExtensionType}
    {extensionInfo mintInfo mintAuthorityInfo : AccountInfo} {u : Unit}
    (h : checkMintForInterface pointer extensionInfo mintInfo mintAuthorityInfo l = .ok u) :
    extensionInfo.key = mintInfo.key ∧ (l extensionInfo.key).owner = programId := by
  simp only [checkMintForInterface, checkProgramAccount, bind_eq_ok, exists_unit, ensure_eq_ok] at h
  obtain ⟨hkey, howner, -⟩ := h
  exact ⟨hkey, hkey ▸ howner⟩

/-! ### The four instructions on groups -/

/-- The group stored at `g` changes, and nothing else of groups does. -/
structure GroupWritten (l l' : Ledger) (g : Pubkey) (group : TokenGroup) : Prop where
  groups : (fun j => l'.mintExtension j .tokenGroup) =
    Function.update (fun j => l.mintExtension j .tokenGroup) g (some group)
  members : ∀ j, l'.mintExtension j .tokenGroupMember = l.mintExtension j .tokenGroupMember

theorem GroupWritten.of_put (hm : MintAt l k m) (len : ℕ) (group : TokenGroup) :
    GroupWritten l (l.setData k (.mint ({ m with len := len }.setExtension .tokenGroup group))) k
      group where
  groups := Ledger.mintExtension_put (t := .tokenGroup) hm len group
  members := Ledger.mintExtension_put_of_ne (t := .tokenGroup) hm len group (by decide)

theorem processInitializeGroup_eq_ok {authority : OptionalNonZeroPubkey} {maxSize : UInt32}
    {accounts : List AccountInfo} (h : processInitializeGroup authority maxSize accounts l = .ok l') :
    ∃ g, l.mintExtension g .tokenGroup = none ∧ GroupWritten l l' g ⟨authority, g, 0, maxSize⟩ := by
  simp only [processInitializeGroup, bind_eq_ok, Prod.exists, exists_unit] at h
  obtain ⟨groupInfo, rest, -, mintInfo, rest', -, mintAuthorityInfo, rest'', -, hcheck, halloc⟩ := h
  obtain ⟨hkey, howner⟩ := checkMintForInterface_owner hcheck
  obtain ⟨m, len, hm, hnone, rfl⟩ := allocAndSerialize_new (t := .tokenGroup) howner halloc
  refine ⟨groupInfo.key, (hm.mintExtension .tokenGroup).trans hnone, ?_⟩
  rw [hkey]
  exact .of_put (hkey ▸ hm) len _

/-- A group that is written back changes, or the write was of what was there. -/
theorem GroupWritten.of_writeData {mint : PodStateWithExtensions PodMint} {group group' : TokenGroup}
    (hmint : (l g).data.unpackMint = .ok mint) (hgroup : mint.tlv.get .tokenGroup = some group)
    (hwrite : l.writeData g (.mint (mint.setExtension .tokenGroup group')) = .ok l') :
    l.mintExtension g .tokenGroup = some group ∧ GroupWritten l l' g group' ∨
      l' = l ∧ group' = group := by
  have hdata := (unpackMint_eq_ok.mp hmint).1
  obtain ⟨howner | hsame, rfl⟩ := Ledger.writeData_eq_ok.mp hwrite
  · have hm : MintAt l g mint := ⟨howner, hdata⟩
    exact Or.inl ⟨(hm.mintExtension _).trans hgroup, .of_put hm mint.len group'⟩
  · right
    have heq : mint = mint.setExtension .tokenGroup group' :=
      AccountData.mint.inj (hdata.symm.trans hsame)
    have hget : mint.tlv.get .tokenGroup = some group' := by
      rw [heq]
      exact TypedStore.get_put_self ..
    exact ⟨Ledger.setData_eq_self hsame, Option.some.inj (hget.symm.trans hgroup)⟩

theorem updateTokenGroup_eq_ok {update : TokenGroup → Except Fault TokenGroup}
    {accounts : List AccountInfo} (h : updateTokenGroup update accounts l = .ok l') :
    l' = l ∨ ∃ g group group', l.mintExtension g .tokenGroup = some group ∧
      update group = .ok group' ∧ GroupWritten l l' g group' := by
  simp only [updateTokenGroup, bind_eq_ok, Prod.exists, exists_unit] at h
  obtain ⟨groupInfo, rest, -, authorityInfo, rest', -, mint, hmint, group, hgroup, -, group', hupdate,
    hwrite⟩ := h
  rcases GroupWritten.of_writeData hmint (PodStateWithExtensions.getExtension_eq_ok.mp hgroup)
    hwrite with ⟨hold, hwritten⟩ | ⟨hsame, -⟩
  · exact Or.inr ⟨groupInfo.key, group, group', hold, hupdate, hwritten⟩
  · exact Or.inl hsame

/-- A member joins: the group is counted up, and the count stored in the member. -/
structure MemberJoined (x : Externals) (l l' : Ledger) (k g : Pubkey) (group group' : TokenGroup)
    (number : UInt32) : Prop where
  free : l.mintExtension k .tokenGroupMember = none
  stored : l.mintExtension g .tokenGroup = some group
  counted : x.incrementSize group = .ok (group', number)
  groups : (fun j => l'.mintExtension j .tokenGroup) =
    Function.update (fun j => l.mintExtension j .tokenGroup) g (some group')
  members : (fun j => l'.mintExtension j .tokenGroupMember) =
    Function.update (fun j => l.mintExtension j .tokenGroupMember) k (some ⟨k, g, number⟩)

theorem processInitializeMember_eq_ok {x : Externals} {accounts : List AccountInfo}
    (hcounts : ∀ group number, x.incrementSize group ≠ .ok (group, number))
    (h : processInitializeMember x accounts l = .ok l') :
    ∃ k g group group' number, MemberJoined x l l' k g group group' number := by
  simp only [processInitializeMember, bind_eq_ok, Prod.exists, exists_unit, ensure_eq_ok] at h
  obtain ⟨memberInfo, rest, -, memberMintInfo, rest', -, memberAuthorityInfo, rest'', -, groupInfo,
    rest₃, -, groupAuthorityInfo, rest₄, -, hcheck, hne, groupMint, hgroupMint, group, hgroup, -,
    group', number, hcounted, l₁, hwrite, halloc⟩ := h
  obtain ⟨hkey, howner⟩ := checkMintForInterface_owner hcheck
  rcases GroupWritten.of_writeData hgroupMint (PodStateWithExtensions.getExtension_eq_ok.mp hgroup)
    hwrite with ⟨hold, hwritten⟩ | ⟨-, rfl⟩
  · -- The member's mint is not the group's, so it is as it was.
    have hsame : l₁ memberInfo.key = l memberInfo.key := by
      obtain ⟨-, rfl⟩ := Ledger.writeData_eq_ok.mp hwrite
      exact Ledger.setData_of_ne hne
    rw [← hsame] at howner
    obtain ⟨m, len, hm, hnone, rfl⟩ := allocAndSerialize_new (t := .tokenGroupMember) howner halloc
    refine ⟨memberInfo.key, groupInfo.key, group, group', number,
      ⟨?_, hold, hcounted, ?_, ?_⟩⟩
    · rw [← Ledger.mintExtension_congr hsame, hm.mintExtension]
      exact hnone
    · rw [← hwritten.groups]
      funext j
      exact Ledger.mintExtension_put_of_ne (t := .tokenGroupMember) hm len _ (by decide) j
    · rw [← funext hwritten.members, hkey]
      exact Ledger.mintExtension_put (t := .tokenGroupMember) (hkey ▸ hm) len _
  · exact absurd hcounted (hcounts group' number)

end

/-! ### Numbers in every state -/

/-- The members of every group have different numbers, from one up to its size, and
no group is larger than its maximum. -/
structure MembersNumbered (l : Ledger) : Prop where
  distinct : ∀ j k u v, l.mintExtension j .tokenGroupMember = some u →
    l.mintExtension k .tokenGroupMember = some v → u.group = v.group →
      u.memberNumber = v.memberNumber → j = k
  counted : ∀ k v, l.mintExtension k .tokenGroupMember = some v →
    ∃ group, l.mintExtension v.group .tokenGroup = some group ∧
      1 ≤ v.memberNumber.toNat ∧ v.memberNumber ≤ group.size
  capped : ∀ g group, l.mintExtension g .tokenGroup = some group → group.size ≤ group.maxSize

/-- What the group interface documents of its two methods: `increment_size` adds one
and fails beyond the maximum, and `update_max_size` refuses a maximum below the size. -/
structure Externals.CountsGroups (x : Externals) : Prop where
  increment : ∀ group group' number, x.incrementSize group = .ok (group', number) →
    number.toNat = group.size.toNat + 1 ∧ number ≤ group.maxSize ∧
      group' = { group with size := number }
  maximum : ∀ group maxSize group', x.updateMaxSize group maxSize = .ok group' →
    group.size ≤ maxSize ∧ group' = { group with maxSize := maxSize }

/-- `CloseAccount` on the mint of a group that has members. -/
def Call.ClosesJoinedGroup (c : Call) (g : Pubkey) : Prop :=
  c.Closes g ∧ (∃ group, c.ledger.mintExtension g .tokenGroup = some group) ∧
    ∃ k v, c.ledger.mintExtension k .tokenGroupMember = some v ∧ v.group = g

/-- The counters of all groups. -/
def groupSizes (l : Ledger) (g : Pubkey) : Option ℕ :=
  (l.mintExtension g .tokenGroup).map fun group => group.size.toNat

/-- The numbers of all members. -/
def memberNumbers (l : Ledger) (k : Pubkey) : Option (Pubkey × ℕ) :=
  (l.mintExtension k .tokenGroupMember).map fun v => (v.group, v.memberNumber.toNat)

/-- No group is larger than its maximum. -/
def GroupsCapped (l : Ledger) : Prop :=
  ∀ g group, l.mintExtension g .tokenGroup = some group → group.size ≤ group.maxSize

section

variable {l l' : Ledger} {k g : Pubkey}

theorem memberNumbers_eq_some {p : Pubkey × ℕ} :
    memberNumbers l k = some p ↔ ∃ v, l.mintExtension k .tokenGroupMember = some v ∧
      v.group = p.1 ∧ v.memberNumber.toNat = p.2 := by
  simp only [memberNumbers, Option.map_eq_some_iff, Prod.ext_iff]

theorem groupSizes_eq_some {size : ℕ} :
    groupSizes l g = some size ↔
      ∃ group, l.mintExtension g .tokenGroup = some group ∧ group.size.toNat = size := by
  simp only [groupSizes, Option.map_eq_some_iff]

/-- The ledger's members are numbered where their counters and numbers are. -/
theorem MembersNumbered.of_numbered (h : Numbered (groupSizes l) (memberNumbers l))
    (hcapped : GroupsCapped l) : MembersNumbered l where
  distinct j k u v hu hv hgroup hnumber :=
    h.distinct j k v.group v.memberNumber.toNat
      (memberNumbers_eq_some.mpr ⟨u, hu, hgroup, congrArg UInt32.toNat hnumber⟩)
      (memberNumbers_eq_some.mpr ⟨v, hv, rfl, rfl⟩)
  counted k v hv := by
    obtain ⟨size, hsize, hpos, hle⟩ :=
      h.counted k _ _ (memberNumbers_eq_some.mpr ⟨v, hv, rfl, rfl⟩)
    obtain ⟨group, hgroup, rfl⟩ := groupSizes_eq_some.mp hsize
    exact ⟨group, hgroup, hpos, UInt32.le_iff_toNat_le.mpr hle⟩
  capped := hcapped

/-- What keeps the numbers: members and groups are as they were, or go. -/
theorem numbered_of_ledger (h : Numbered (groupSizes l) (memberNumbers l))
    (hmember : ∀ k v, l'.mintExtension k .tokenGroupMember = some v →
      l.mintExtension k .tokenGroupMember = some v)
    (hgroup : ∀ k v group, l'.mintExtension k .tokenGroupMember = some v →
      l.mintExtension v.group .tokenGroup = some group →
        ∃ group', l'.mintExtension v.group .tokenGroup = some group' ∧ group'.size = group.size) :
    Numbered (groupSizes l') (memberNumbers l') := by
  refine h.shrink (fun k p hp => ?_) (fun k g n size hk hsize => ?_)
  · obtain ⟨v, hv, hvalue⟩ := memberNumbers_eq_some.mp hp
    exact memberNumbers_eq_some.mpr ⟨v, hmember k v hv, hvalue⟩
  · obtain ⟨v, hv, hg, -⟩ := memberNumbers_eq_some.mp hk
    subst hg
    obtain ⟨group, hold, rfl⟩ := groupSizes_eq_some.mp hsize
    obtain ⟨group', hnew, heq⟩ := hgroup k v group hv hold
    exact groupSizes_eq_some.mpr ⟨group', hnew, congrArg UInt32.toNat heq⟩

/-- A group that is written with the size it had, or that is new. -/
theorem GroupWritten.numbered {group' : TokenGroup} (h : GroupWritten l l' g group')
    (hsize : ∀ group, l.mintExtension g .tokenGroup = some group → group'.size = group.size)
    (hnumbered : Numbered (groupSizes l) (memberNumbers l)) :
    Numbered (groupSizes l') (memberNumbers l') := by
  refine numbered_of_ledger hnumbered (fun k v hv => (h.members k).symm.trans hv)
    fun k v group hv hgroup => ?_
  have hat := congrFun h.groups v.group
  by_cases hg : v.group = g
  · rw [hg, Function.update_self] at hat
    rw [hg] at hgroup ⊢
    exact ⟨group', hat, hsize group hgroup⟩
  · rw [Function.update_of_ne hg] at hat
    exact ⟨group, hat.trans hgroup, rfl⟩

theorem GroupsCapped.of_update {group' : TokenGroup} (h : GroupsCapped l)
    (hgroups : (fun j => l'.mintExtension j .tokenGroup) =
      Function.update (fun j => l.mintExtension j .tokenGroup) g (some group'))
    (hle : group'.size ≤ group'.maxSize) : GroupsCapped l' := by
  intro j group hj
  have hat := congrFun hgroups j
  by_cases hjg : j = g
  · rw [hjg, Function.update_self] at hat
    rw [hjg, hat] at hj
    exact Option.some.inj hj ▸ hle
  · rw [Function.update_of_ne hjg] at hat
    exact h j group (hat ▸ hj)

/-- A member that joins takes the next number. -/
theorem MemberJoined.numbered {x : Externals} {group group' : TokenGroup} {number : UInt32}
    (hx : x.CountsGroups) (h : MemberJoined x l l' k g group group' number)
    (hnumbered : Numbered (groupSizes l) (memberNumbers l)) :
    Numbered (groupSizes l') (memberNumbers l') := by
  obtain ⟨hnumber, -, rfl⟩ := hx.increment _ _ _ h.counted
  have hsizes : groupSizes l' = Function.update (groupSizes l) g (some (group.size.toNat + 1)) := by
    funext j
    have hat := congrFun h.groups j
    simp only [groupSizes]
    rw [hat]
    by_cases hj : j = g
    · subst hj
      simp only [Function.update_self, Option.map_some, hnumber]
    · simp only [Function.update_of_ne hj, groupSizes]
  have hmembers : memberNumbers l' =
      Function.update (memberNumbers l) k (some (g, group.size.toNat + 1)) := by
    funext j
    have hat := congrFun h.members j
    simp only [memberNumbers]
    rw [hat]
    by_cases hj : j = k
    · subst hj
      simp only [Function.update_self, Option.map_some, hnumber]
    · simp only [Function.update_of_ne hj, memberNumbers]
  rw [hsizes, hmembers]
  exact hnumbered.register (groupSizes_eq_some.mpr ⟨group, h.stored, rfl⟩)

end

/-! ### Instructions -/

section

variable {c : Call} {l' : Ledger} {k g : Pubkey}

/-- An interface extension after an instruction: as before, or changed with its
mint. -/
theorem Call.process_mintExtension_origin {t : ExtensionType} {v : t.Value}
    (hl : WellFormedLedger c.ledger) (h : c.process = .ok l') (ht : t.pointer.isSome)
    (hv : l'.mintExtension k t = some v) : c.ledger.mintExtension k t = some v ∨
      ∃ m m', MintAt c.ledger k m ∧ MintStep c k m m' ∧ m'.tlv.get t = some v := by
  obtain ⟨m', hm', hget⟩ := Ledger.mintExtension_eq_some.mp hv
  rcases (Call.process_recordStep hl h k).mint_origin hm'.owner hm'.data with
    ⟨m, howner, hdata, rfl | hstep⟩ | ⟨howner, hnew⟩ | ⟨-, -, rfl⟩
  · exact Or.inl (Ledger.mintExtension_eq_some.mpr ⟨m', ⟨howner, hdata⟩, hget⟩)
  · exact Or.inr ⟨m, m', ⟨howner, hdata⟩, hstep, hget⟩
  · -- Nothing that a pointer is for is there before the mint is.
    have hnone := ((hl k).of_zeroed howner hnew.data).2.unpointed t ht
    rw [hnone] at hget
    cases hget
  · cases hget

/-- Without an instruction on groups, groups and members stay or go. -/
theorem Call.process_keeps_groups (hl : WellFormedLedger c.ledger) (h : c.process = .ok l')
    (hix : c.ix.writesGroup = false) :
    (∀ k v, l'.mintExtension k .tokenGroupMember = some v →
      c.ledger.mintExtension k .tokenGroupMember = some v) ∧
    (∀ g v, l'.mintExtension g .tokenGroup = some v →
      c.ledger.mintExtension g .tokenGroup = some v) ∧
    ∀ g v, c.ledger.mintExtension g .tokenGroup = some v → ¬ c.Closes g →
      l'.mintExtension g .tokenGroup = some v := by
  have hno : ¬ c.ix.writesGroup = true := by simp [hix]
  have hnomember : ¬ c.ix.isInitializeMember = true := by
    intro hmember
    cases hc : c.ix <;> simp [hc, TokenInstruction.isInitializeMember] at hmember
    simp [hc, TokenInstruction.writesGroup] at hix
  refine ⟨fun k v hv => ?_, fun g v hv => ?_, fun g v hv hclose => ?_⟩
  · rcases Call.process_mintExtension_origin hl h rfl hv with hold | ⟨m, m', hm, hstep, hget⟩
    · exact hold
    · rw [hm.mintExtension, ← hstep.member.resolve_right hnomember]
      exact hget
  · rcases Call.process_mintExtension_origin hl h rfl hv with hold | ⟨m, m', hm, hstep, hget⟩
    · exact hold
    · rw [hm.mintExtension, ← hstep.group.resolve_right hno]
      exact hget
  · obtain ⟨m, hm, hget⟩ := Ledger.mintExtension_eq_some.mp hv
    obtain ⟨m', hm', rfl | hstep⟩ := Call.process_mintAt hl h hm fun hcloses => hclose hcloses.1
    · exact Ledger.mintExtension_eq_some.mpr ⟨m', hm', hget⟩
    · rw [hm'.mintExtension, hstep.group.resolve_right hno]
      exact hget

/-- What an instruction does to groups and members. -/
inductive GroupEffect (x : Externals) (c : Call) (l' : Ledger) : Prop
  | kept
      (hmember : ∀ k v, l'.mintExtension k .tokenGroupMember = some v →
        c.ledger.mintExtension k .tokenGroupMember = some v)
      (hgroup : ∀ g v, l'.mintExtension g .tokenGroup = some v →
        c.ledger.mintExtension g .tokenGroup = some v)
      (hkeep : ∀ g v, c.ledger.mintExtension g .tokenGroup = some v → ¬ c.Closes g →
        l'.mintExtension g .tokenGroup = some v)
  | opened {g authority maxSize} (hnew : c.ledger.mintExtension g .tokenGroup = none)
      (h : GroupWritten c.ledger l' g ⟨authority, g, 0, maxSize⟩)
  | changed {g group group'} (hold : c.ledger.mintExtension g .tokenGroup = some group)
      (hsize : group'.size = group.size)
      (hmax : group'.maxSize = group.maxSize ∨ group.size ≤ group'.maxSize)
      (h : GroupWritten c.ledger l' g group')
  | joined {k g group group' number} (h : MemberJoined x c.ledger l' k g group group' number)

theorem Call.process_groupEffect (hx : c.x.CountsGroups) (hl : WellFormedLedger c.ledger)
    (h : c.process = .ok l') : GroupEffect c.x c l' := by
  obtain ⟨x, env, ix, accounts, l⟩ := c
  by_cases hix : ix.writesGroup = true
  · have hsame : ∀ l' : Ledger, l' = l → GroupEffect x ⟨x, env, ix, accounts, l⟩ l' := by
      rintro l' rfl
      exact .kept (fun _ _ => id) (fun _ _ => id) fun _ _ hv _ => hv
    cases ix with
    | initializeGroup authority maxSize =>
      obtain ⟨g, hnew, hwritten⟩ := processInitializeGroup_eq_ok h
      exact .opened hnew hwritten
    | updateGroupMaxSize maxSize =>
      rcases updateTokenGroup_eq_ok h with heq | ⟨g, group, group', hold, hupdate, hwritten⟩
      · exact hsame l' heq
      · obtain ⟨hle, rfl⟩ := hx.maximum _ _ _ hupdate
        refine .changed hold ?_ (Or.inr ?_) hwritten
        · rfl
        · exact hle
    | updateGroupAuthority authority =>
      rcases updateTokenGroup_eq_ok h with heq | ⟨g, group, group', hold, hupdate, hwritten⟩
      · exact hsame l' heq
      · obtain rfl := pure_eq_ok.mp hupdate
        refine .changed hold ?_ (Or.inl ?_) hwritten
        · rfl
        · rfl
    | initializeMember =>
      have hcounts : ∀ group number, x.incrementSize group ≠ .ok (group, number) := by
        intro group number hcount
        obtain ⟨hnumber, -, heq⟩ := hx.increment _ _ _ hcount
        have hsize := congrArg TokenGroup.size heq
        simp only at hsize
        rw [← hsize] at hnumber
        omega
      obtain ⟨k, g, group, group', number, hjoined⟩ := processInitializeMember_eq_ok hcounts h
      exact .joined hjoined
    | _ => simp [TokenInstruction.writesGroup] at hix
  · obtain ⟨hmember, hgroup, hkeep⟩ :=
      Call.process_keeps_groups hl h (Bool.eq_false_iff.mpr hix)
    exact .kept hmember hgroup hkeep

theorem GroupEffect.numbered {x : Externals} (hx : x.CountsGroups) (h : GroupEffect x c l')
    (hclose : ∀ g, ¬ c.ClosesJoinedGroup g)
    (hnumbered : Numbered (groupSizes c.ledger) (memberNumbers c.ledger)) :
    Numbered (groupSizes l') (memberNumbers l') := by
  cases h with
  | kept hmember hgroup hkeep =>
    refine numbered_of_ledger hnumbered hmember fun k v group hv hold => ?_
    have hopen : ¬ c.Closes v.group := fun hcloses =>
      hclose v.group ⟨hcloses, ⟨group, hold⟩, k, v, hmember k v hv, rfl⟩
    exact ⟨group, hkeep v.group group hold hopen, rfl⟩
  | opened hnew h =>
    refine h.numbered (fun group hold => ?_) hnumbered
    rw [hnew] at hold
    cases hold
  | changed hold hsize _ h =>
    refine h.numbered (fun group hgroup => ?_) hnumbered
    obtain rfl := Option.some.inj (hold.symm.trans hgroup)
    exact hsize
  | joined h => exact h.numbered hx hnumbered

theorem GroupEffect.capped {x : Externals} (hx : x.CountsGroups) (h : GroupEffect x c l')
    (hcapped : GroupsCapped c.ledger) : GroupsCapped l' := by
  cases h with
  | kept _ hgroup _ => exact fun g group hg => hcapped g group (hgroup g group hg)
  | opened _ h => exact hcapped.of_update h.groups UInt32.zero_le
  | changed hold hsize hmax h =>
    refine hcapped.of_update h.groups ?_
    rw [hsize]
    rcases hmax with heq | hle
    · rw [heq]
      exact hcapped _ _ hold
    · exact hle
  | joined h =>
    obtain ⟨-, hle, rfl⟩ := hx.increment _ _ _ h.counted
    exact hcapped.of_update h.groups hle

end

/-! ### Runs -/

section

variable {l l' : Ledger}

/-- Other programs neither make nor change mints. -/
theorem ForeignStep.mintExtension (h : ForeignStep l l') (k : Pubkey) (t : ExtensionType) :
    l'.mintExtension k t = l.mintExtension k t := by
  apply Option.ext
  intro v
  rw [Ledger.mintExtension_eq_some, Ledger.mintExtension_eq_some]
  constructor
  · rintro ⟨m, hm, hget⟩
    exact ⟨m, h.mintAt_of hm, hget⟩
  · rintro ⟨m, hm, hget⟩
    exact ⟨m, h.mintAt hm, hget⟩

theorem ForeignStep.numbered (h : ForeignStep l l')
    (hnumbered : Numbered (groupSizes l) (memberNumbers l)) :
    Numbered (groupSizes l') (memberNumbers l') := by
  have hsizes : groupSizes l' = groupSizes l := by
    funext g
    simp only [groupSizes, h.mintExtension]
  have hmembers : memberNumbers l' = memberNumbers l := by
    funext k
    simp only [memberNumbers, h.mintExtension]
  rwa [hsizes, hmembers]

theorem ForeignStep.capped (h : ForeignStep l l') (hcapped : GroupsCapped l) : GroupsCapped l' := by
  intro g group hg
  rw [h.mintExtension] at hg
  exact hcapped g group hg

theorem Genesis.mintExtension (h : Genesis l) (k : Pubkey) (t : ExtensionType) :
    l.mintExtension k t = none := by
  cases hext : l.mintExtension k t with
  | none => rfl
  | some v =>
    obtain ⟨m, hm, -⟩ := Ledger.mintExtension_eq_some.mp hext
    exact absurd hm (h.unused.mint m)

/-- Members are numbered in every run that closes no group with members. -/
theorem members_numbered {x : Externals} {l₀ : Ledger} {events : List Event} (hx : x.CountsGroups)
    (hgen : Genesis l₀)
    (hrun : RunWhere x (fun c => c.Succeeds → ∀ g, ¬ c.ClosesJoinedGroup g) l₀ events l) :
    MembersNumbered l := by
  have hempty : Numbered (groupSizes l₀) (memberNumbers l₀) := by
    refine .empty _ fun k => ?_
    rw [memberNumbers, hgen.mintExtension]
    rfl
  have hcapped : GroupsCapped l₀ := by
    intro g group hg
    rw [hgen.mintExtension] at hg
    cases hg
  have hinv := RunWhere.invariant
    (fun l => WellFormedLedger l ∧ Numbered (groupSizes l) (memberNumbers l) ∧ GroupsCapped l)
    (fun c l' hcx hP hinv hok => ?_) (fun l l' hinv hf => ?_) hrun ⟨hgen.wellFormed, hempty, hcapped⟩
  · exact .of_numbered hinv.2.1 hinv.2.2
  · subst hcx
    have heffect := Call.process_groupEffect hx hinv.1 hok
    exact ⟨Call.process_wellFormed hinv.1 hok, heffect.numbered hx (hP ⟨l', hok⟩) hinv.2.1,
      heffect.capped hx hinv.2.2⟩
  · exact ⟨hf.wellFormed hinv.1, hf.numbered hinv.2.1, hf.capped hinv.2.2⟩

end

/-! ### A group made anew -/

/-- The group interface as it is documented. -/
def Externals.counting : Externals := { Externals.refusing with
  incrementSize := fun group =>
    if group.size < group.maxSize then .ok ({ group with size := group.size + 1 }, group.size + 1)
    else .error InterfaceError.sizeExceedsMaxSize
  updateMaxSize := fun group maxSize =>
    if group.size ≤ maxSize then .ok { group with maxSize := maxSize }
    else .error InterfaceError.sizeExceedsNewMaxSize }

theorem Externals.counting_countsGroups : Externals.counting.CountsGroups where
  increment group group' number h := by
    unfold Externals.counting at h
    simp only at h
    split at h
    case isTrue hlt =>
      cases h
      have hmax := group.maxSize.toNat_lt
      rw [UInt32.lt_iff_toNat_lt] at hlt
      have hnext : (group.size + 1).toNat = group.size.toNat + 1 := by
        rw [UInt32.toNat_add]
        exact Nat.mod_eq_of_lt (by change group.size.toNat + 1 < 2 ^ 32; omega)
      exact ⟨hnext, UInt32.le_iff_toNat_le.mpr (by omega), rfl⟩
    case isFalse => cases h
  maximum group maxSize group' h := by
    unfold Externals.counting at h
    simp only at h
    split at h
    case isTrue hle =>
      cases h
      exact ⟨hle, rfl⟩
    case isFalse => cases h

/-- Room for the mint of a group, and for the mints of two members. -/
def blankGroupLedger : Ledger :=
  .ofList [(⟨1⟩, ⟨1, programId, .zeroed 270 []⟩), (⟨2⟩, ⟨1, programId, .zeroed 234 []⟩),
    (⟨3⟩, ⟨1, programId, .zeroed 234 []⟩)]

/-- A group in a mint that can be closed. -/
def groupCalls : List (Env × TokenInstruction × List AccountInfo) :=
  [(.plain 0, .initializeMintCloseAuthority (some ⟨5⟩), [⟨⟨1⟩, false⟩]),
   (.plain 0, .initializeGroupPointer ⟨⟨0⟩⟩ ⟨⟨1⟩⟩, [⟨⟨1⟩, false⟩]),
   (.plain 0, .initializeMint 0 ⟨6⟩ none false, [⟨⟨1⟩, false⟩]),
   (.plain 0, .initializeGroup ⟨⟨6⟩⟩ 10, [⟨⟨1⟩, false⟩, ⟨⟨1⟩, false⟩, ⟨⟨6⟩, true⟩])]

/-- A mint that becomes a member. -/
def memberCalls (k : Pubkey) : List (Env × TokenInstruction × List AccountInfo) :=
  [(.plain 0, .initializeGroupMemberPointer ⟨⟨0⟩⟩ ⟨k⟩, [⟨k, false⟩]),
   (.plain 0, .initializeMint 0 ⟨6⟩ none false, [⟨k, false⟩]),
   (.plain 0, .initializeMember,
     [⟨k, false⟩, ⟨k, false⟩, ⟨⟨6⟩, true⟩, ⟨⟨1⟩, false⟩, ⟨⟨6⟩, true⟩])]

def closedGroupLedger : Ledger :=
  replay .counting (groupCalls ++ memberCalls ⟨2⟩ ++ [(.plain 0, .closeAccount,
    [⟨⟨1⟩, false⟩, ⟨⟨4⟩, false⟩, ⟨⟨5⟩, true⟩])]) blankGroupLedger

/-- The address of the group, allocated again. -/
def reallocatedGroupLedger : Ledger := fun k =>
  if k = ⟨1⟩ then ⟨1, programId, .zeroed 270 []⟩ else closedGroupLedger k

/-- A group with a new member takes the place of the old one. -/
def regroupedLedger : Ledger :=
  replay .counting (groupCalls ++ memberCalls ⟨3⟩) reallocatedGroupLedger

theorem blankGroupLedger_genesis : Genesis blankGroupLedger := .ofList (by decide) (by decide)

theorem foreignStep_reallocatedGroup : ForeignStep closedGroupLedger reallocatedGroupLedger := by
  intro k
  unfold reallocatedGroupLedger
  by_cases hk : k = ⟨1⟩
  · subst hk
    rw [if_pos rfl]
    exact ⟨fun howner => absurd howner (by decide +kernel), fun _ _ => ⟨by decide, 270, rfl⟩⟩
  · rw [if_neg hk]
    exact .refl k _

/-- The first members of the two groups at one address have the same number. -/
theorem members_numbered_fails : Reachable .counting regroupedLedger ∧
    ¬ MembersNumbered regroupedLedger := by
  have hclosed : LedgerRun .counting blankGroupLedger _ closedGroupLedger := ledgerRun_replay _ _ _
  have hrealloc : LedgerRun .counting closedGroupLedger [.external] reallocatedGroupLedger :=
    Run.single foreignStep_reallocatedGroup
  refine ⟨⟨blankGroupLedger, _, blankGroupLedger_genesis,
    (hclosed.append hrealloc).append (ledgerRun_replay _ _ _)⟩, fun hnumbered => ?_⟩
  have hfirst : regroupedLedger.mintExtension ⟨2⟩ .tokenGroupMember = some ⟨⟨2⟩, ⟨1⟩, 1⟩ := by
    decide +kernel
  have hsecond : regroupedLedger.mintExtension ⟨3⟩ .tokenGroupMember = some ⟨⟨3⟩, ⟨1⟩, 1⟩ := by
    decide +kernel
  exact absurd (hnumbered.distinct ⟨2⟩ ⟨3⟩ _ _ hfirst hsecond rfl rfl) (by decide)

/-- A group with two members, and no mint closed. -/
theorem members_numbered_two : MembersNumbered
    (replay .counting (groupCalls ++ memberCalls ⟨2⟩ ++ memberCalls ⟨3⟩) blankGroupLedger) := by
  have hopen : ∀ c ∈ groupCalls ++ memberCalls ⟨2⟩ ++ memberCalls ⟨3⟩, c.2.1 ≠ .closeAccount := by
    intro c hc hix
    simp only [groupCalls, memberCalls, List.cons_append, List.nil_append, List.mem_cons,
      List.not_mem_nil, or_false] at hc
    rcases hc with rfl | rfl | rfl | rfl | rfl | rfl | rfl | rfl | rfl | rfl <;> cases hix
  refine members_numbered Externals.counting_countsGroups blankGroupLedger_genesis
    (runWhere_replay (fun c hc l _ g hclose => ?_) blankGroupLedger)
  exact hopen c hc hclose.1.1

end BarkToken
