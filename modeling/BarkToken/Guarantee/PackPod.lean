import BarkToken.Bytes.Assign
import BarkToken.Invariant.Mints
import BarkToken.Program.Replay

/-!
# Two views of one buffer (state.rs:51-200, pod.rs:22-256, extension/mod.rs:472-975)

`Pack` accepts exactly the buffers `Pod` accepts whose tags, booleans and states
are canonical, and reads the same fields from them. What the handlers assign to base
fields keeps the bytes canonical, so that all buffers of a run are of this kind.
-/

namespace BarkToken
open Fallible Transition

namespace Bytes

/-! ### Agreement -/

/-- `PodMint` and `Mint` with the same contents. -/
structure MintAgrees (p : MintView) (m : PodMint) : Prop where
  mintAuthority : p.mintAuthority.Agrees m.mintAuthority
  supply : p.supply = m.supply
  decimals : p.decimals = m.decimals
  isInitialized : p.isInitialized = boolByte m.isInitialized
  freezeAuthority : p.freezeAuthority.Agrees m.freezeAuthority

/-- `PodAccount` and `Account` with the same contents. -/
structure AccountAgrees (p : AccountView) (a : PodAccount) : Prop where
  mint : p.mint = a.mint
  owner : p.owner = a.owner
  amount : p.amount = a.amount
  delegate : p.delegate.Agrees a.delegate
  state : p.state = stateByte a.state
  isNative : p.isNative.Agrees a.isNative
  delegatedAmount : p.delegatedAmount = a.delegatedAmount
  closeAuthority : p.closeAuthority.Agrees a.closeAuthority

def BaseAgrees : (S : BaseState) → Pod S → Packed S → Prop
  | .mint => MintAgrees
  | .account => AccountAgrees

/-- Tags of 0 or 1, a state of at most 2, a boolean of at most 1. -/
def Canonical : (S : BaseState) → Pod S → Prop
  | .mint, p => p.mintAuthority.Canonical ∧ p.isInitialized ≤ 1 ∧ p.freezeAuthority.Canonical
  | .account, p => p.delegate.Canonical ∧ p.state ≤ 2 ∧ p.isNative.Canonical ∧
      p.closeAuthority.Canonical

variable {S : BaseState} {b : Bytes}

theorem unpackCOption_eq_ok {α : Type} {p : PodCOption α} {o : Option α} :
    unpackCOption p = .ok o ↔ p.Agrees o := by
  have hdistinct : PodCOption.NONE ≠ PodCOption.SOME := by decide
  rw [unpackCOption]
  split
  case isTrue hnone =>
    cases o with
    | none => exact iff_of_true rfl hnone
    | some v =>
      refine iff_of_false (fun h => nomatch h) fun h => ?_
      exact hdistinct (hnone.symm.trans h.1)
  case isFalse hnone =>
    split
    case isTrue hsome =>
      cases o with
      | none => exact iff_of_false (fun h => nomatch h) hnone
      | some v =>
        rw [Except.ok.injEq, Option.some.injEq]
        exact ⟨fun h => ⟨hsome, h⟩, fun h => h.2⟩
    case isFalse hsome =>
      cases o with
      | none => exact iff_of_false (fun h => nomatch h) hnone
      | some v => exact iff_of_false (fun h => nomatch h) fun h => hsome h.1

theorem PodCOption.Agrees.canonical {α : Type} {p : PodCOption α} {o : Option α}
    (h : p.Agrees o) : p.Canonical := by
  cases o with
  | none => exact Or.inl h
  | some v => exact Or.inr h.1

theorem PodCOption.Canonical.agrees {α : Type} {p : PodCOption α} (h : p.Canonical) :
    ∃ o, p.Agrees o := by
  rcases h with h | h
  · exact ⟨none, h⟩
  · exact ⟨some p.value, h, rfl⟩

/-- `Pack` reads what `Pod` sees. -/
theorem unpackFromSlice_eq_ok {value : Packed S} :
    unpackFromSlice S b = .ok value ↔ BaseAgrees S (podFromBytes S b) value := by
  cases S with
  | mint =>
    simp only [unpackFromSlice, unpackMint, bind_eq_ok, pure_eq_ok, unpackCOption_eq_ok,
      unpackBool_eq_ok, podFromBytes]
    constructor
    · rintro ⟨_, hmint, _, hinit, _, hfreeze, rfl⟩
      exact ⟨hmint, rfl, rfl, hinit, hfreeze⟩
    · intro h
      obtain ⟨mintAuthority, supply, decimals, initialized, freezeAuthority⟩ := value
      obtain ⟨hmint, rfl, rfl, hinit, hfreeze⟩ := h
      exact ⟨_, hmint, _, hinit, _, hfreeze, rfl⟩
  | account =>
    simp only [unpackFromSlice, unpackAccount, bind_eq_ok, pure_eq_ok, unpackCOption_eq_ok,
      unpackState_eq_ok, podFromBytes]
    constructor
    · rintro ⟨_, hdelegate, _, hstate, _, hnative, _, hclose, rfl⟩
      exact ⟨rfl, rfl, rfl, hdelegate, hstate, hnative, rfl, hclose⟩
    · intro h
      obtain ⟨mint, owner, amount, delegate, state, isNative, delegatedAmount, close⟩ := value
      obtain ⟨rfl, rfl, rfl, hdelegate, hstate, hnative, rfl, hclose⟩ := h
      exact ⟨_, hdelegate, _, hstate, _, hnative, _, hclose, rfl⟩

theorem boolByte_of_le {x : UInt8} (h : x ≤ 1) : ∃ y, x = boolByte y := by
  have hx : x.toNat ≤ 1 := UInt8.le_iff_toNat_le.mp h
  rcases Nat.le_one_iff_eq_zero_or_eq_one.mp hx with hzero | hone
  · exact ⟨false, UInt8.toNat_inj.mp hzero⟩
  · exact ⟨true, UInt8.toNat_inj.mp hone⟩

theorem stateByte_of_le {x : UInt8} (h : x ≤ 2) : ∃ y, x = stateByte y := by
  have hx : x.toNat ≤ 2 := UInt8.le_iff_toNat_le.mp h
  have hcases : x.toNat = 0 ∨ x.toNat = 1 ∨ x.toNat = 2 := by omega
  rcases hcases with hzero | hone | htwo
  · exact ⟨.uninitialized, UInt8.toNat_inj.mp hzero⟩
  · exact ⟨.initialized, UInt8.toNat_inj.mp hone⟩
  · exact ⟨.frozen, UInt8.toNat_inj.mp htwo⟩

/-- Canonical contents are the contents of some packed value. -/
theorem canonical_iff {p : Pod S} : Canonical S p ↔ ∃ value, BaseAgrees S p value := by
  cases S with
  | mint =>
    constructor
    · rintro ⟨hmint, hinit, hfreeze⟩
      obtain ⟨mintAuthority, hmint⟩ := hmint.agrees
      obtain ⟨initialized, hinit⟩ := boolByte_of_le hinit
      obtain ⟨freezeAuthority, hfreeze⟩ := hfreeze.agrees
      exact ⟨⟨mintAuthority, p.supply, p.decimals, initialized, freezeAuthority⟩,
        hmint, rfl, rfl, hinit, hfreeze⟩
    · rintro ⟨value, h⟩
      refine ⟨h.mintAuthority.canonical, ?_, h.freezeAuthority.canonical⟩
      rw [h.isInitialized]
      cases value.isInitialized <;> decide
  | account =>
    constructor
    · rintro ⟨hdelegate, hstate, hnative, hclose⟩
      obtain ⟨delegate, hdelegate⟩ := hdelegate.agrees
      obtain ⟨state, hstate⟩ := stateByte_of_le hstate
      obtain ⟨isNative, hnative⟩ := hnative.agrees
      obtain ⟨closeAuthority, hclose⟩ := hclose.agrees
      exact ⟨⟨p.mint, p.owner, p.amount, delegate, state, isNative, p.delegatedAmount,
        closeAuthority⟩, rfl, rfl, rfl, hdelegate, hstate, hnative, rfl, hclose⟩
    · rintro ⟨value, h⟩
      refine ⟨h.delegate.canonical, ?_, h.isNative.canonical, h.closeAuthority.canonical⟩
      rw [h.state]
      cases value.state <;> decide

/-- The packed view is the Pod view, where its contents agree with a value. -/
theorem unpackPacked_iff_unpack {p : PackedState S} : unpackPacked S b = .ok p ↔
    ∃ q, unpack S b = .ok q ∧ BaseAgrees S q.base p.base ∧ q.tlvData = p.tlvData := by
  rw [unpackPacked_eq_ok]
  simp only [unpackFromSlice_eq_ok, unpack_eq_ok]
  constructor
  · rintro ⟨s, hs, hbase, htlv⟩
    exact ⟨_, ⟨s, hs, rfl⟩, hbase, htlv⟩
  · rintro ⟨_, ⟨s, hs, rfl⟩, hbase, htlv⟩
    exact ⟨s, hs, hbase, htlv⟩

/-- The owned view, which splits a vector, and the borrowed one. -/
theorem unpackOwned_eq : unpackOwned S b = unpackPacked S b := by
  rw [unpackOwned, unpackPacked, unpackTlvData]
  cases checkMinLenAndNotMultisig b S.sizeOf with
  | error e => rfl
  | ok _ =>
    cases packUnpack S (b.take S.sizeOf) with
    | error e => rfl
    | ok base =>
      simp only [ok_bind]
      cases typeAndTlvIndices S (b.drop S.sizeOf) with
      | error e => rfl
      | ok found =>
        cases found with
        | none => rfl
        | some ij =>
          obtain ⟨i, j⟩ := ij
          simp only [ok_bind]
          cases AccountType.tryFrom (byte (b.drop S.sizeOf) i) with
          | error e => rfl
          | ok t =>
            simp only [ok_bind]
            cases checkAccountType S t <;> rfl

theorem unpackPackedMut_iff {p : PackedState S} : unpackPacked S b = .ok p ↔
    ∃ s, unpackPackedMut S b = .ok (p.base, s) ∧ s.tlvData = p.tlvData := by
  rw [unpackPacked_eq_ok]
  simp only [unpackPackedMut_eq_ok]
  constructor
  · rintro ⟨s, hs, hbase, htlv⟩
    exact ⟨s, ⟨hs, hbase⟩, htlv⟩
  · rintro ⟨s, ⟨hs, hbase⟩, htlv⟩
    exact ⟨s, hs, hbase, htlv⟩

/-! ### What each handler assigns -/

/-- The assignments of a successful instruction to the account at `k`, whose
base state stands in `b` and holds `a`. -/
inductive AccountAssigned (c : Call) (k : Pubkey) (b : Bytes) (a : PodAccount) :
    PodAccount → List AccountAssign → Prop
  -- handlers that write extensions only, and accounts that are not written
  | kept : AccountAssigned c k b a a []
  -- processor.rs:189-206, of another mint than the native one
  | initializeAccount {mint owner state} (hix : c.ix.isInitializeAccount = true)
      (hmint : mint ≠ nativeMint) :
      AccountAssigned c k b a ⟨mint, owner, 0, none, state, none, 0, none⟩
        [.mint mint, .owner owner, .closeAuthority .none, .delegate .none, .delegatedAmount 0,
          .state (stateByte state), .isNative .none, .amount 0]
  | initializeNativeAccount {owner state reserve amount} (hix : c.ix.isInitializeAccount = true) :
      AccountAssigned c k b a ⟨nativeMint, owner, amount, none, state, some reserve, 0, none⟩
        [.mint nativeMint, .owner owner, .closeAuthority .none, .delegate .none,
          .delegatedAmount 0, .state (stateByte state), .isNative (.some reserve), .amount amount]
  -- processor.rs:589-590
  | approve {delegate amount} (h : c.Approves k delegate amount) :
      AccountAssigned c k b a { a with delegate := some delegate, delegatedAmount := amount }
        [.delegate (.some delegate), .delegatedAmount amount]
  -- processor.rs:623-624
  | revoke (hix : c.ix = .revoke) :
      AccountAssigned c k b a { a with delegate := none, delegatedAmount := 0 }
        [.delegate .none, .delegatedAmount 0]
  -- processor.rs:675-685: `is_native` reads the bytes
  | setOwner {owner} (hix : c.ix = .setAuthority .accountOwner (some owner)) :
      AccountAssigned c k b a
        { a with
          owner := owner
          delegate := none
          delegatedAmount := 0
          closeAuthority := if a.isNative.isSome then none else a.closeAuthority }
        ([.owner owner, .delegate .none, .delegatedAmount 0] ++
          if (podAccount b).isNative.isSome then [.closeAuthority .none] else [])
  -- processor.rs:703
  | setCloseAuthority {authority} (hix : c.ix = .setAuthority .closeAccount authority) :
      AccountAssigned c k b a { a with closeAuthority := authority }
        [.closeAuthority (podPubkeyOption authority)]
  -- processor.rs:1241-1245
  | toggleFreezeAccount {freeze} (hix : c.ix = .toggleFreezeAccount freeze) :
      AccountAssigned c k b a { a with state := if freeze then .frozen else .initialized }
        [.state (stateByte (if freeze then .frozen else .initialized))]
  -- processor.rs:470, 475, 973, 1091, 1272, confidential_transfer/processor.rs:299, 423,
  -- transfer_fee/processor.rs:152, 255, 262
  | amount {amount} : AccountAssigned c k b a { a with amount := amount } [.amount amount]
  -- processor.rs:410-416, 1059-1065, before the amount is written
  | delegateDebit {remaining amount} (hix : c.ix.isTransferOrBurn = true) :
      AccountAssigned c k b a
        { a with
          delegatedAmount := remaining
          delegate := if remaining = 0 then none else a.delegate
          amount := amount }
        (.delegatedAmount remaining :: (if remaining = 0 then [.delegate .none] else []) ++
          [.amount amount])
  -- reallocate.rs:103-112: the value that `Pack` reads is packed again
  | reallocate {reserve assigns} (hix : ∃ types, c.ix = .reallocate types)
      (hread : ∀ value, unpackFromSlice .account b = .ok value →
        assigns = [.packBase { value with isNative := some reserve }])
      (hnative : a.isNative.isSome) :
      AccountAssigned c k b a { a with isNative := some reserve } assigns

/-- The assignments to the mint at `k`, which holds `m`. -/
inductive MintAssigned (c : Call) (k : Pubkey) (m : PodMint) : PodMint → List MintAssign → Prop
  | kept : MintAssigned c k m m []
  -- processor.rs:101-104
  | initializeMint {decimals authority freeze rent}
      (hix : c.ix = .initializeMint decimals authority freeze rent) (hsupply : m.supply = 0) :
      MintAssigned c k m ⟨some authority, 0, decimals, true, freeze⟩
        [.mintAuthority (.some authority), .decimals decimals, .isInitialized (boolByte true),
          .freezeAuthority (podPubkeyOption freeze)]
  -- processor.rs:1413-1420
  | createNativeMint (hkey : k = nativeMint) :
      MintAssigned c k m ⟨none, 0, 9, true, none⟩ [.pack ⟨none, 0, 9, true, none⟩]
  -- processor.rs:726
  | mintAuthority {authority} (hix : c.ix = .setAuthority .mintTokens authority) :
      MintAssigned c k m { m with mintAuthority := authority }
        [.mintAuthority (podPubkeyOption authority)]
  -- processor.rs:742
  | freezeAuthority {authority} (hix : c.ix = .setAuthority .freezeAccount authority) :
      MintAssigned c k m { m with freezeAuthority := authority }
        [.freezeAuthority (podPubkeyOption authority)]
  -- processor.rs:978, 1095
  | supply {supply} : MintAssigned c k m { m with supply := supply } [.supply supply]

section Assigned

variable {c : Call} {k : Pubkey} {a a' : PodAccount} {m m' : PodMint} {p : AccountView}

theorem AccountAgrees.pack (a : PodAccount) (p : AccountView) : AccountAgrees (p.pack a) a where
  mint := rfl
  owner := rfl
  amount := rfl
  delegate := FixedBytes.agrees_packed _ _
  state := rfl
  isNative := FixedBytes.agrees_packed _ _
  delegatedAmount := rfl
  closeAuthority := FixedBytes.agrees_packed _ _

theorem MintAgrees.pack (m : PodMint) (p : MintView) : MintAgrees (p.pack m) m where
  mintAuthority := FixedBytes.agrees_packed _ _
  supply := rfl
  decimals := rfl
  isInitialized := rfl
  freezeAuthority := FixedBytes.agrees_packed _ _

/-- Every handler's assignments leave the bytes of what the account holds after
it: its options are `PodCOption::none`, `PodCOption::some` or packed. -/
theorem AccountAssigned.agrees {assigns : List AccountAssign}
    (h : AccountAssigned c k b a a' assigns) (hb : AccountAgrees (podAccount b) a) :
    AccountAgrees ((podAccount b).assign assigns) a' := by
  cases h with
  | kept => exact hb
  | initializeAccount =>
    exact ⟨rfl, rfl, rfl, PodCOption.agrees_none, rfl, PodCOption.agrees_none, rfl,
      PodCOption.agrees_none⟩
  | initializeNativeAccount =>
    exact ⟨rfl, rfl, rfl, PodCOption.agrees_none, rfl, PodCOption.agrees_some _, rfl,
      PodCOption.agrees_none⟩
  | approve =>
    exact { hb with delegate := PodCOption.agrees_some _, delegatedAmount := rfl }
  | revoke => exact { hb with delegate := PodCOption.agrees_none, delegatedAmount := rfl }
  | @setOwner owner =>
    have hstep : AccountAgrees
        ((podAccount b).assign [.owner owner, .delegate .none, .delegatedAmount 0])
        { a with owner := owner, delegate := none, delegatedAmount := 0 } :=
      { hb with owner := rfl, delegate := PodCOption.agrees_none, delegatedAmount := rfl }
    rw [AccountView.assign_append]
    by_cases hnative : (podAccount b).isNative.isSome
    · rw [if_pos hnative, if_pos (hb.isNative.isSome_iff.mp hnative)]
      exact { hstep with closeAuthority := PodCOption.agrees_none }
    · rw [if_neg hnative, if_neg fun h => hnative (hb.isNative.isSome_iff.mpr h)]
      exact hstep
  | setCloseAuthority => exact { hb with closeAuthority := agrees_podPubkeyOption _ }
  | toggleFreezeAccount => exact { hb with state := rfl }
  | amount => exact { hb with amount := rfl }
  | @delegateDebit remaining amount =>
    rw [AccountView.assign_append]
    by_cases hzero : remaining = 0
    · rw [if_pos hzero, if_pos hzero]
      exact { hb with delegatedAmount := rfl, delegate := PodCOption.agrees_none, amount := rfl }
    · rw [if_neg hzero, if_neg hzero]
      exact { hb with delegatedAmount := rfl, amount := rfl }
  | reallocate _ hread =>
    -- `Pack` reads what the account holds, since the bytes agree with it
    rw [hread a (unpackFromSlice_eq_ok.mpr hb)]
    exact AccountAgrees.pack _ _

theorem MintAssigned.agrees {p : MintView} {assigns : List MintAssign}
    (h : MintAssigned c k m m' assigns) (hb : MintAgrees p m) :
    MintAgrees (p.assign assigns) m' := by
  cases h with
  | kept => exact hb
  | initializeMint _ hsupply =>
    exact ⟨PodCOption.agrees_some _, hb.supply.trans hsupply, rfl, rfl, agrees_podPubkeyOption _⟩
  | createNativeMint => exact MintAgrees.pack _ _
  | mintAuthority => exact { hb with mintAuthority := agrees_podPubkeyOption _ }
  | freezeAuthority => exact { hb with freezeAuthority := agrees_podPubkeyOption _ }
  | supply => exact { hb with supply := rfl }

end Assigned

/-! ### Every instruction assigns in one of these ways -/

end Bytes

section Cover

open Bytes

variable {b : Bytes} {c : Call} {k : Pubkey} {s s' : PodStateWithExtensions PodAccount}
  {m m' : PodStateWithExtensions PodMint} {lamports lamports' : UInt64}

theorem AccountUpdate.assigned (h : AccountUpdate c k lamports' s s')
    (hb : AccountAgrees (podAccount b) s.base) :
    ∃ assigns, AccountAssigned c k b s.base s'.base assigns := by
  cases h with
  | approve hix => exact ⟨_, .approve hix⟩
  | revoke _ _ _ hix => exact ⟨_, .revoke hix⟩
  | setOwner _ _ _ _ _ hix hnative =>
    subst hnative
    exact ⟨_, .setOwner hix⟩
  | setCloseAuthority _ _ _ hix => exact ⟨_, .setCloseAuthority hix⟩
  | setState hix => exact ⟨_, .toggleFreezeAccount hix⟩
  | memo | guard => exact ⟨_, .kept⟩
  | @reallocate len isNative _ _ hnone hsome hix =>
    by_cases hnative : s.base.isNative.isSome
    · obtain ⟨reserve, rfl, -⟩ := hsome hnative
      have hread : unpackFromSlice .account b = .ok s.base := unpackFromSlice_eq_ok.mpr hb
      refine ⟨[.packBase { s.base with isNative := some reserve }],
        .reallocate hix (fun value hvalue => ?_) hnative⟩
      rw [Except.ok.inj (hread.symm.trans hvalue)]
    · rw [Option.not_isSome_iff_eq_none] at hnative
      have hsame : { s.base with isNative := isNative } = s.base := by
        rw [hnone hnative, ← hnative]
      exact ⟨[], by rw [hsame]; exact .kept⟩

theorem ConfidentialStep.assigned (h : ConfidentialStep c s s') :
    ∃ assigns, AccountAssigned c k b s.base s'.base assigns := by
  cases h with
  | configure _ _ hbase =>
    rw [hbase]
    exact ⟨_, .kept⟩
  | update _ _ hs =>
    rw [hs]
    exact ⟨_, .amount⟩

theorem AccountStep.assigned (h : AccountStep c lamports lamports' s s') :
    ∃ assigns, AccountAssigned c k b s.base s'.base assigns := by
  cases h with
  | debit hix hauth _ _ _ hbase =>
    rw [hbase]
    cases hauth with
    | permanentDelegate | owner | burn => exact ⟨_, .amount⟩
    | delegate => exact ⟨_, .delegateDebit hix⟩
  | credit _ _ _ _ hbase =>
    rw [hbase]
    exact ⟨_, .amount⟩
  | move _ _ _ _ hbase | harvested _ hbase =>
    rw [hbase]
    exact ⟨_, .kept⟩

theorem AccountChange.assigned (h : AccountChange c k lamports lamports' s s')
    (hb : AccountAgrees (podAccount b) s.base) :
    ∃ assigns, AccountAssigned c k b s.base s'.base assigns := by
  cases h with
  | kept | withdrawExcess => exact ⟨_, .kept⟩
  | update _ h => exact h.assigned hb
  | sync => exact ⟨_, .amount⟩
  | confidential _ h => exact h.assigned
  | moved h => exact h.assigned

theorem NewAccount.assigned {tlv : Tlv} (h : NewAccount c k lamports tlv s m) (a : PodAccount) :
    ∃ assigns, AccountAssigned c k b a s.base assigns := by
  obtain ⟨base, len, tlv'⟩ := s
  obtain ⟨mint, owner, amount, delegate, state, isNative, delegatedAmount, closeAuthority⟩ := base
  obtain ⟨rfl, rfl⟩ := h.delegate
  obtain rfl := h.closeAuthority
  by_cases hmint : mint = nativeMint
  · obtain ⟨reserve, rfl, -⟩ := h.native hmint
    subst hmint
    exact ⟨_, .initializeNativeAccount h.instruction⟩
  · obtain ⟨rfl, rfl⟩ := h.nonNative hmint
    exact ⟨_, .initializeAccount h.instruction hmint⟩

theorem MintStep.assigned (h : MintStep c k m m') :
    ∃ assigns, MintAssigned c k m.base m'.base assigns := by
  have hbase := h.base
  revert hbase
  generalize m'.base = base
  intro hbase
  cases hbase with
  | kept => exact ⟨_, .kept⟩
  | mintAuthority hix => exact ⟨_, .mintAuthority hix⟩
  | freezeAuthority hix => exact ⟨_, .freezeAuthority hix⟩
  | supply => exact ⟨_, .supply⟩

end Cover

namespace Bytes

variable {S : BaseState} {b : Bytes}

/-! ### Buffers along a run -/

/-- The data a step starts from: an account handed over by the system program
has no base state, and its bytes are zeroes. -/
def dataBefore (r : AccountRecord) : AccountData :=
  if r.owner = programId then r.data else .zeroed r.data.len []

def bytesBefore (r r' : AccountRecord) (b : Bytes) : Bytes :=
  if r.owner = programId then b else List.replicate r'.data.len 0

def mintBefore : AccountData → PodMint
  | .mint s => s.base
  | _ => default

def accountBefore : AccountData → PodAccount
  | .account s => s.base
  | _ => default

/-- The buffer of an account of this program under a successful instruction: the
unpackers have checked that it is long enough for its base state, and the
handler has made its assignments. -/
def HandlerBytes (c : Call) (k : Pubkey) (r r' : AccountRecord) (b b' : Bytes) : Prop :=
  r'.owner = programId →
    match r'.data with
    | .zeroed _ _ => b'.take baseAccountLength = (bytesBefore r r' b).take baseAccountLength
    | .mint s' => mintLen ≤ (bytesBefore r r' b).length ∧ ∃ assigns,
        MintAssigned c k (mintBefore (dataBefore r)) s'.base assigns ∧
        podMint (b'.take mintLen) = (podMint ((bytesBefore r r' b).take mintLen)).assign assigns
    | .account s' => baseAccountLength ≤ (bytesBefore r r' b).length ∧ ∃ assigns,
        AccountAssigned c k ((bytesBefore r r' b).take baseAccountLength)
          (accountBefore (dataBefore r)) s'.base assigns ∧
        podAccount (b'.take baseAccountLength) =
          (podAccount ((bytesBefore r r' b).take baseAccountLength)).assign assigns
    | _ => True

/-- Other programs cannot write the accounts of this one, and hand over zeroes. -/
def ForeignBytes (r r' : AccountRecord) (b b' : Bytes) : Prop :=
  r'.owner = programId → b' = bytesBefore r r' b

/-- The buffer at `k` under an event. A failed instruction is rolled back. -/
def BytesStep (x : Externals) (s : Ledger × (Pubkey → Bytes)) (e : Event)
    (t : Ledger × (Pubkey → Bytes)) (k : Pubkey) : Prop :=
  match e with
  | .instruction env ix accounts =>
    match (Call.mk x env ix accounts s.1).process with
    | .ok _ => HandlerBytes ⟨x, env, ix, accounts, s.1⟩ k (s.1 k) (t.1 k) (s.2 k) (t.2 k)
    | .error _ => t.2 k = s.2 k
  | .external => ForeignBytes (s.1 k) (t.1 k) (s.2 k) (t.2 k)

/-- Runs of the ledger together with the buffers of its accounts. -/
abbrev BytesRun (x : Externals) : Ledger × (Pubkey → Bytes) → List Event →
    Ledger × (Pubkey → Bytes) → Prop :=
  Run fun s e t => Event.step x s.1 e t.1 ∧ ∀ k, BytesStep x s e t k

/-- The base state of `d` stands at the start of `b`. -/
def Stored (d : AccountData) (b : Bytes) : Prop :=
  match d with
  | .zeroed _ _ => ∀ y ∈ b.take baseAccountLength, y = 0
  | .mint s => MintAgrees (podMint (b.take mintLen)) s.base
  | .account s => AccountAgrees (podAccount (b.take baseAccountLength)) s.base
  | _ => True

theorem mintAgrees_zeroes : MintAgrees (podMint (List.replicate mintLen 0)) default :=
  (unpackFromSlice_eq_ok (S := .mint)).mp (by decide +kernel)

theorem accountAgrees_zeroes :
    AccountAgrees (podAccount (List.replicate baseAccountLength 0)) default :=
  (unpackFromSlice_eq_ok (S := .account)).mp (by decide +kernel)

/-- The first `n` bytes of a zeroed buffer. -/
theorem take_zeroes {n : ℕ} (h : ∀ y ∈ b.take baseAccountLength, y = 0)
    (hn : n ≤ baseAccountLength) (hlen : n ≤ b.length) : b.take n = List.replicate n 0 := by
  refine List.eq_replicate_iff.mpr ⟨List.length_take_of_le hlen, fun y hy => h y ?_⟩
  have htake : b.take n = (b.take baseAccountLength).take n := by
    rw [List.take_take, Nat.min_eq_left hn]
  rw [htake] at hy
  exact List.mem_of_mem_take hy

section Step

variable {c : Call} {k : Pubkey} {l' : Ledger} {r r' : AccountRecord} {b' : Bytes}

theorem dataBefore_of_owner (howner : r.owner = programId) : dataBefore r = r.data := if_pos howner

theorem dataBefore_of_other (howner : r.owner ≠ programId) :
    dataBefore r = .zeroed r.data.len [] := if_neg howner

theorem bytesBefore_of_owner (howner : r.owner = programId) : bytesBefore r r' b = b :=
  if_pos howner

theorem bytesBefore_of_other (howner : r.owner ≠ programId) :
    bytesBefore r r' b = List.replicate r'.data.len 0 := if_neg howner

theorem stored_before (r' : AccountRecord) (h : r.owner = programId → Stored r.data b) :
    Stored (dataBefore r) (bytesBefore r r' b) := by
  by_cases howner : r.owner = programId
  · rw [dataBefore_of_owner howner, bytesBefore_of_owner howner]
    exact h howner
  · rw [dataBefore_of_other howner, bytesBefore_of_other howner]
    intro y hy
    exact List.eq_of_mem_replicate (List.mem_of_mem_take hy)

/-- What a mint is made of: another mint, or zeroes. -/
theorem Stored.mintBefore_agrees {d : AccountData} (h : Stored d b) (hlen : mintLen ≤ b.length)
    (horigin : (∃ s, d = .mint s) ∨ ∃ len tlv, d = .zeroed len tlv) :
    MintAgrees (podMint (b.take mintLen)) (mintBefore d) := by
  rcases horigin with ⟨s, rfl⟩ | ⟨len, tlv, rfl⟩
  · exact h
  · rw [take_zeroes h (by decide) hlen]
    exact mintAgrees_zeroes

theorem Stored.accountBefore_agrees {d : AccountData} (h : Stored d b)
    (hlen : baseAccountLength ≤ b.length)
    (horigin : (∃ s, d = .account s) ∨ ∃ len tlv, d = .zeroed len tlv) :
    AccountAgrees (podAccount (b.take baseAccountLength)) (accountBefore d) := by
  rcases horigin with ⟨s, rfl⟩ | ⟨len, tlv, rfl⟩
  · exact h
  · rw [take_zeroes h le_rfl hlen]
    exact accountAgrees_zeroes

/-! ### Where the base states of an instruction come from -/

theorem mint_dataBefore {s' : PodStateWithExtensions PodMint} (hl : WellFormedLedger c.ledger)
    (h : c.process = .ok l') (howner' : (l' k).owner = programId) (hdata' : (l' k).data = .mint s') :
    (∃ s, dataBefore (c.ledger k) = .mint s) ∨
      ∃ len tlv, dataBefore (c.ledger k) = .zeroed len tlv := by
  rcases (Call.process_recordStep hl h k).mint_origin howner' hdata' with
    ⟨s, howner, hdata, -⟩ | ⟨howner, hnew⟩ | ⟨-, howner, -⟩
  · exact Or.inl ⟨s, (dataBefore_of_owner howner).trans hdata⟩
  · exact Or.inr ⟨_, _, (dataBefore_of_owner howner).trans hnew.data⟩
  · exact Or.inr ⟨_, _, dataBefore_of_other (howner ▸ programId_ne_systemProgram.symm)⟩

theorem account_dataBefore {s' : PodStateWithExtensions PodAccount}
    (hl : WellFormedLedger c.ledger) (h : c.process = .ok l') (hs' : AccountAt l' k s') :
    (∃ s, dataBefore (c.ledger k) = .account s) ∨
      ∃ len tlv, dataBefore (c.ledger k) = .zeroed len tlv := by
  rcases Call.process_account_origin hl h hs' with
    ⟨s, hs, -, -⟩ | ⟨len, tlv, mint, howner, hdata, -, -⟩
  · exact Or.inl ⟨s, (dataBefore_of_owner hs.owner).trans hs.data⟩
  · exact Or.inr ⟨_, _, (dataBefore_of_owner howner).trans hdata⟩

/-! ### One step -/

/-- After the assignments of a successful instruction the base state is stored. -/
theorem HandlerBytes.stored (hl : WellFormedLedger c.ledger) (hok : c.process = .ok l')
    (h : HandlerBytes c k (c.ledger k) (l' k) b b')
    (hb : (c.ledger k).owner = programId → Stored (c.ledger k).data b)
    (howner' : (l' k).owner = programId) : Stored (l' k).data b' := by
  have hbefore := stored_before (l' k) hb
  have hstep := h howner'
  cases hd : (l' k).data with
  | mint s' =>
    simp only [hd] at hstep
    obtain ⟨hlen, assigns, hassigned, hview⟩ := hstep
    have hagrees := hbefore.mintBefore_agrees hlen (mint_dataBefore hl hok howner' hd)
    show MintAgrees (podMint (b'.take mintLen)) s'.base
    rw [hview]
    exact hassigned.agrees hagrees
  | account s' =>
    simp only [hd] at hstep
    obtain ⟨hlen, assigns, hassigned, hview⟩ := hstep
    have hagrees := hbefore.accountBefore_agrees hlen (account_dataBefore hl hok ⟨howner', hd⟩)
    show AccountAgrees (podAccount (b'.take baseAccountLength)) s'.base
    rw [hview]
    exact hassigned.agrees hagrees
  | zeroed len tlv =>
    simp only [hd] at hstep
    intro y hy
    rw [hstep] at hy
    by_cases howner : (c.ledger k).owner = programId
    · obtain ⟨tlv₀, hdata⟩ := ((Call.process_recordStep hl hok k).zeroed_origin howner'
        hd).resolve_left (not_not.mpr howner)
      rw [dataBefore_of_owner howner, hdata] at hbefore
      exact hbefore y hy
    · rw [bytesBefore_of_other howner] at hy
      exact List.eq_of_mem_replicate (List.mem_of_mem_take hy)
  | multisig | proofContext | foreign => trivial

theorem ForeignBytes.stored (h : ForeignBytes r r' b b') (hforeign : ForeignRecord k r r')
    (hb : r.owner = programId → Stored r.data b) (howner' : r'.owner = programId) :
    Stored r'.data b' := by
  rw [h howner']
  by_cases howner : r.owner = programId
  · rw [bytesBefore_of_owner howner, (hforeign.keeps howner).2.1]
    exact hb howner
  · obtain ⟨-, len, hdata⟩ := hforeign.creates howner howner'
    rw [bytesBefore_of_other howner, hdata]
    exact fun y hy => List.eq_of_mem_replicate (List.mem_of_mem_take hy)

end Step

/-- All base states of the program's accounts are stored. -/
structure StoredLedger (s : Ledger × (Pubkey → Bytes)) : Prop where
  wellFormed : WellFormedLedger s.1
  stored : ∀ k, (s.1 k).owner = programId → Stored (s.1 k).data (s.2 k)

theorem BytesStep.storedLedger {x : Externals} {s t : Ledger × (Pubkey → Bytes)} {e : Event}
    (hs : StoredLedger s) (hstep : Event.step x s.1 e t.1) (h : ∀ k, BytesStep x s e t k) :
    StoredLedger t := by
  cases e with
  | external =>
    have hforeign : ForeignStep s.1 t.1 := hstep
    exact ⟨hforeign.wellFormed hs.wellFormed,
      fun k => ForeignBytes.stored (h k) (hforeign k) (hs.stored k)⟩
  | instruction env ix accounts =>
    have hledger : t.1 = execute x env ix accounts s.1 := hstep
    cases hok : (Call.mk x env ix accounts s.1).process with
    | ok l' =>
      have hl' : t.1 = l' := by
        rw [hledger, execute, show process x env ix accounts s.1 = .ok l' from hok]
      subst hl'
      refine ⟨Call.process_wellFormed hs.wellFormed hok, fun k howner' => ?_⟩
      have hk := h k
      simp only [BytesStep, hok] at hk
      exact hk.stored hs.wellFormed hok (hs.stored k) howner'
    | error fault =>
      have hsame : t.1 = s.1 := by
        rw [hledger, execute, show process x env ix accounts s.1 = .error fault from hok]
      refine ⟨hsame ▸ hs.wellFormed, fun k howner' => ?_⟩
      have hk := h k
      simp only [BytesStep, hok] at hk
      rw [hsame] at howner' ⊢
      rw [hk]
      exact hs.stored k howner'

/-- Before the program is first used, the buffers of its accounts are zeroes. -/
def ZeroedBuffers (l : Ledger) (B : Pubkey → Bytes) : Prop :=
  ∀ k, (l k).owner = programId → B k = List.replicate (l k).data.len 0

/-- Every buffer of the program, along every run. -/
theorem BytesRun.stored {x : Externals} {l₀ l : Ledger} {B₀ B : Pubkey → Bytes}
    {events : List Event} (hrun : BytesRun x (l₀, B₀) events (l, B)) (hgen : Genesis l₀)
    (hzero : ZeroedBuffers l₀ B₀) : StoredLedger (l, B) := by
  refine hrun.invariant_of_step StoredLedger
    (fun s e t hs hstep => BytesStep.storedLedger hs hstep.1 hstep.2)
    ⟨hgen.wellFormed, fun k howner => ?_⟩
  obtain ⟨len, hdata⟩ := hgen.zeroed k howner
  show Stored (l₀ k).data (B₀ k)
  rw [hzero k howner, hdata]
  exact fun y hy => List.eq_of_mem_replicate (List.mem_of_mem_take hy)

/-! ### Every run has buffers -/

theorem packed_of_agrees {α : Type} {p : PodCOption α} {o : Option α} (h : p.Agrees o) :
    packed o (.some p.value) = p := by
  obtain ⟨option, value⟩ := p
  cases o with
  | none =>
    obtain rfl : option = PodCOption.NONE := h
    rfl
  | some v =>
    obtain ⟨rfl, rfl⟩ : option = PodCOption.SOME ∧ value = v := h
    rfl

/-- Bytes with the view `p` of `a`: packed twice, to have the body that `p` has
under `None`. -/
def accountBytes (p : AccountView) (a : PodAccount) : Bytes :=
  packAccount a (packAccount { a with
    delegate := some p.delegate.value
    isNative := some p.isNative.value
    closeAuthority := some p.closeAuthority.value } (List.replicate baseAccountLength 0))

def mintBytes (p : MintView) (m : PodMint) : Bytes :=
  packMint m (packMint { m with
    mintAuthority := some p.mintAuthority.value
    freezeAuthority := some p.freezeAuthority.value } (List.replicate mintLen 0))

theorem length_accountBytes (p : AccountView) (a : PodAccount) :
    (accountBytes p a).length = baseAccountLength :=
  length_packAccount a (length_packAccount _ List.length_replicate)

theorem length_mintBytes (p : MintView) (m : PodMint) : (mintBytes p m).length = mintLen :=
  length_packMint m (length_packMint _ List.length_replicate)

theorem podAccount_accountBytes {p : AccountView} {a : PodAccount} (h : AccountAgrees p a) :
    podAccount (accountBytes p a) = p := by
  have hlen : (List.replicate baseAccountLength (0 : UInt8)).length = baseAccountLength :=
    List.length_replicate
  rw [accountBytes, podAccount_packAccount a (length_packAccount _ hlen),
    podAccount_packAccount _ hlen]
  have hdelegate := packed_of_agrees h.delegate
  have hnative := packed_of_agrees h.isNative
  have hclose := packed_of_agrees h.closeAuthority
  obtain ⟨mint, owner, amount, delegate, state, isNative, delegatedAmount, closeAuthority⟩ := p
  obtain ⟨rfl, rfl, rfl, -, rfl, -, rfl, -⟩ := h
  show AccountView.mk a.mint a.owner a.amount (packed a.delegate (.some delegate.value))
    (stateByte a.state) (packed a.isNative (.some isNative.value)) a.delegatedAmount
    (packed a.closeAuthority (.some closeAuthority.value)) = _
  rw [hdelegate, hnative, hclose]

theorem podMint_mintBytes {p : MintView} {m : PodMint} (h : MintAgrees p m) :
    podMint (mintBytes p m) = p := by
  have hlen : (List.replicate mintLen (0 : UInt8)).length = mintLen := List.length_replicate
  rw [mintBytes, podMint_packMint m (length_packMint _ hlen), podMint_packMint _ hlen]
  have hmint := packed_of_agrees h.mintAuthority
  have hfreeze := packed_of_agrees h.freezeAuthority
  obtain ⟨mintAuthority, supply, decimals, isInitialized, freezeAuthority⟩ := p
  obtain ⟨-, rfl, rfl, rfl, -⟩ := h
  show MintView.mk (packed m.mintAuthority (.some mintAuthority.value)) m.supply m.decimals
    (boolByte m.isInitialized) (packed m.freezeAuthority (.some freezeAuthority.value)) = _
  rw [hmint, hfreeze]

/-- The buffers below: of a base state nothing but its bytes. -/
def BareBuffer (d : AccountData) (b : Bytes) : Prop :=
  match d with
  | .zeroed len _ => b.length = len
  | .mint _ => b.length = mintLen
  | .account _ => b.length = baseAccountLength
  | _ => True

section Buffers

variable {c : Call} {k : Pubkey} {l' : Ledger} {r r' : AccountRecord}

theorem mint_assigned {s' : PodStateWithExtensions PodMint} (hl : WellFormedLedger c.ledger)
    (hok : c.process = .ok l') (howner' : (l' k).owner = programId)
    (hdata' : (l' k).data = .mint s')
    (hsize : (c.ledger k).owner = programId → BareBuffer (c.ledger k).data b) :
    mintLen ≤ (bytesBefore (c.ledger k) (l' k) b).length ∧
      ∃ assigns, MintAssigned c k (mintBefore (dataBefore (c.ledger k))) s'.base assigns := by
  rcases (Call.process_recordStep hl hok k).mint_origin howner' hdata' with
    ⟨s, howner, hdata, hstep⟩ | ⟨howner, hnew⟩ | ⟨hkey, howner, rfl⟩
  · have hlen := hsize howner
    rw [bytesBefore_of_owner howner, dataBefore_of_owner howner]
    rw [hdata] at hlen ⊢
    refine ⟨hlen.ge, ?_⟩
    rcases hstep with rfl | hstep
    · exact ⟨_, .kept⟩
    · exact hstep.assigned
  · have hlen := hsize howner
    rw [bytesBefore_of_owner howner, dataBefore_of_owner howner]
    rw [hnew.data] at hlen ⊢
    obtain ⟨decimals, authority, freeze, rent, hix, hbase⟩ := hnew.base
    refine ⟨hnew.len.trans hlen.ge, ?_⟩
    rw [hbase]
    exact ⟨_, .initializeMint hix rfl⟩
  · have hother : (c.ledger k).owner ≠ programId := howner ▸ programId_ne_systemProgram.symm
    rw [bytesBefore_of_other hother, List.length_replicate, hdata']
    exact ⟨le_rfl, _, .createNativeMint hkey⟩

theorem account_length {s' : PodStateWithExtensions PodAccount} (hl : WellFormedLedger c.ledger)
    (hok : c.process = .ok l') (hs' : AccountAt l' k s')
    (hsize : (c.ledger k).owner = programId → BareBuffer (c.ledger k).data b) :
    baseAccountLength ≤ (bytesBefore (c.ledger k) (l' k) b).length := by
  rcases Call.process_account_origin hl hok hs' with
    ⟨s, hs, -, -⟩ | ⟨len, tlv, mint, howner, -, -, hnew⟩
  · have hlen := hsize hs.owner
    rw [bytesBefore_of_owner hs.owner]
    rw [hs.data] at hlen
    exact hlen.ge
  · have hlen : b.length = s'.len := by
      have hsized := hsize howner
      rwa [hnew.data] at hsized
    have hbound := hnew.len.2
    rw [bytesBefore_of_owner howner, hlen]
    unfold baseAccountAndTypeLength baseAccountLength at *
    omega

theorem account_assigned {s' : PodStateWithExtensions PodAccount} (hl : WellFormedLedger c.ledger)
    (hok : c.process = .ok l') (hs' : AccountAt l' k s')
    (hb : AccountAgrees (podAccount b) (accountBefore (dataBefore (c.ledger k)))) :
    ∃ assigns, AccountAssigned c k b (accountBefore (dataBefore (c.ledger k))) s'.base
      assigns := by
  rcases Call.process_account_origin hl hok hs' with
    ⟨s, hs, -, hchange⟩ | ⟨len, tlv, mint, -, -, -, hnew⟩
  · rw [dataBefore_of_owner hs.owner, hs.data] at hb ⊢
    exact hchange.assigned hb
  · exact hnew.assigned _

/-- A successful instruction has a buffer to leave behind. -/
theorem HandlerBytes.exists_buffer (hl : WellFormedLedger c.ledger) (hok : c.process = .ok l')
    (hb : (c.ledger k).owner = programId → Stored (c.ledger k).data b)
    (hsize : (c.ledger k).owner = programId → BareBuffer (c.ledger k).data b) :
    ∃ b', HandlerBytes c k (c.ledger k) (l' k) b b' ∧
      ((l' k).owner = programId → BareBuffer (l' k).data b') := by
  by_cases howner' : (l' k).owner = programId
  swap
  · exact ⟨b, fun h => absurd h howner', fun h => absurd h howner'⟩
  have hbefore := stored_before (l' k) hb
  unfold HandlerBytes
  cases hd : (l' k).data with
  | mint s' =>
    obtain ⟨hlen, assigns, hassigned⟩ := mint_assigned hl hok howner' hd hsize
    have hagrees := hassigned.agrees
      (hbefore.mintBefore_agrees hlen (mint_dataBefore hl hok howner' hd))
    obtain ⟨p, hp⟩ :
      ∃ p, (podMint ((bytesBefore (c.ledger k) (l' k) b).take mintLen)).assign assigns = p :=
      ⟨_, rfl⟩
    rw [hp] at hagrees
    refine ⟨mintBytes p s'.base, fun _ => ⟨hlen, assigns, hassigned, ?_⟩,
      fun _ => length_mintBytes p s'.base⟩
    rw [List.take_of_length_le (length_mintBytes p s'.base).le, podMint_mintBytes hagrees, hp]
  | account s' =>
    have hlen := account_length hl hok ⟨howner', hd⟩ hsize
    have hstart := hbefore.accountBefore_agrees hlen (account_dataBefore hl hok ⟨howner', hd⟩)
    obtain ⟨assigns, hassigned⟩ := account_assigned hl hok ⟨howner', hd⟩ hstart
    have hagrees := hassigned.agrees hstart
    obtain ⟨p, hp⟩ :
      ∃ p, (podAccount ((bytesBefore (c.ledger k) (l' k) b).take baseAccountLength)).assign
        assigns = p := ⟨_, rfl⟩
    rw [hp] at hagrees
    refine ⟨accountBytes p s'.base, fun _ => ⟨hlen, assigns, hassigned, ?_⟩,
      fun _ => length_accountBytes p s'.base⟩
    rw [List.take_of_length_le (length_accountBytes p s'.base).le,
      podAccount_accountBytes hagrees, hp]
  | zeroed len tlv =>
    refine ⟨bytesBefore (c.ledger k) (l' k) b, fun _ => rfl, fun _ => ?_⟩
    by_cases howner : (c.ledger k).owner = programId
    · obtain ⟨tlv₀, hdata⟩ := ((Call.process_recordStep hl hok k).zeroed_origin howner'
        hd).resolve_left (not_not.mpr howner)
      have hlen := hsize howner
      rw [hdata] at hlen
      rw [bytesBefore_of_owner howner]
      exact hlen
    · rw [bytesBefore_of_other howner, hd]
      exact List.length_replicate
  | multisig | proofContext | foreign => exact ⟨b, fun _ => trivial, fun _ => trivial⟩

theorem ForeignBytes.sized (hforeign : ForeignRecord k r r')
    (hsize : r.owner = programId → BareBuffer r.data b) (howner' : r'.owner = programId) :
    BareBuffer r'.data (bytesBefore r r' b) := by
  by_cases howner : r.owner = programId
  · rw [bytesBefore_of_owner howner, (hforeign.keeps howner).2.1]
    exact hsize howner
  · obtain ⟨-, len, hdata⟩ := hforeign.creates howner howner'
    rw [bytesBefore_of_other howner, hdata]
    exact List.length_replicate

end Buffers

/-- A ledger with such buffers. -/
structure Buffered (l : Ledger) (s : Ledger × (Pubkey → Bytes)) : Prop where
  ledger : s.1 = l
  stored : StoredLedger s
  sized : ∀ k, (s.1 k).owner = programId → BareBuffer (s.1 k).data (s.2 k)

theorem Buffered.of_step {x : Externals} {l l' : Ledger} {e : Event}
    {s : Ledger × (Pubkey → Bytes)} (hs : Buffered l s) (hstep : Event.step x l e l') :
    ∃ s', (Event.step x s.1 e s'.1 ∧ ∀ k, BytesStep x s e s' k) ∧ Buffered l' s' := by
  obtain ⟨t, B⟩ := s
  obtain ⟨rfl, hstored, hsized⟩ := hs
  suffices hbuffer : ∃ B', ∀ k, BytesStep x (t, B) e (l', B') k ∧
      ((l' k).owner = programId → BareBuffer (l' k).data (B' k)) by
    obtain ⟨B', hB'⟩ := hbuffer
    exact ⟨(l', B'), ⟨hstep, fun k => (hB' k).1⟩, rfl,
      BytesStep.storedLedger hstored hstep fun k => (hB' k).1, fun k => (hB' k).2⟩
  cases e with
  | external =>
    have hforeign : ForeignStep t l' := hstep
    exact ⟨fun k => bytesBefore (t k) (l' k) (B k), fun k =>
      ⟨fun _ => rfl, ForeignBytes.sized (hforeign k) (hsized k)⟩⟩
  | instruction env ix accounts =>
    have hledger : l' = execute x env ix accounts t := hstep
    cases hok : (Call.mk x env ix accounts t).process with
    | ok l₁ =>
      have hl₁ : l' = l₁ := by
        rw [hledger, execute, show process x env ix accounts t = .ok l₁ from hok]
      subst hl₁
      have hexists := fun k => HandlerBytes.exists_buffer (k := k) hstored.wellFormed hok
        (hstored.stored k) (hsized k)
      choose B' hB' using hexists
      refine ⟨B', fun k => ⟨?_, (hB' k).2⟩⟩
      simp only [BytesStep, hok]
      exact (hB' k).1
    | error fault =>
      have hsame : l' = t := by
        rw [hledger, execute, show process x env ix accounts t = .error fault from hok]
      refine ⟨B, fun k => ⟨?_, hsame ▸ hsized k⟩⟩
      simp only [BytesStep, hok]

/-- Every run of the ledger is the run of some buffers. -/
theorem LedgerRun.bytesRun {x : Externals} {l₀ l : Ledger} {events : List Event}
    (hrun : LedgerRun x l₀ events l) (hgen : Genesis l₀) :
    ∃ B, BytesRun x (l₀, fun k => List.replicate (l₀ k).data.len 0) events (l, B) ∧
      ∀ k, (l k).owner = programId → BareBuffer (l k).data (B k) := by
  have hstart : Buffered l₀ (l₀, fun k => List.replicate (l₀ k).data.len 0) := by
    refine ⟨rfl, ⟨hgen.wellFormed, fun k howner => ?_⟩, fun k howner => ?_⟩
    all_goals
      obtain ⟨len, hdata⟩ := hgen.zeroed k howner
      simp only [hdata]
    · exact fun y hy => List.eq_of_mem_replicate (List.mem_of_mem_take hy)
    · exact List.length_replicate
  have hsimulated : ∃ s, BytesRun x (l₀, fun k => List.replicate (l₀ k).data.len 0) events s ∧
      Buffered l s := by
    refine hrun.simulate Buffered (fun l e l' s hs hstep => ?_) hstart
    exact hs.of_step hstep
  obtain ⟨⟨t, B⟩, hbytes, rfl, -, hsized⟩ := hsimulated
  exact ⟨B, hbytes, hsized⟩

/-! ### The two views -/

/-- Once a base state is stored, its two views are the same. -/
theorem views_agree {value : Packed S} {q : PodState S} (hq : unpack S b = .ok q)
    (h : BaseAgrees S (podFromBytes S (b.take S.sizeOf)) value) :
    Canonical S q.base ∧ unpackPacked S b = .ok ⟨value, q.tlvData⟩ := by
  obtain ⟨s, hs, rfl⟩ := unpack_eq_ok.mp hq
  obtain ⟨hshaped, rfl, _⟩ := unpackMut_eq_ok.mp hs
  rw [take_data hshaped] at h
  exact ⟨canonical_iff.mpr ⟨value, h⟩, unpackPacked_iff_unpack.mpr ⟨_, hq, h, rfl⟩⟩

/-- The four unpackers agree on every buffer whose contents are canonical; every
handler's assignments lead from canonical contents to canonical contents; and
the buffers of all runs have them. -/
theorem pack_pod_agree :
    (∀ S b p, unpackPacked S b = .ok p →
      unpackOwned S b = .ok p ∧
      (∃ s, unpackPackedMut S b = .ok (p.base, s) ∧ s.tlvData = p.tlvData) ∧
      ∃ q, unpack S b = .ok q ∧ BaseAgrees S q.base p.base ∧ q.tlvData = p.tlvData) ∧
    (∀ S b q, unpack S b = .ok q → Canonical S q.base →
      ∃ p, unpackPacked S b = .ok p ∧ BaseAgrees S q.base p.base ∧ q.tlvData = p.tlvData) ∧
    (∀ c k b a a' assigns, AccountAssigned c k b a a' assigns → AccountAgrees (podAccount b) a →
      Canonical .account ((podAccount b).assign assigns) ∧
        AccountAgrees ((podAccount b).assign assigns) a') ∧
    (∀ c k m m' assigns (p : MintView), MintAssigned c k m m' assigns → MintAgrees p m →
      Canonical .mint (p.assign assigns) ∧ MintAgrees (p.assign assigns) m') ∧
    ∀ (x : Externals) l₀ B₀ events l B, BytesRun x (l₀, B₀) events (l, B) → Genesis l₀ →
      ZeroedBuffers l₀ B₀ →
      ∀ k, (l k).owner = programId →
        (∀ s, (l k).data = .mint s → ∀ q, unpack .mint (B k) = .ok q →
          Canonical .mint q.base ∧ unpackPacked .mint (B k) = .ok ⟨s.base, q.tlvData⟩) ∧
        ∀ s, (l k).data = .account s → ∀ q, unpack .account (B k) = .ok q →
          Canonical .account q.base ∧ unpackPacked .account (B k) = .ok ⟨s.base, q.tlvData⟩ := by
  refine ⟨fun S b p hp => ?_, fun S b q hq hcanonical => ?_, fun c k b a a' assigns h hb => ?_,
    fun c k m m' assigns p h hp => ?_, ?_⟩
  · exact ⟨unpackOwned_eq.trans hp, unpackPackedMut_iff.mp hp, unpackPacked_iff_unpack.mp hp⟩
  · obtain ⟨value, hvalue⟩ := canonical_iff.mp hcanonical
    exact ⟨⟨value, q.tlvData⟩, unpackPacked_iff_unpack.mpr ⟨q, hq, hvalue, rfl⟩, hvalue, rfl⟩
  · exact ⟨canonical_iff.mpr ⟨a', h.agrees hb⟩, h.agrees hb⟩
  · exact ⟨canonical_iff.mpr ⟨m', h.agrees hp⟩, h.agrees hp⟩
  · intro x l₀ B₀ events l B hrun hgen hzero k howner
    have hstored := (BytesRun.stored hrun hgen hzero).stored k howner
    refine ⟨fun s hdata q hq => views_agree hq ?_, fun s hdata q hq => views_agree hq ?_⟩
    · rw [hdata] at hstored
      exact hstored
    · rw [hdata] at hstored
      exact hstored

/-- A buffer of just a base state. -/
theorem unpack_bare (hlen : b.length = S.sizeOf) (hinit : byte b S.initByte ≠ 0) :
    unpack S b = .ok ⟨podFromBytes S b, []⟩ := by
  refine unpack_eq_ok.mpr ⟨⟨b, [], [], []⟩, unpackMut_eq_ok.mpr ⟨⟨hlen, Or.inl ⟨rfl, rfl, rfl⟩⟩,
    PodStateMut.data_bare b, ?_, hinit⟩, rfl⟩
  rw [hlen]
  cases S <;> decide

/-- An account with ten tokens, three of them delegated, and a close authority. -/
def sharedCalls : List (Env × TokenInstruction × List AccountInfo) :=
  fundedCalls ++
    [(.plain 0, .approve 3 none, [⟨⟨2⟩, false⟩, ⟨⟨8⟩, false⟩, ⟨⟨7⟩, true⟩]),
     (.plain 0, .setAuthority .closeAccount (some ⟨9⟩), [⟨⟨2⟩, false⟩, ⟨⟨7⟩, true⟩])]

def sharedLedger : Ledger := replay .refusing sharedCalls blankLedger

def sharedAccount : PodAccount :=
  { (fundedAccount 10 3 (some ⟨8⟩)).base with closeAuthority := some ⟨9⟩ }

/-- Its run with buffers, and the account there in both views. -/
theorem pack_pod_agree_shared :
    ∃ B, BytesRun .refusing (blankLedger, fun k => List.replicate (blankLedger k).data.len 0)
        (sharedCalls.map Event.ofCall) (sharedLedger, B) ∧
      ∃ q, unpack .account (B ⟨2⟩) = .ok q ∧ Canonical .account q.base ∧
        unpackOwned .account (B ⟨2⟩) = .ok ⟨sharedAccount, q.tlvData⟩ := by
  have hs : AccountAt sharedLedger ⟨2⟩ ⟨sharedAccount, 165, []⟩ :=
    ⟨by decide +kernel, by decide +kernel⟩
  obtain ⟨B, hrun, hsized⟩ := LedgerRun.bytesRun
    (ledgerRun_replay .refusing sharedCalls blankLedger) blankLedger_genesis
  have hzero : ZeroedBuffers blankLedger fun k => List.replicate (blankLedger k).data.len 0 :=
    fun _ _ => rfl
  have hlen : (B ⟨2⟩).length = baseAccountLength := by
    have h := hsized ⟨2⟩ hs.owner
    have hdata : (replay .refusing sharedCalls blankLedger ⟨2⟩).data = _ := hs.data
    rwa [hdata] at h
  have hstored : AccountAgrees (podAccount ((B ⟨2⟩).take baseAccountLength)) sharedAccount := by
    have h := (BytesRun.stored hrun blankLedger_genesis hzero).stored ⟨2⟩ hs.owner
    have hdata : (replay .refusing sharedCalls blankLedger ⟨2⟩).data = _ := hs.data
    simp only [hdata] at h
    exact h
  rw [List.take_of_length_le hlen.le] at hstored
  have hinit : byte (B ⟨2⟩) BaseState.account.initByte ≠ 0 := by
    have hstate : byte (B ⟨2⟩) 108 = stateByte .initialized := hstored.state
    rw [BaseState.initByte, hstate]
    decide
  have hq := unpack_bare (S := .account) hlen hinit
  obtain ⟨howned, hpod, -, -, hlive⟩ := pack_pod_agree
  obtain ⟨hcanonical, hpacked⟩ := (hlive .refusing _ _ _ _ _ hrun blankLedger_genesis hzero ⟨2⟩
    hs.owner).2 _ hs.data _ hq
  obtain ⟨p, hp, -, -⟩ := hpod .account _ _ hq hcanonical
  refine ⟨B, hrun, _, hq, hcanonical, ?_⟩
  rw [(howned .account _ p hp).1, ← hp, hpacked]

end Bytes
end BarkToken
