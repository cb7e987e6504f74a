import BarkToken.Bytes.Views
import Mathlib.Logic.Relation

/-!
# Mints, accounts and multisigs share one byte space (extension/mod.rs:257-325, 742-1017)

No buffer is a mint and an account at once, and none of the writes through a
view turns one kind into the other. Byte 108 is the state of an account and lies
in the zero padding of an extended mint; byte 165 names the kind.
-/

namespace BarkToken
open Fallible Buffered

namespace Bytes

/-- `b` unpacks as an initialised `S`. -/
def IsKind (S : BaseState) (b : Bytes) : Prop := ∃ p, unpack S b = .ok p

/-- What `b` never is at once. -/
structure KindsDisjoint (b : Bytes) : Prop where
  notBoth : ¬ (IsKind .mint b ∧ IsKind .account b)
  multisig : b.length = multisigLen → ∀ S, ¬ IsKind S b
  used : ∀ S T, IsKind S b → ∀ s, unpackUninitialized T b ≠ .ok s

/-- One write through a mutable view. The base state may change at will, as long
as what is initialised stays so. -/
inductive ViewWrite (S : BaseState) : PodStateMut → PodStateMut → Prop
  | base {s : PodStateMut} (base : Bytes) (hlen : base.length = s.base.length)
      (hinit : isInitialized S (podFromBytes S s.base) → isInitialized S (podFromBytes S base)) :
      ViewWrite S s { s with base }
  | initExtension {s s' : PodStateMut} (v : ExtensionType) (default extension : Bytes)
      (overwrite : Bool)
      (h : (s.onTlv do
        let slice ← Bytes.initExtension S v default overwrite
        slice.assign extension) = .ok s') :
      ViewWrite S s s'
  | initAccountType {s s' : PodStateMut} (h : initAccountType S s = .ok s') : ViewWrite S s s'

/-- What the handlers make of the account data `b`. -/
inductive Produces (S : BaseState) (b : Bytes) : Bytes → Prop
  | writes {s s' : PodStateMut}
      (hs : unpackMut S b = .ok s ∨ unpackUninitialized S b = .ok s)
      (h : Relation.ReflTransGen (ViewWrite S) s s') : Produces S b s'.data
  | setAccountType {b' : Bytes} (h : setAccountType S b = .ok b') : Produces S b b'
  | allocAndSerialize (v : ExtensionType) (default extension : Bytes) (overwrite : Bool)
      {b' : Bytes} (h : allocAndSerialize S v default extension overwrite b = .ok b') :
      Produces S b b'
  | allocAndSerializeVariableLen (v : ExtensionType) (extension : VariableLenPack)
      (overwrite : Bool) {b' : Bytes}
      (h : allocAndSerializeVariableLen S v extension overwrite b = .ok b') : Produces S b b'
  | reallocate (minimumBalance : ℕ → UInt64) (types : List ExtensionType) {b' : Bytes}
      (hS : S = .account) (h : reallocateData minimumBalance types b = .ok b') : Produces S b b'

/-! ### The bytes that decide -/

variable {S T : BaseState} {b b' : Bytes} {s s' : PodStateMut} {t : AccountType}

theorem isKind_iff : IsKind S b ↔ ∃ s, unpackMut S b = .ok s := by
  constructor
  · rintro ⟨p, hp⟩
    obtain ⟨s, hs, _⟩ := unpack_eq_ok.mp hp
    exact ⟨s, hs⟩
  · rintro ⟨s, hs⟩
    exact ⟨_, unpack_eq_ok.mpr ⟨s, hs, rfl⟩⟩

/-- An account type and zero padding where `S` puts them. -/
structure Tagged (S : BaseState) (x : UInt8) (b : Bytes) : Prop where
  long : baseAccountAndTypeLength < b.length
  padding : ∀ i, S.sizeOf ≤ i → i < baseAccountLength → byte b i = 0
  accountType : byte b baseAccountLength = x

theorem tagged_data {base tlv : Bytes} (hbase : base.length = S.sizeOf) (x : UInt8)
    (htlv : tlv ≠ []) : Tagged S x (base ++ (zeroPadding S ++ x :: tlv)) := by
  have hsize := S.sizeOf_le
  have hpos := List.length_pos_of_ne_nil htlv
  have hpad := length_zeroPadding S
  refine ⟨?_, ?_, ?_⟩
  · simp only [List.length_append, List.length_cons]
    simp only [baseAccountLength, baseAccountAndTypeLength] at *
    omega
  · intro i hlo hhi
    rw [byte_append_right (by omega), byte_append_left (by omega), zeroPadding, byte_replicate]
  · rw [byte_append_right (by omega), hbase]
    exact byte_accountType S x tlv

theorem Shaped.byte_base (h : s.Shaped S t) {i : ℕ} (hi : i < S.sizeOf) :
    byte s.data i = byte s.base i := by
  rw [← take_data h, byte_take hi]

theorem Shaped.tagged (h : s.Shaped S t) :
    s.data.length = S.sizeOf ∨ Tagged S t.toU8 s.data := by
  obtain ⟨base, padding, accountType, tlvData⟩ := s
  obtain ⟨hbase, ⟨rfl, rfl, rfl⟩ | ⟨rfl, rfl, htlv⟩⟩ := h
  · left
    rw [PodStateMut.data_bare]
    exact hbase
  · right
    rw [PodStateMut.data_extended]
    exact tagged_data hbase _ htlv

theorem IsKind.initialized (h : IsKind S b) : byte b S.initByte ≠ 0 := by
  obtain ⟨s, hs⟩ := isKind_iff.mp h
  obtain ⟨hshaped, rfl, _, hinit⟩ := unpackMut_eq_ok.mp hs
  rw [Shaped.byte_base hshaped S.initByte_lt]
  exact hinit

theorem IsKind.tagged (h : IsKind S b) :
    b.length = S.sizeOf ∨ Tagged S S.accountType.toU8 b := by
  obtain ⟨s, hs⟩ := isKind_iff.mp h
  obtain ⟨hshaped, rfl, _⟩ := unpackMut_eq_ok.mp hs
  exact Shaped.tagged hshaped

/-- Byte 108: zero in a mint that is long enough to have one, not in an account. -/
theorem not_both : ¬ (IsKind .mint b ∧ IsKind .account b) := by
  rintro ⟨hmint, haccount⟩
  have hstate : byte b 108 ≠ 0 := haccount.initialized
  rcases hmint.tagged with hlen | htag
  · have hlong : baseAccountLength ≤ b.length := by
      rcases haccount.tagged with h | h
      · exact h.ge
      · exact (Nat.le_succ _).trans h.long.le
    rw [hlen] at hlong
    exact absurd hlong (by decide)
  · exact hstate (htag.padding 108 (by decide) (by decide))

theorem kind_unique (hS : IsKind S b) (hT : IsKind T b) : S = T := by
  cases S <;> cases T
  case mint.mint => rfl
  case account.account => rfl
  case mint.account => exact absurd ⟨hS, hT⟩ not_both
  case account.mint => exact absurd ⟨hT, hS⟩ not_both

theorem used (hS : IsKind S b) (s : PodStateMut) : unpackUninitialized T b ≠ .ok s := by
  intro hs
  obtain ⟨hshaped, rfl, _, hinit, _⟩ := unpackUninitialized_eq_ok.mp hs
  rw [← Shaped.byte_base hshaped T.initByte_lt] at hinit
  rcases Shaped.tagged hshaped with hbare | htag
  · -- a bare base state: only its own kind has the length, and that kind is not initialised
    rcases hS.tagged with hlen | htag
    · have hsame : S = T := by
        cases S <;> cases T <;> first | rfl | exact absurd (hlen.symm.trans hbare) (by decide)
      subst hsame
      exact hS.initialized hinit
    · have hlong := htag.long
      rw [hbare] at hlong
      exact absurd hlong (by cases T <;> decide)
  · rcases hS.tagged with hlen | htag'
    · have hlong := htag.long
      rw [hlen] at hlong
      exact absurd hlong (by cases S <;> decide)
    · have htype := htag.accountType.symm.trans htag'.accountType
      exact absurd (AccountType.toU8_inj.mp htype) (by cases S <;> decide)

theorem kindsDisjoint (b : Bytes) : KindsDisjoint b where
  notBoth := not_both
  multisig := by
    intro hlen S h
    obtain ⟨s, hs⟩ := isKind_iff.mp h
    exact (unpackMut_eq_ok.mp hs).2.2.1 hlen
  used _ _ h := used h

/-! ### Writes through a view -/

theorem ViewWrite.keeps (h : ViewWrite S s s') (hs : Open S s) : Open S s' := by
  cases h with
  | base base hlen hinit =>
    obtain ⟨hshaped, hmultisig, hset⟩ := open_iff.mp hs
    refine open_iff.mpr ⟨⟨hlen.trans hshaped.base, hshaped.behind⟩, ?_, ?_⟩
    · rw [length_data] at hmultisig ⊢
      rw [hlen]
      exact hmultisig
    · exact (isInitialized_iff S base).mp (hinit ((isInitialized_iff S s.base).mpr hset))
  | initExtension v default extension overwrite h =>
    exact hs.onTlv (.bind (initExtension_keeps S v default overwrite) fun x =>
      assign_keeps x extension) h
  | initAccountType h =>
    obtain ⟨hshaped, _, _⟩ := open_iff.mp hs
    simp only [Bytes.initAccountType, bind_eq_ok] at h
    obtain ⟨first, _, h⟩ := h
    split at h
    case isTrue =>
      cases h
      exact hs
    case isFalse hne =>
      -- the account type is there already
      have hsame : S.accountType.toU8 :: s.accountType.tail = s.accountType := by
        rcases hshaped.behind with ⟨_, htype, _⟩ | ⟨_, htype, _⟩
        · exact absurd htype hne
        · rw [htype]
          rfl
      rw [hsame] at h
      cases first with
      | none =>
        cases h
        exact hs
      | some t =>
        simp only [ensure_bind_eq_ok, pure_eq_ok] at h
        rw [← h.2]
        exact hs

theorem ViewWrite.keeps_all (h : Relation.ReflTransGen (ViewWrite S) s s') (hs : Open S s) :
    Open S s' := by
  induction h with
  | refl => exact hs
  | tail _ hwrite ih => exact hwrite.keeps ih

theorem Open.isKind (h : Open S s) : IsKind S s.data := isKind_iff.mpr ⟨s, h⟩

/-! ### Reallocations -/

theorem isKind_of_write {α : Type} {call : TlvM α} (hs : unpackMut S b = .ok s)
    (hkeeps : Keeps List.length call) (hcall : s.onTlv call = .ok s') : IsKind S s'.data :=
  ((unpackMut_open hs).onTlv hkeeps hcall).isKind

theorem allocAndSerialize_isKind {v : ExtensionType} {default extension : Bytes}
    {overwrite : Bool} (h : allocAndSerialize S v default extension overwrite b = .ok b') :
    IsKind S b ∧ IsKind S b' := by
  simp only [allocAndSerialize, bind_eq_ok, pure_eq_ok] at h
  obtain ⟨p, hp, _, _, _, _, _, _, s, hs, s', hs', rfl⟩ := h
  refine ⟨⟨p, hp⟩, isKind_of_write hs ?_ hs'⟩
  exact .bind (initExtension_keeps S v default overwrite) fun x => assign_keeps x extension

theorem allocAndSerializeVariableLen_isKind {v : ExtensionType} {extension : VariableLenPack}
    {overwrite : Bool}
    (h : allocAndSerializeVariableLen S v extension overwrite b = .ok b') :
    IsKind S b ∧ IsKind S b' := by
  simp only [allocAndSerializeVariableLen, bind_eq_ok, exists_unit] at h
  obtain ⟨p, hp, n, hn, _, h⟩ := h
  obtain ⟨packedLen, _, hn⟩ := bind_eq_ok.mp hn
  have hinit := initVariableLenExtension_keeps S v extension false
  have hrealloc := reallocVariableLenExtension_keeps v extension
  refine ⟨⟨p, hp⟩, ?_⟩
  split at h
  case isTrue hgrow =>
    obtain ⟨buffer, _, h⟩ := bind_eq_ok.mp h
    split at h
    case isTrue =>
      simp only [bind_eq_ok, pure_eq_ok] at h
      obtain ⟨s, hs, s', hs', rfl⟩ := h
      exact isKind_of_write hs hrealloc hs'
    case isFalse =>
      simp only [bind_eq_ok, pure_eq_ok] at h
      obtain ⟨_, _, s, hs, s', hs', rfl⟩ := h
      exact isKind_of_write hs hinit hs'
  case isFalse =>
    obtain ⟨s, hs, h⟩ := bind_eq_ok.mp h
    obtain ⟨s', hs', h⟩ := bind_eq_ok.mp h
    have hopen : Open S s' := by
      split at hs'
      · exact (unpackMut_open hs).onTlv hrealloc hs'
      · exact (unpackMut_open hs).onTlv hinit hs'
    split at h
    case isFalse =>
      cases h
      exact hopen.isKind
    case isTrue hremoved =>
      obtain ⟨hlong, hmultisig⟩ := newAccountLen_bounds hn
      have hlen : s'.data.length = b.length := by
        rw [← (unpackMut_eq_ok.mp hs).2.1]
        split at hs'
        · exact onTlv_length_data hrealloc hs'
        · exact onTlv_length_data hinit hs'
      obtain ⟨k, rfl⟩ := Nat.exists_eq_add_of_lt hlong
      obtain ⟨hdata, hcut⟩ := hopen.shrink (k := k + 1) (Nat.succ_pos k) (by omega) hmultisig
      rw [reallocAccount_eq_ok h, Nat.sub_eq_zero_of_le (by omega), List.replicate_zero,
        List.append_nil]
      exact hdata ▸ hcut.isKind

/-- A buffer that passed `set_account_type::<Account>` is an account. -/
theorem setAccountType_isKind (h : setAccountType .account b = .ok b') : IsKind .account b' := by
  obtain ⟨base, x, tlv, hbase, htlv, hmultisig, hstate, hx, rfl, rfl⟩ := setAccountType_eq_ok h
  have hopen : Open .account ⟨base, zeroPadding .account, [AccountType.account.toU8], tlv⟩ := by
    refine open_iff.mpr ⟨⟨hbase, Or.inr ⟨rfl, rfl, htlv⟩⟩, ?_, hstate rfl⟩
    rw [PodStateMut.data_extended]
    simp only [List.length_append, List.length_cons] at hmultisig ⊢
    exact hmultisig
  have hkind := hopen.isKind
  rw [PodStateMut.data_extended] at hkind
  exact hkind

/-- `set_account_type` passes no buffer of the other kind, and keeps its own. -/
theorem setAccountType_keeps (h : setAccountType S b = .ok b') (hT : IsKind T b) :
    IsKind T b' := by
  obtain ⟨base, x, tlv, hbase, htlv, hmultisig, hstate, hx, rfl, rfl⟩ := setAccountType_eq_ok h
  have hinit := hT.initialized
  have htag := tagged_data hbase x htlv
  cases S <;> cases T
  case mint.account => exact absurd (htag.padding 108 (by decide) (by decide)) hinit
  case account.mint =>
    rcases hT.tagged with hlen | htag'
    · exact absurd (hlen ▸ htag.long) (by decide)
    · have hzero := htag'.padding 108 (by decide) (by decide)
      rw [byte_append_left (by rw [hbase]; decide)] at hzero
      exact absurd hzero (hstate rfl)
  case account.account => exact setAccountType_isKind h
  case mint.mint =>
    rw [byte_append_left (by rw [hbase]; decide)] at hinit
    rw [← PodStateMut.data_extended] at hmultisig ⊢
    refine Open.isKind (open_iff.mpr ⟨⟨hbase, Or.inr ⟨rfl, rfl, htlv⟩⟩, ?_, hinit⟩)
    rw [length_data] at hmultisig ⊢
    exact hmultisig

theorem reallocateData_isKind {minimumBalance : ℕ → UInt64} {types : List ExtensionType}
    (h : reallocateData minimumBalance types b = .ok b') :
    IsKind .account b ∧ IsKind .account b' := by
  simp only [reallocateData, bind_eq_ok, exists_unit] at h
  obtain ⟨p, hp, _, _, _, needed, _, h⟩ := h
  obtain ⟨s, hs, _⟩ := unpackPacked_eq_ok.mp hp
  refine ⟨isKind_iff.mpr ⟨s, hs⟩, ?_⟩
  split at h
  case isTrue =>
    cases h
    exact isKind_iff.mpr ⟨s, hs⟩
  case isFalse =>
    simp only [bind_eq_ok] at h
    obtain ⟨buffer, _, b'', hset, h⟩ := h
    split at h
    case isFalse =>
      cases h
      exact setAccountType_isKind hset
    case isTrue =>
      simp only [bind_eq_ok, Prod.exists, pure_eq_ok] at h
      obtain ⟨base, s', hs', rfl⟩ := h
      obtain ⟨hmut, hbase⟩ := unpackPackedMut_eq_ok.mp hs'
      obtain ⟨hshaped, hmultisig, hinit⟩ := open_iff.mp (unpackMut_open hmut)
      have hlen := length_packAccount { base with isNative := some (minimumBalance needed) }
        hshaped.base
      refine Open.isKind (open_iff.mpr ⟨⟨hlen, hshaped.behind⟩, ?_, ?_⟩)
      · rw [length_data] at hmultisig ⊢
        rw [hlen, ← hshaped.base]
        exact hmultisig
      · have hset := (packedInitialized_iff hbase).mpr hinit
        intro hzero
        have hbyte := byte_packAccount { base with isNative := some (minimumBalance needed) }
          hshaped.base
        rw [show byte _ 108 = 0 from hzero] at hbyte
        exact hset (stateByte_eq_zero.mp hbyte.symm)

/-! ### Every kind of write -/

theorem Produces.keeps (h : Produces S b b') (hT : IsKind T b) : IsKind T b' := by
  cases h with
  | writes hs h =>
    rcases hs with hs | hs
    · have hST := kind_unique (isKind_iff.mpr ⟨_, hs⟩) hT
      subst hST
      exact (ViewWrite.keeps_all h (unpackMut_open hs)).isKind
    · exact absurd hs (used hT _)
  | setAccountType h => exact setAccountType_keeps h hT
  | allocAndSerialize v default extension overwrite h =>
    obtain ⟨hbefore, hafter⟩ := allocAndSerialize_isKind h
    exact kind_unique hbefore hT ▸ hafter
  | allocAndSerializeVariableLen v extension overwrite h =>
    obtain ⟨hbefore, hafter⟩ := allocAndSerializeVariableLen_isKind h
    exact kind_unique hbefore hT ▸ hafter
  | reallocate minimumBalance types hS h =>
    obtain ⟨hbefore, hafter⟩ := reallocateData_isKind h
    exact kind_unique hbefore hT ▸ hafter

/-- The kinds are disjoint on every buffer, and no write changes a kind. -/
theorem account_kinds_disjoint :
    (∀ b, KindsDisjoint b) ∧
    ∀ S b b', Produces S b b' → KindsDisjoint b' ∧ ∀ T, IsKind T b → IsKind T b' :=
  ⟨kindsDisjoint, fun _ _ b' h => ⟨kindsDisjoint b', fun _ hT => h.keeps hT⟩⟩

/-- An account whose account type is set, once and again. -/
theorem account_kinds_disjoint_retyped :
    IsKind .account (List.replicate 108 0 ++ 1 :: List.replicate 56 0 ++ [2, 0, 0, 0, 0]) :=
  have hfirst : setAccountType .account
      (List.replicate 108 0 ++ 1 :: List.replicate 56 0 ++ [0, 0, 0, 0, 0]) =
      .ok (List.replicate 108 0 ++ 1 :: List.replicate 56 0 ++ [2, 0, 0, 0, 0]) := by
    decide +kernel
  have hagain : setAccountType .account
      (List.replicate 108 0 ++ 1 :: List.replicate 56 0 ++ [2, 0, 0, 0, 0]) =
      .ok (List.replicate 108 0 ++ 1 :: List.replicate 56 0 ++ [2, 0, 0, 0, 0]) := by
    decide +kernel
  (account_kinds_disjoint.2 .account _ _ (.setAccountType hagain)).2 .account
    (setAccountType_isKind hfirst)

end Bytes
end BarkToken
