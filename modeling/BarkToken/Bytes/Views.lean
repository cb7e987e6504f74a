import BarkToken.Bytes.State
import BarkToken.Bytes.Walk

/-!
# What the views accept (extension/mod.rs:257-325, 542-552, 887-1017)

A view splits the account data into a base state and, behind zero padding and
the account type, TLV data. Each unpacker accepts exactly the data such a split
puts together, with the base state and the account type it asks for.
-/

namespace BarkToken
open Fallible

/-- The byte `is_initialized` reads (`pod.rs:39`, `pod.rs:91`). -/
def BaseState.initByte : BaseState → ℕ
  | mint => 45
  | account => 108

theorem BaseState.initByte_lt (S : BaseState) : S.initByte < S.sizeOf := by
  cases S <;> decide

theorem BaseState.sizeOf_le (S : BaseState) : S.sizeOf ≤ baseAccountLength := by
  cases S <;> decide

theorem AccountType.tryFrom_eq_ok {x : UInt8} {t : AccountType} :
    AccountType.tryFrom x = .ok t ↔ x = t.toU8 := by
  constructor
  · intro h
    unfold tryFrom at h
    split at h
    · cases h
      assumption
    · split at h
      · cases h
        assumption
      · split at h
        · cases h
          assumption
        · cases h
  · intro h
    rw [h]
    cases t <;> rfl

theorem AccountType.toU8_inj {t u : AccountType} : t.toU8 = u.toU8 ↔ t = u := by
  constructor
  · intro h
    have ht := tryFrom_eq_ok.mpr h
    rw [tryFrom_eq_ok.mpr rfl] at ht
    cases ht
    rfl
  · exact congrArg toU8

namespace Bytes

/-! ### Bytes of parts -/

theorem byte_take {b : Bytes} {n i : ℕ} (h : i < n) : byte (b.take n) i = byte b i := by
  simp only [byte, List.getD_eq_getElem?_getD, List.getElem?_take, if_pos h]

theorem byte_append_left {a c : Bytes} {i : ℕ} (h : i < a.length) :
    byte (a ++ c) i = byte a i := by
  simp only [byte, List.getD_eq_getElem?_getD, List.getElem?_append_left h]

theorem byte_append_right {a c : Bytes} {i : ℕ} (h : a.length ≤ i) :
    byte (a ++ c) i = byte c (i - a.length) := by
  simp only [byte, List.getD_eq_getElem?_getD, List.getElem?_append_right h]

theorem byte_replicate (n i : ℕ) : byte (List.replicate n 0) i = 0 := by
  simp only [byte, List.getD_eq_getElem?_getD, List.getElem?_replicate]
  split <;> rfl

theorem isInitialized_iff (S : BaseState) (b : Bytes) :
    isInitialized S (podFromBytes S b) ↔ byte b S.initByte ≠ 0 := by
  cases S <;> exact Iff.rfl

/-! ### Behind the base state -/

/-- Zeroes from the end of the base state up to the account type. -/
def zeroPadding (S : BaseState) : Bytes := List.replicate (baseAccountLength - S.sizeOf) 0

@[simp] theorem length_zeroPadding (S : BaseState) :
    (zeroPadding S).length = baseAccountLength - S.sizeOf := List.length_replicate

variable {S : BaseState} {rest : Bytes}

theorem typeAndTlvIndices_none : typeAndTlvIndices S rest = .ok none ↔ rest = [] := by
  unfold typeAndTlvIndices
  split
  case isTrue h => simp only [h]
  case isFalse h =>
    simp only [h, iff_false]
    split
    · simp
    · split <;> simp

theorem typeAndTlvIndices_some {i j : ℕ} : typeAndTlvIndices S rest = .ok (some (i, j)) ↔
    (i = baseAccountLength - S.sizeOf ∧ j = baseAccountLength - S.sizeOf + 1) ∧
      ∃ x tlv, tlv ≠ [] ∧ rest = zeroPadding S ++ x :: tlv := by
  obtain ⟨n, hn⟩ : ∃ n, n = baseAccountLength - S.sizeOf := ⟨_, rfl⟩
  have hpad : zeroPadding S = List.replicate n 0 := by rw [zeroPadding, hn]
  unfold typeAndTlvIndices
  simp only [← hn, hpad]
  split
  case isTrue h => simp [h]
  case isFalse =>
    split
    case isTrue hshort =>
      simp only [reduceCtorEq, false_iff]
      rintro ⟨_, x, tlv, htlv, rfl⟩
      have := List.length_pos_of_ne_nil htlv
      simp only [List.length_append, List.length_replicate, List.length_cons] at hshort
      omega
    case isFalse hlong =>
      split
      case isTrue hne =>
        simp only [reduceCtorEq, false_iff]
        rintro ⟨_, x, tlv, htlv, rfl⟩
        exact hne (List.take_left' List.length_replicate)
      case isFalse heq =>
        simp only [Except.ok.injEq, Option.some.injEq, Prod.mk.injEq]
        constructor
        · rintro ⟨rfl, rfl⟩
          refine ⟨⟨rfl, rfl⟩, ?_⟩
          have hsplit := List.take_append_drop n rest
          rw [not_not.mp heq] at hsplit
          obtain ⟨x, tlv, hcons⟩ : ∃ x tlv, rest.drop n = x :: tlv :=
            List.exists_cons_of_length_pos (by rw [List.length_drop]; omega)
          refine ⟨x, tlv, ?_, by rw [← hcons, hsplit]⟩
          have hlen := congrArg List.length hcons
          rw [List.length_drop, List.length_cons] at hlen
          exact List.ne_nil_of_length_pos (by omega)
        · rintro ⟨⟨rfl, rfl⟩, _⟩
          exact ⟨rfl, rfl⟩

/-- The account type found behind the padding. -/
theorem byte_accountType (S : BaseState) (x : UInt8) (tlv : Bytes) :
    byte (zeroPadding S ++ x :: tlv) (baseAccountLength - S.sizeOf) = x := by
  rw [byte_append_right (by rw [length_zeroPadding]), length_zeroPadding, Nat.sub_self]
  rfl

theorem drop_accountType (S : BaseState) (x : UInt8) (tlv : Bytes) :
    (zeroPadding S ++ x :: tlv).drop (baseAccountLength - S.sizeOf + 1) = tlv := by
  rw [← length_zeroPadding S, ← List.drop_drop, List.drop_left]
  rfl

/-! ### Splits -/

namespace PodStateMut

/-- The split of a view whose account type is `t`: the base state alone, or all
four parts, TLV data included. -/
structure Shaped (S : BaseState) (t : AccountType) (s : PodStateMut) : Prop where
  base : s.base.length = S.sizeOf
  behind : (s.padding = [] ∧ s.accountType = [] ∧ s.tlvData = []) ∨
    (s.padding = zeroPadding S ∧ s.accountType = [t.toU8] ∧ s.tlvData ≠ [])

theorem data_bare (base : Bytes) : PodStateMut.data ⟨base, [], [], []⟩ = base := by
  simp only [data, List.append_nil]

theorem data_extended (base : Bytes) (x : UInt8) (tlv : Bytes) :
    PodStateMut.data ⟨base, zeroPadding S, [x], tlv⟩ = base ++ (zeroPadding S ++ x :: tlv) := by
  simp only [data, List.append_assoc, List.singleton_append]

end PodStateMut

/-- What the mutable unpackers accept behind the base state. -/
theorem unpackTypeAndTlvDataWithCheckMut_eq_ok {base : Bytes}
    {checkFn : AccountType → Except Fault Unit} {s : PodStateMut} :
    unpackTypeAndTlvDataWithCheckMut S base rest checkFn = .ok s ↔
      (rest = [] ∧ s = ⟨base, [], [], []⟩) ∨
      ∃ t tlv, tlv ≠ [] ∧ rest = zeroPadding S ++ t.toU8 :: tlv ∧ checkFn t = .ok () ∧
        s = ⟨base, zeroPadding S, [t.toU8], tlv⟩ := by
  rw [unpackTypeAndTlvDataWithCheckMut]
  simp only [bind_eq_ok]
  constructor
  · rintro ⟨found, hfound, h⟩
    cases found with
    | none =>
      simp only [pure_eq_ok] at h
      exact Or.inl ⟨typeAndTlvIndices_none.mp hfound, h.symm⟩
    | some ij =>
      obtain ⟨⟨hi, hj⟩, x, tlv, htlv, hrest⟩ := typeAndTlvIndices_some.mp hfound
      simp only [hi, hj, bind_eq_ok, exists_unit, pure_eq_ok, AccountType.tryFrom_eq_ok] at h
      obtain ⟨t, hx, hcheck, hs⟩ := h
      rw [hrest, byte_accountType] at hx
      subst hx
      refine Or.inr ⟨t, tlv, htlv, hrest, hcheck, ?_⟩
      rw [← hs, hrest, drop_accountType, field, ← length_zeroPadding S, List.take_left,
        List.drop_left]
      rfl
  · rintro (⟨hrest, rfl⟩ | ⟨t, tlv, htlv, hrest, hcheck, rfl⟩)
    · exact ⟨none, typeAndTlvIndices_none.mpr hrest, rfl⟩
    · refine ⟨_, typeAndTlvIndices_some.mpr ⟨⟨rfl, rfl⟩, t.toU8, tlv, htlv, hrest⟩, ?_⟩
      simp only [bind_eq_ok, exists_unit, pure_eq_ok, AccountType.tryFrom_eq_ok]
      refine ⟨t, by rw [hrest, byte_accountType], hcheck, ?_⟩
      rw [hrest, drop_accountType, field, ← length_zeroPadding S, List.take_left, List.drop_left]
      rfl

/-- The immutable unpackers read what the mutable ones borrow. -/
theorem unpackTlvData_eq_ok (base : Bytes) {tlvData : Bytes} :
    unpackTlvData S rest = .ok tlvData ↔
      ∃ s, unpackTypeAndTlvDataWithCheckMut S base rest (checkAccountType S) = .ok s ∧
        s.tlvData = tlvData := by
  rw [unpackTlvData]
  simp only [bind_eq_ok]
  constructor
  · rintro ⟨found, hfound, h⟩
    cases found with
    | none =>
      simp only [pure_eq_ok] at h
      exact ⟨⟨base, [], [], []⟩, unpackTypeAndTlvDataWithCheckMut_eq_ok.mpr
        (Or.inl ⟨typeAndTlvIndices_none.mp hfound, rfl⟩), h⟩
    | some ij =>
      obtain ⟨⟨hi, hj⟩, x, tlv, htlv, hrest⟩ := typeAndTlvIndices_some.mp hfound
      simp only [hi, hj, bind_eq_ok, exists_unit, pure_eq_ok, AccountType.tryFrom_eq_ok] at h
      obtain ⟨t, hx, hcheck, htlvData⟩ := h
      rw [hrest, byte_accountType] at hx
      subst hx
      refine ⟨⟨base, zeroPadding S, [t.toU8], tlv⟩, unpackTypeAndTlvDataWithCheckMut_eq_ok.mpr
        (Or.inr ⟨t, tlv, htlv, hrest, hcheck, rfl⟩), ?_⟩
      rw [← htlvData, hrest, drop_accountType]
  · rintro ⟨s, hs, rfl⟩
    rcases unpackTypeAndTlvDataWithCheckMut_eq_ok.mp hs with
      ⟨hrest, rfl⟩ | ⟨t, tlv, htlv, hrest, hcheck, rfl⟩
    · exact ⟨none, typeAndTlvIndices_none.mpr hrest, rfl⟩
    · refine ⟨_, typeAndTlvIndices_some.mpr ⟨⟨rfl, rfl⟩, t.toU8, tlv, htlv, hrest⟩, ?_⟩
      simp only [bind_eq_ok, exists_unit, pure_eq_ok, AccountType.tryFrom_eq_ok]
      refine ⟨t, by rw [hrest, byte_accountType], hcheck, ?_⟩
      rw [hrest, drop_accountType]

theorem base_of_split {base : Bytes} {check : AccountType → Except Fault Unit} {s : PodStateMut}
    (h : unpackTypeAndTlvDataWithCheckMut S base rest check = .ok s) : s.base = base := by
  rcases unpackTypeAndTlvDataWithCheckMut_eq_ok.mp h with ⟨_, rfl⟩ | ⟨_, _, _, _, _, rfl⟩ <;> rfl

/-! ### The unpackers -/

variable {b : Bytes} {s : PodStateMut}

theorem checkMinLenAndNotMultisig_eq_ok {n : ℕ} :
    checkMinLenAndNotMultisig b n = .ok () ↔ b.length ≠ multisigLen ∧ n ≤ b.length := by
  rw [checkMinLenAndNotMultisig, ensure_eq_ok]
  omega

theorem checkAccountType_eq_ok {t : AccountType} :
    checkAccountType S t = .ok () ↔ t = S.accountType := by
  rw [checkAccountType, ensure_eq_ok]

/-- A split puts the data together again. -/
theorem shaped_iff (S : BaseState) {b : Bytes} {s : PodStateMut}
    {check : AccountType → Except Fault Unit} {t : AccountType}
    (hcheck : ∀ u, check u = .ok () ↔ u = t) :
    (S.sizeOf ≤ b.length ∧
      unpackTypeAndTlvDataWithCheckMut S (b.take S.sizeOf) (b.drop S.sizeOf) check = .ok s) ↔
      s.Shaped S t ∧ s.data = b := by
  rw [unpackTypeAndTlvDataWithCheckMut_eq_ok]
  constructor
  · rintro ⟨hlen, ⟨hrest, rfl⟩ | ⟨u, tlv, htlv, hrest, hu, rfl⟩⟩
    · refine ⟨⟨List.length_take_of_le hlen, Or.inl ⟨rfl, rfl, rfl⟩⟩, ?_⟩
      rw [PodStateMut.data_bare]
      calc b.take S.sizeOf = b.take S.sizeOf ++ b.drop S.sizeOf := by rw [hrest, List.append_nil]
        _ = b := List.take_append_drop _ _
    · rw [(hcheck u).mp hu] at hrest ⊢
      refine ⟨⟨List.length_take_of_le hlen, Or.inr ⟨rfl, rfl, htlv⟩⟩, ?_⟩
      rw [PodStateMut.data_extended, ← hrest, List.take_append_drop]
  · obtain ⟨base, padding, accountType, tlvData⟩ := s
    rintro ⟨⟨hbase, ⟨rfl, rfl, rfl⟩ | ⟨rfl, rfl, htlv⟩⟩, rfl⟩
    · have hlen : base.length = S.sizeOf := hbase
      rw [PodStateMut.data_bare, ← hlen]
      exact ⟨le_rfl, Or.inl ⟨List.drop_length, by rw [List.take_length]⟩⟩
    · have hlen : base.length = S.sizeOf := hbase
      rw [PodStateMut.data_extended, ← hlen, List.take_left, List.drop_left]
      exact ⟨by rw [List.length_append]; omega,
        Or.inr ⟨t, tlvData, htlv, rfl, (hcheck t).mpr rfl, rfl⟩⟩

theorem take_data (h : s.Shaped S t) : s.data.take S.sizeOf = s.base := by
  rw [PodStateMut.data, List.append_assoc, List.append_assoc, ← h.base, List.take_left]

theorem unpackMut_eq_ok : unpackMut S b = .ok s ↔
    s.Shaped S S.accountType ∧ s.data = b ∧ b.length ≠ multisigLen ∧
      byte s.base S.initByte ≠ 0 := by
  have hsplit := shaped_iff S (b := b) (s := s) fun u => checkAccountType_eq_ok (S := S) (t := u)
  rw [unpackMut]
  simp only [bind_eq_ok, exists_unit, ensure_eq_ok, checkMinLenAndNotMultisig_eq_ok,
    isInitialized_iff]
  constructor
  · rintro ⟨⟨hmultisig, hlen⟩, hinit, h⟩
    obtain ⟨hshaped, rfl⟩ := hsplit.mp ⟨hlen, h⟩
    rw [take_data hshaped] at hinit
    exact ⟨hshaped, rfl, hmultisig, hinit⟩
  · rintro ⟨hshaped, rfl, hmultisig, hinit⟩
    obtain ⟨hlen, h⟩ := hsplit.mpr ⟨hshaped, rfl⟩
    rw [take_data hshaped] at h ⊢
    exact ⟨⟨hmultisig, hlen⟩, hinit, h⟩

theorem unpackUninitialized_eq_ok : unpackUninitialized S b = .ok s ↔
    s.Shaped S .uninitialized ∧ s.data = b ∧ b.length ≠ multisigLen ∧
      byte s.base S.initByte = 0 ∧ checkAccountTypeMatchesExtensionType S s.tlvData = .ok () := by
  have hcheck : ∀ u : AccountType,
      ensure (u = .uninitialized) (ProgramError.invalidAccountData : Fault) = .ok () ↔
        u = .uninitialized := fun u => ensure_eq_ok
  have hsplit := shaped_iff S (b := b) (s := s) hcheck
  rw [unpackUninitialized]
  simp only [bind_eq_ok, exists_unit, ensure_eq_ok, checkMinLenAndNotMultisig_eq_ok,
    isInitialized_iff, pure_eq_ok, not_not]
  constructor
  · rintro ⟨⟨hmultisig, hlen⟩, hinit, s', h, hcheck, rfl⟩
    obtain ⟨hshaped, rfl⟩ := hsplit.mp ⟨hlen, h⟩
    rw [take_data hshaped] at hinit
    exact ⟨hshaped, rfl, hmultisig, hinit, hcheck⟩
  · rintro ⟨hshaped, rfl, hmultisig, hinit, hcheck⟩
    obtain ⟨hlen, h⟩ := hsplit.mpr ⟨hshaped, rfl⟩
    rw [take_data hshaped] at h ⊢
    exact ⟨⟨hmultisig, hlen⟩, hinit, s, h, hcheck, rfl⟩

/-- The read-only view shows what the mutable one borrows. -/
theorem unpack_eq_ok {p : PodState S} : unpack S b = .ok p ↔
    ∃ s, unpackMut S b = .ok s ∧ p = ⟨podFromBytes S s.base, s.tlvData⟩ := by
  rw [unpack, unpackMut]
  simp only [bind_eq_ok, exists_unit, ensure_eq_ok, pure_eq_ok,
    unpackTlvData_eq_ok (b.take S.sizeOf)]
  constructor
  · rintro ⟨hlen, hinit, tlvData, ⟨s, hs, rfl⟩, rfl⟩
    refine ⟨s, ⟨hlen, hinit, hs⟩, ?_⟩
    rw [base_of_split hs]
  · rintro ⟨s, ⟨hlen, hinit, hs⟩, rfl⟩
    refine ⟨hlen, hinit, s.tlvData, ⟨s, hs, rfl⟩, ?_⟩
    rw [base_of_split hs]

/-! ### The packed views -/

theorem unpackBool_eq_ok {x : UInt8} {y : Bool} : unpackBool x = .ok y ↔ x = boolByte y := by
  constructor
  · intro h
    unfold unpackBool at h
    split at h
    · cases h
      assumption
    · split at h
      · cases h
        assumption
      · cases h
  · intro h
    rw [h]
    cases y <;> rfl

theorem unpackState_eq_ok {x : UInt8} {y : AccountState} :
    unpackState x = .ok y ↔ x = stateByte y := by
  constructor
  · intro h
    unfold unpackState at h
    split at h
    · cases h
      assumption
    · split at h
      · cases h
        assumption
      · split at h
        · cases h
          assumption
        · cases h
  · intro h
    rw [h]
    cases y <;> rfl

/-- `Pack` reads its own initialisation from the byte `Pod` reads. -/
theorem packedInitialized_iff {base : Bytes} {value : Packed S}
    (h : unpackFromSlice S base = .ok value) :
    packedInitialized S value ↔ byte base S.initByte ≠ 0 := by
  cases S with
  | mint =>
    simp only [unpackFromSlice, unpackMint, bind_eq_ok, pure_eq_ok, unpackBool_eq_ok] at h
    obtain ⟨_, _, initialized, hbyte, _, _, rfl⟩ := h
    simp only [packedInitialized, BaseState.initByte, hbyte]
    cases initialized <;> decide
  | account =>
    simp only [unpackFromSlice, unpackAccount, bind_eq_ok, pure_eq_ok, unpackState_eq_ok] at h
    obtain ⟨_, _, state, hbyte, _, _, _, _, rfl⟩ := h
    simp only [packedInitialized, BaseState.initByte, hbyte]
    cases state <;> decide

theorem packUnpack_eq_ok {base : Bytes} {value : Packed S} : packUnpack S base = .ok value ↔
    base.length = S.sizeOf ∧ unpackFromSlice S base = .ok value ∧ byte base S.initByte ≠ 0 := by
  simp only [packUnpack, unpackUnchecked, bind_eq_ok, exists_unit, ensure_eq_ok, pure_eq_ok]
  constructor
  · rintro ⟨value, ⟨hlen, hvalue⟩, hinit, rfl⟩
    exact ⟨hlen, hvalue, (packedInitialized_iff hvalue).mp hinit⟩
  · rintro ⟨hlen, hvalue, hinit⟩
    exact ⟨value, ⟨hlen, hvalue⟩, (packedInitialized_iff hvalue).mpr hinit, rfl⟩

/-- The packed mutable view is the Pod one where the base state unpacks. -/
theorem unpackPackedMut_eq_ok {value : Packed S} : unpackPackedMut S b = .ok (value, s) ↔
    unpackMut S b = .ok s ∧ unpackFromSlice S s.base = .ok value := by
  simp only [unpackPackedMut, unpackMut, bind_eq_ok, exists_unit, ensure_eq_ok, pure_eq_ok,
    packUnpack_eq_ok, isInitialized_iff, checkMinLenAndNotMultisig_eq_ok, Prod.mk.injEq]
  constructor
  · rintro ⟨hlen, v, ⟨_, hvalue, hinit⟩, s, hs, rfl, rfl⟩
    refine ⟨⟨hlen, hinit, hs⟩, ?_⟩
    rw [base_of_split hs]
    exact hvalue
  · rintro ⟨⟨hlen, hinit, hs⟩, hvalue⟩
    rw [base_of_split hs] at hvalue
    exact ⟨hlen, value, ⟨List.length_take_of_le hlen.2, hvalue, hinit⟩, s, hs, rfl, rfl⟩

/-- So is the packed read-only view. -/
theorem unpackPacked_eq_ok {p : PackedState S} : unpackPacked S b = .ok p ↔
    ∃ s, unpackMut S b = .ok s ∧ unpackFromSlice S s.base = .ok p.base ∧
      s.tlvData = p.tlvData := by
  simp only [unpackPacked, unpackMut, bind_eq_ok, exists_unit, ensure_eq_ok, pure_eq_ok,
    packUnpack_eq_ok, isInitialized_iff, checkMinLenAndNotMultisig_eq_ok,
    unpackTlvData_eq_ok (b.take S.sizeOf)]
  constructor
  · rintro ⟨hlen, v, ⟨_, hvalue, hinit⟩, tlvData, ⟨s, hs, rfl⟩, rfl⟩
    refine ⟨s, ⟨hlen, hinit, hs⟩, ?_, rfl⟩
    rw [base_of_split hs]
    exact hvalue
  · rintro ⟨s, ⟨hlen, hinit, hs⟩, hvalue, htlv⟩
    rw [base_of_split hs] at hvalue
    exact ⟨hlen, p.base, ⟨List.length_take_of_le hlen.2, hvalue, hinit⟩, p.tlvData,
      ⟨s, hs, htlv⟩, rfl⟩

/-! ### Packing -/

theorem length_keyBytes (k : Pubkey) : (keyBytes k).length = 32 := LittleEndian.length_bytes _ _

theorem length_u64Bytes (n : UInt64) : (u64Bytes n).length = 8 := LittleEndian.length_bytes _ _

theorem length_packCOption {α : Type} {valueBytes : α → Bytes} {n : ℕ}
    (hvalue : ∀ v, (valueBytes v).length = n) (src : Option α) {dst : Bytes}
    (hdst : dst.length = 4 + n) : (packCOption valueBytes src dst).length = 4 + n := by
  cases src with
  | none =>
    rw [packCOption, List.length_append, List.length_drop, hdst, PodCOption.NONE]
    simp only [List.length_cons, List.length_nil]
    omega
  | some v =>
    rw [packCOption, List.length_append, hvalue, PodCOption.SOME]
    rfl

theorem length_field {i n : ℕ} (h : i + n ≤ b.length) : (field b i n).length = n := by
  rw [field, List.length_take, List.length_drop]
  omega

theorem stateByte_eq_zero {x : AccountState} : stateByte x = 0 ↔ x = .uninitialized := by
  cases x <;> decide

theorem length_packAccount (a : PodAccount) (h : b.length = BaseState.account.sizeOf) :
    (packAccount a b).length = BaseState.account.sizeOf := by
  have hsize : b.length = 165 := h
  have hdelegate : (packCOption keyBytes a.delegate (field b 72 36)).length = 36 :=
    length_packCOption length_keyBytes a.delegate (length_field (by omega))
  have hnative : (packCOption u64Bytes a.isNative (field b 109 12)).length = 12 :=
    length_packCOption length_u64Bytes a.isNative (length_field (by omega))
  have hclose : (packCOption keyBytes a.closeAuthority (field b 129 36)).length = 36 :=
    length_packCOption length_keyBytes a.closeAuthority (length_field (by omega))
  simp only [packAccount, List.length_append, List.length_cons, length_keyBytes,
    length_u64Bytes, hdelegate, hnative, hclose]
  rfl

theorem byte_packAccount (a : PodAccount) (h : b.length = BaseState.account.sizeOf) :
    byte (packAccount a b) 108 = stateByte a.state := by
  have hsize : b.length = 165 := h
  have hdelegate : (packCOption keyBytes a.delegate (field b 72 36)).length = 36 :=
    length_packCOption length_keyBytes a.delegate (length_field (by omega))
  have hmint := length_keyBytes a.mint
  have howner := length_keyBytes a.owner
  have hamount := length_u64Bytes a.amount
  rw [packAccount, byte_append_right (by omega), byte_append_right (by omega),
    byte_append_right (by omega), byte_append_right (by omega), hmint, howner, hamount, hdelegate]
  rfl

/-! ### Setting the account type -/

/-- `set_account_type` overwrites account type 0, and accepts its own. -/
theorem setAccountType_eq_ok {b' : Bytes} (h : setAccountType S b = .ok b') :
    ∃ base x tlv, base.length = S.sizeOf ∧ tlv ≠ [] ∧ b.length ≠ multisigLen ∧
      (S = .account → byte base 108 ≠ 0) ∧
      (x = AccountType.uninitialized.toU8 ∨ x = S.accountType.toU8) ∧
      b = base ++ (zeroPadding S ++ x :: tlv) ∧
      b' = base ++ (zeroPadding S ++ S.accountType.toU8 :: tlv) := by
  simp only [setAccountType, bind_eq_ok, exists_unit, ensure_eq_ok,
    checkMinLenAndNotMultisig_eq_ok] at h
  obtain ⟨⟨hmultisig, hlen⟩, initialized, hread, hinit, found, hfound, h⟩ := h
  have hstate : S = .account → byte (b.take S.sizeOf) 108 ≠ 0 := by
    rintro rfl
    rw [if_pos (show BaseState.account.accountType = .account from rfl), isInitializedAccount,
      ensure_bind_eq_ok, pure_eq_ok, hinit] at hread
    exact of_decide_eq_true hread.2
  cases found with
  | none => cases h
  | some ij =>
    obtain ⟨⟨hi, hj⟩, x, tlv, htlv, hrest⟩ := typeAndTlvIndices_some.mp hfound
    simp only [hi, bind_eq_ok, AccountType.tryFrom_eq_ok, hrest, byte_accountType] at h
    obtain ⟨t, rfl, h⟩ := h
    have hb : b = b.take S.sizeOf ++ (zeroPadding S ++ t.toU8 :: tlv) := by
      rw [← hrest, List.take_append_drop]
    refine ⟨b.take S.sizeOf, t.toU8, tlv, List.length_take_of_le hlen, htlv, hmultisig, hstate,
      ?_, hb, ?_⟩
    · split at h
      case isTrue ht => exact Or.inl (congrArg _ ht)
      case isFalse =>
        simp only [bind_eq_ok, exists_unit, checkAccountType_eq_ok] at h
        exact Or.inr (congrArg _ h.1)
    · split at h
      case isTrue ht =>
        rw [pure_eq_ok] at h
        rw [← h, ← length_zeroPadding S, List.set_append_right _ _ le_rfl, Nat.sub_self]
        rfl
      case isFalse =>
        simp only [bind_eq_ok, exists_unit, checkAccountType_eq_ok, pure_eq_ok] at h
        rw [← h.2, ← h.1]
        exact hb

theorem setAccountType_length {b' : Bytes} (h : setAccountType S b = .ok b') :
    b'.length = b.length := by
  obtain ⟨base, x, tlv, _, _, _, _, _, rfl, rfl⟩ := setAccountType_eq_ok h
  simp only [List.length_append, List.length_cons]

/-- Account type 0 gives way to the one of `S`. -/
theorem setAccountType_of_uninitialized {base tlv : Bytes} (hbase : base.length = S.sizeOf)
    (htlv : tlv ≠ []) (hstate : S = .account → byte base 108 ≠ 0)
    (hmultisig : (base ++ (zeroPadding S ++ 0 :: tlv)).length ≠ multisigLen) :
    setAccountType S (base ++ (zeroPadding S ++ 0 :: tlv)) =
      .ok (base ++ (zeroPadding S ++ S.accountType.toU8 :: tlv)) := by
  have htake : (base ++ (zeroPadding S ++ 0 :: tlv)).take S.sizeOf = base := by
    rw [← hbase, List.take_left]
  have hdrop : (base ++ (zeroPadding S ++ 0 :: tlv)).drop S.sizeOf =
      zeroPadding S ++ 0 :: tlv := by
    rw [← hbase, List.drop_left]
  have hmin : S.sizeOf ≤ (base ++ (zeroPadding S ++ 0 :: tlv)).length := by
    rw [List.length_append]
    omega
  have hread : (if S.accountType = .account then isInitializedAccount base else .ok true) =
      .ok true := by
    cases S with
    | mint => rfl
    | account =>
      rw [if_pos (show BaseState.account.accountType = .account from rfl), isInitializedAccount,
        ensure_bind_eq_ok, pure_eq_ok]
      exact ⟨hbase, decide_eq_true (hstate rfl)⟩
  simp only [setAccountType, bind_eq_ok, exists_unit, ensure_eq_ok,
    checkMinLenAndNotMultisig_eq_ok, htake, hdrop]
  refine ⟨⟨hmultisig, hmin⟩, true, hread, rfl, _,
    typeAndTlvIndices_some.mpr ⟨⟨rfl, rfl⟩, 0, tlv, htlv, rfl⟩, ?_⟩
  simp only [byte_accountType, bind_eq_ok]
  refine ⟨.uninitialized, rfl, ?_⟩
  rw [if_pos rfl, pure_eq_ok, ← length_zeroPadding S, List.set_append_right _ _ le_rfl,
    Nat.sub_self]
  rfl

/-! ### Writes keep the length of the TLV data -/

theorem write_length {c v : Bytes} {i : ℕ} (h : write b i v = .ok c) : c.length = b.length := by
  rw [write, okOr_eq_ok] at h
  exact Buffer.length_of_write h

open Buffered

theorem borrow_keeps (i j : ℕ) : Keeps List.length (borrow i j) :=
  .bind (.reads _) fun _ => .pure _

theorem assign_keeps (x : SliceMut) (v : Bytes) : Keeps List.length (x.assign v) :=
  .bind (.check _ _) fun _ => .writes fun _ _ h => write_length h

theorem pack_keeps (x : SliceMut) (v : VariableLenPack) : Keeps List.length (x.pack v) :=
  .bind (.reads _) fun _ => assign_keeps _ _

theorem alloc_keeps (S : BaseState) (v : ExtensionType) (length : ℕ) (overwrite : Bool) :
    Keeps List.length (alloc S v length overwrite) := by
  refine .bind (.check _ _) fun _ => .bind (.reads _) fun ix => .bind (.reads _) fun rest => ?_
  refine .bind (.check _ _) fun _ => .bind (.reads _) fun type => .bind (.check _ _) fun _ => ?_
  refine .bind (.writes fun _ _ h => write_length h) fun _ => .bind (.reads _) fun length => ?_
  refine .bind (.check _ _) fun _ => .bind (.reads _) fun bytes => ?_
  exact .bind (.writes fun _ _ h => write_length h) fun _ => borrow_keeps _ _

theorem initExtension_keeps (S : BaseState) (v : ExtensionType) (default : Bytes)
    (overwrite : Bool) : Keeps List.length (initExtension S v default overwrite) :=
  .bind (alloc_keeps S v _ overwrite) fun x => .bind (assign_keeps x _) fun _ => .pure _

theorem initVariableLenExtension_keeps (S : BaseState) (v : ExtensionType)
    (extension : VariableLenPack) (overwrite : Bool) :
    Keeps List.length (initVariableLenExtension S v extension overwrite) :=
  .bind (.reads _) fun length => .bind (alloc_keeps S v length overwrite) fun x =>
    pack_keeps x extension

theorem copyWithin_length {c : Bytes} {i j k : ℕ} (h : copyWithin b i j k = .ok c) :
    c.length = b.length := by
  rw [copyWithin, okOr_eq_ok] at h
  exact Buffer.length_of_copyWithin h

theorem fill_length {c : Bytes} {i j : ℕ} {x : UInt8} (h : fill b i j x = .ok c) :
    c.length = b.length := by
  rw [fill, okOr_eq_ok] at h
  exact Buffer.length_of_fill h

theorem realloc_keeps (v : ExtensionType) (length : ℕ) : Keeps List.length (realloc v length) := by
  refine .bind (.reads _) fun ix => .bind (.reads _) fun info => .bind (.reads _) fun n => ?_
  refine .bind (.reads _) fun _ => .bind (.reads _) fun bytes => ?_
  refine .bind (.writes fun _ _ h => write_length h) fun _ => ?_
  refine .bind (.writes fun _ _ h => copyWithin_length h) fun _ => ?_
  refine .bind (.writes ?_) fun _ => borrow_keeps _ _
  intro b c h
  split at h
  · exact fill_length h
  · exact fill_length h
  · cases h
    rfl

theorem reallocVariableLenExtension_keeps (v : ExtensionType) (extension : VariableLenPack) :
    Keeps List.length (reallocVariableLenExtension v extension) :=
  .bind (.reads _) fun length => .bind (realloc_keeps v length) fun x => pack_keeps x extension

/-- A call on the TLV data is one on the view. -/
theorem onTlv_eq_ok {α : Type} {call : TlvM α} {s' : PodStateMut} :
    s.onTlv call = .ok s' ↔ ∃ a tlvData, call.run s.tlvData = (.ok a, tlvData) ∧
      s' = { s with tlvData } := by
  rw [PodStateMut.onTlv]
  rcases hrun : call.run s.tlvData with ⟨e | a, tlvData⟩
  · simp
  · simp [eq_comm]

theorem onTlv_length {α : Type} {call : TlvM α} {s' : PodStateMut}
    (hkeeps : Keeps List.length call) (h : s.onTlv call = .ok s') :
    s'.tlvData.length = s.tlvData.length ∧ s' = { s with tlvData := s'.tlvData } := by
  obtain ⟨a, tlvData, hrun, rfl⟩ := onTlv_eq_ok.mp h
  have hlen := hkeeps s.tlvData
  rw [hrun] at hlen
  exact ⟨hlen, rfl⟩

/-! ### Open views -/

/-- A view whose data unpacks to the view itself. -/
def Open (S : BaseState) (s : PodStateMut) : Prop := unpackMut S s.data = .ok s

variable {s' : PodStateMut}

theorem open_iff : Open S s ↔ s.Shaped S S.accountType ∧ s.data.length ≠ multisigLen ∧
    byte s.base S.initByte ≠ 0 := by
  rw [Open, unpackMut_eq_ok]
  exact ⟨fun h => ⟨h.1, h.2.2⟩, fun h => ⟨h.1, rfl, h.2⟩⟩

theorem unpackMut_open (h : unpackMut S b = .ok s) : Open S s := by
  obtain ⟨_, hdata, _⟩ := unpackMut_eq_ok.mp h
  rw [Open, hdata]
  exact h

theorem length_data (s : PodStateMut) : s.data.length =
    s.base.length + s.padding.length + s.accountType.length + s.tlvData.length := by
  simp only [PodStateMut.data, List.length_append]

/-- Header and TLV data of an extended account. -/
theorem Open.length_eq (h : Open S s) (htlv : s.tlvData ≠ []) :
    s.data.length = baseAccountAndTypeLength + s.tlvData.length := by
  obtain ⟨⟨hbase, hbehind⟩, _, _⟩ := open_iff.mp h
  have hsize := S.sizeOf_le
  obtain ⟨hpad, htype, _⟩ := hbehind.resolve_left fun hbare => htlv hbare.2.2
  rw [length_data, hbase, hpad, htype, length_zeroPadding, List.length_singleton]
  simp only [baseAccountLength, baseAccountAndTypeLength] at *
  omega

/-- Without TLV data the account is its base state. -/
theorem Open.bare (h : Open S s) (htlv : s.tlvData = []) : s = ⟨s.base, [], [], []⟩ := by
  obtain ⟨⟨_, hbehind⟩, _, _⟩ := open_iff.mp h
  obtain ⟨base, padding, accountType, tlvData⟩ := s
  obtain ⟨rfl, rfl, rfl⟩ := hbehind.resolve_right fun hext => hext.2.2 htlv
  rfl

/-- Other TLV data, of a length no multisig has. -/
theorem Open.withTlv (h : Open S s) {tlvData : Bytes} (htlv : s.tlvData ≠ [])
    (hnew : tlvData ≠ []) (hlen : baseAccountAndTypeLength + tlvData.length ≠ multisigLen) :
    Open S { s with tlvData } := by
  have hlength := h.length_eq htlv
  obtain ⟨⟨hbase, hbehind⟩, _, hinit⟩ := open_iff.mp h
  obtain ⟨hpad, htype, _⟩ := hbehind.resolve_left fun hbare => htlv hbare.2.2
  refine open_iff.mpr ⟨⟨hbase, Or.inr ⟨hpad, htype, hnew⟩⟩, ?_, hinit⟩
  rw [length_data] at hlength ⊢
  have hheader : s.base.length + s.padding.length + s.accountType.length =
      baseAccountAndTypeLength := by omega
  rw [hheader]
  exact hlen

/-- A write that keeps the length of the TLV data. -/
theorem Open.onTlv (h : Open S s) {α : Type} {call : TlvM α} (hkeeps : Keeps List.length call)
    (hcall : s.onTlv call = .ok s') : Open S s' := by
  obtain ⟨hlen, hs'⟩ := onTlv_length hkeeps hcall
  rw [hs']
  by_cases htlv : s.tlvData = []
  · rw [htlv, List.length_nil] at hlen
    rw [List.eq_nil_of_length_eq_zero hlen, ← htlv]
    exact h
  · have hlength := h.length_eq htlv
    obtain ⟨_, hmultisig, _⟩ := open_iff.mp h
    refine h.withTlv htlv (List.ne_nil_of_length_pos ?_) (by rw [hlen]; omega)
    rw [hlen]
    exact List.length_pos_of_ne_nil htlv

theorem onTlv_length_data {α : Type} {call : TlvM α} (hkeeps : Keeps List.length call)
    (h : s.onTlv call = .ok s') : s'.data.length = s.data.length := by
  obtain ⟨hlen, hs'⟩ := onTlv_length hkeeps h
  rw [length_data, length_data s, hlen, hs']

/-! ### Reallocating the account -/

theorem reallocAccount_eq_ok {n : ℕ} {b' : Bytes} (h : reallocAccount b n = .ok b') :
    b' = b.take n ++ List.replicate (n - b.length) 0 := by
  simp only [reallocAccount, ensure_bind_eq_ok, pure_eq_ok] at h
  exact h.2.symm

/-- Zeroes behind the TLV data. -/
theorem data_append (s : PodStateMut) (z : Bytes) :
    s.data ++ z = PodStateMut.data { s with tlvData := s.tlvData ++ z } := by
  simp only [PodStateMut.data, List.append_assoc]

/-- The end of the TLV data, cut off. -/
theorem Open.take_data (h : Open S s) (htlv : s.tlvData ≠ []) (k : ℕ) :
    s.data.take (baseAccountAndTypeLength + k) =
      PodStateMut.data { s with tlvData := s.tlvData.take k } := by
  have hlength := h.length_eq htlv
  rw [length_data] at hlength
  have hheader : baseAccountAndTypeLength =
      (s.base ++ s.padding ++ s.accountType).length := by
    rw [List.length_append, List.length_append]
    omega
  rw [PodStateMut.data, hheader, List.take_length_add_append]
  rfl

theorem Open.shrink (h : Open S s) {k : ℕ} (hk : 0 < k)
    (hshort : baseAccountAndTypeLength + k < s.data.length)
    (hmultisig : baseAccountAndTypeLength + k ≠ multisigLen) :
    s.data.take (baseAccountAndTypeLength + k) =
      PodStateMut.data { s with tlvData := s.tlvData.take k } ∧
    Open S { s with tlvData := s.tlvData.take k } := by
  have htlv : s.tlvData ≠ [] := by
    intro hnil
    have hdata : s.data.length = S.sizeOf := by
      rw [h.bare hnil, PodStateMut.data_bare]
      exact (open_iff.mp h).1.base
    have hsize := S.sizeOf_le
    simp only [baseAccountLength, baseAccountAndTypeLength] at *
    omega
  have hlength := h.length_eq htlv
  have htake : (s.tlvData.take k).length = k := List.length_take_of_le (by omega)
  exact ⟨h.take_data htlv k, h.withTlv htlv (List.ne_nil_of_length_pos (by omega))
    (by rw [htake]; exact hmultisig)⟩

/-! ### Lengths -/

theorem adjustLenForMultisig_bounds {n : ℕ} (h : baseAccountAndTypeLength < n) :
    baseAccountAndTypeLength < adjustLenForMultisig n ∧ adjustLenForMultisig n ≠ multisigLen := by
  unfold adjustLenForMultisig
  split
  case isTrue => omega
  case isFalse hne => exact ⟨h, hne⟩

/-- The length an extension is written into lies beyond every header. -/
theorem newAccountLen_bounds {v : ExtensionType} {tlvData : Bytes} {newExtensionLen n : ℕ}
    (h : tryGetNewAccountLenForExtensionLen S v tlvData newExtensionLen = .ok n) :
    baseAccountAndTypeLength < n ∧ n ≠ multisigLen := by
  simp only [tryGetNewAccountLenForExtensionLen, bind_eq_ok, pure_eq_ok] at h
  obtain ⟨info, hinfo, rfl⟩ := h
  obtain ⟨m, hm, rfl⟩ := getTlvDataInfo_eq_ok hinfo
  have hold : currentExtensionLen S v tlvData ≤ (encode m).length := by
    unfold currentExtensionLen
    cases hget : getExtensionBytes S v tlvData with
    | error e => exact Nat.zero_le _
    | ok x =>
      have hle := Holds.entry_le_of_get (hm.get_of_getExtensionBytes hget)
      simp only [addTypeAndLengthToLen]
      omega
  refine adjustLenForMultisig_bounds ?_
  simp only [addTypeAndLengthToLen]
  omega

end Bytes
end BarkToken
