import BarkToken.Bytes.Encoding

/-!
# Walks over a TLV area

What the two loops return on entries, and which entries any bytes stand for.
-/

namespace BarkToken
open Fallible

namespace Bytes

theorem length_encode (m : Entries) :
    (encode m).length = (m.map fun e => addTypeAndLengthToLen e.2.length).sum := by
  induction m with
  | nil => rfl
  | cons e m ih =>
    obtain ⟨t, x⟩ := e
    rw [encode, List.length_append, length_entryBytes, List.map_cons, List.sum_cons, ih]
    simp only [addTypeAndLengthToLen]
    omega

/-- The room the entries take once `v` holds `y`. -/
theorem length_encode_put (m : Entries) (v : ExtensionType) (y : Bytes) :
    (encode (m.put v y)).length =
      (encode m).length - ((m.get v).elim 0 fun x => 4 + x.length) + (4 + y.length) := by
  cases hget : m.get v with
  | none =>
    rw [TypedStore.put_of_not_mem (TypedStore.get_eq_none_iff.mp hget), encode_append,
      encode_singleton, List.length_append, length_entryBytes]
    rfl
  | some x =>
    obtain ⟨l, r, rfl, hl⟩ := TypedStore.exists_split_of_get hget
    rw [TypedStore.put_split hl, encode_split, encode_split]
    simp only [List.length_append, length_entryBytes, Option.elim]
    omega

/-! ### Reads, backwards -/

theorem slice_eq_ok {b v : Bytes} {i j : ℕ} (h : slice b i j = .ok v) :
    i ≤ j ∧ j ≤ b.length ∧ v = (b.drop i).take (j - i) := by
  rw [slice, okOr_eq_ok, Buffer.slice] at h
  split at h
  case isTrue hij =>
    cases h
    exact ⟨hij.1, hij.2, rfl⟩
  case isFalse => cases h

theorem slice_of_le {b : Bytes} {i j : ℕ} (hij : i ≤ j) (hj : j ≤ b.length) :
    slice b i j = .ok ((b.drop i).take (j - i)) := by
  rw [slice, Buffer.slice_isSome hij hj, okOr]

theorem fromLeBytes_eq_some {a : Bytes} {n : ℕ} (h : fromLeBytes a = some n) :
    a = toLeBytes n ∧ n < 65536 := by
  match a, h with
  | [lo, hi], h =>
    have hlo : lo.toNat < 256 := lo.toNat_lt
    have hhi : hi.toNat < 256 := hi.toNat_lt
    simp only [fromLeBytes, Option.some.injEq] at h
    have hn : UInt8.ofNat n = lo := by
      apply UInt8.toNat_inj.mp
      rw [UInt8.toNat_ofNat']
      omega
    have hn' : UInt8.ofNat (n / 256) = hi := by
      apply UInt8.toNat_inj.mp
      rw [UInt8.toNat_ofNat']
      omega
    rw [toLeBytes, hn, hn']
    exact ⟨rfl, by omega⟩

theorem fromLeBytes_isSome {a : Bytes} (h : a.length = 2) : ∃ n, fromLeBytes a = some n := by
  match a, h with
  | [lo, hi], _ => exact ⟨_, rfl⟩

theorem tryFromU16_eq_some {n : ℕ} {t : ExtensionType}
    (h : ExtensionType.tryFromU16 n = .ok (some t)) : n = t.toU16 := by
  unfold ExtensionType.tryFromU16 at h
  split at h <;> cases h <;> rfl

theorem tryFromU16_eq_none {n : ℕ} (h : ExtensionType.tryFromU16 n = .ok none) : n = 0 := by
  unfold ExtensionType.tryFromU16 at h
  split at h <;> first | rfl | cases h

theorem tryFromU16_ne_panic (n : ℕ) : ExtensionType.tryFromU16 n ≠ .error .panic := by
  unfold ExtensionType.tryFromU16
  split <;> simp

section Read

variable {b : Bytes} {i : ℕ}

/-- With its two bytes in range, a type is read or refused. -/
theorem readType_ne_panic (h : i + 2 ≤ b.length) :
    readType b (getTlvIndices i) ≠ .error .panic := by
  have hslice := slice_of_le (Nat.le_add_right i 2) h
  have hlen : ((b.drop i).take (i + 2 - i)).length = 2 := by
    rw [List.length_take, List.length_drop]
    omega
  obtain ⟨n, hn⟩ := fromLeBytes_isSome hlen
  simp only [readType, getTlvIndices, hslice, ok_bind, extensionTypeTryFrom, hn, okOr]
  exact tryFromU16_ne_panic n

theorem readLength_of_le (h : i + 4 ≤ b.length) :
    ∃ n, readLength b (getTlvIndices i) = .ok n ∧ n < 65536 ∧
      (b.drop (i + 2)).take 2 = toLeBytes n := by
  have hslice : slice b (i + 2) (i + 2 + 2) = .ok ((b.drop (i + 2)).take 2) := by
    rw [slice_of_le (by omega) (by omega), Nat.add_sub_cancel_left]
  have hlen : ((b.drop (i + 2)).take 2).length = 2 := by
    rw [List.length_take, List.length_drop]
    omega
  obtain ⟨n, hn⟩ := fromLeBytes_isSome hlen
  obtain ⟨hbytes, hlt⟩ := fromLeBytes_eq_some hn
  refine ⟨n, ?_, hlt, hbytes⟩
  simp only [readLength, getTlvIndices, hslice, ok_bind, podFromBytesLength, hn, okOr]

theorem readType_eq_some {t : ExtensionType} (h : readType b (getTlvIndices i) = .ok (some t)) :
    (b.drop i).take 2 = toLeBytes t.toU16 := by
  simp only [readType, getTlvIndices, extensionTypeTryFrom, bind_eq_ok, okOr_eq_ok] at h
  obtain ⟨a, ha, n, hn, ht⟩ := h
  obtain ⟨_, _, rfl⟩ := slice_eq_ok ha
  rw [← tryFromU16_eq_some ht, ← (fromLeBytes_eq_some hn).1, Nat.add_sub_cancel_left]

theorem readType_eq_none (h : readType b (getTlvIndices i) = .ok none) :
    (b.drop i).take 2 = [0, 0] := by
  simp only [readType, getTlvIndices, extensionTypeTryFrom, bind_eq_ok, okOr_eq_ok] at h
  obtain ⟨a, ha, n, hn, ht⟩ := h
  obtain ⟨_, _, rfl⟩ := slice_eq_ok ha
  rw [Nat.add_sub_cancel_left] at hn
  rw [(fromLeBytes_eq_some hn).1, tryFromU16_eq_none ht]
  rfl

end Read

/-! ### From the bytes to the entries -/

/-- An accepted walk has passed over entries, up to where a walk stops. -/
theorem getTlvDataInfoFrom_eq_ok {b : Bytes} {types : List ExtensionType} {start : ℕ}
    {info : TlvDataInfo} (hstart : start ≤ b.length)
    (h : getTlvDataInfoFrom b types start = .ok info) :
    ∃ m, Holds m (b.drop start) ∧ info = ⟨types ++ m.tags, start + (encode m).length⟩ := by
  induction hn : b.length - start using Nat.strong_induction_on generalizing types start with
  | _ n ih =>
    -- the walk stops here: no entry
    have hstop : Ends (b.drop start) → info = ⟨types, start⟩ →
        ∃ m, Holds m (b.drop start) ∧ info = ⟨types ++ m.tags, start + (encode m).length⟩ := by
      intro hend hinfo
      refine ⟨[], ⟨⟨b.drop start, rfl, hend⟩, fun e he => absurd he List.not_mem_nil⟩, ?_⟩
      rw [hinfo, TypedStore.tags_nil, List.append_nil]
      rfl
    have hdrop : (b.drop start).length = b.length - start := List.length_drop
    rw [getTlvDataInfoFrom] at h
    split at h
    case isFalse hlt =>
      cases h
      exact hstop (Or.inl (by omega)) rfl
    case isTrue hlt =>
      split at h
      case isTrue hshort =>
        cases h
        simp only [getTlvIndices] at hshort
        exact hstop (Or.inl (by omega)) rfl
      case isFalse hshort =>
        simp only [getTlvIndices] at hshort
        obtain ⟨type, htype, h⟩ := bind_eq_ok.mp h
        cases type with
        | none =>
          cases h
          refine hstop (Or.inr ⟨(b.drop start).drop 2, ?_⟩) rfl
          have hparts := List.take_append_drop 2 (b.drop start)
          rw [readType_eq_none htype] at hparts
          exact hparts.symm
        | some t =>
          simp only at h
          split at h
          case isTrue => cases h
          case isFalse hroom =>
            simp only [getTlvIndices] at hroom
            obtain ⟨len, hlen, hlt', hbytes⟩ := readLength_of_le (b := b) (i := start) (by omega)
            rw [hlen, ok_bind] at h
            split at h
            case isTrue => cases h
            case isFalse hvalue =>
              simp only [getTlvIndices] at hvalue h
              obtain ⟨m, ⟨⟨tail, htail, hend⟩, hfits⟩, hinfo⟩ :=
                ih _ (by omega) (by omega) h rfl
              have hvlen : ((b.drop (start + 4)).take len).length = len := by
                rw [List.length_take, List.length_drop]
                omega
              -- type, length and value, one behind the other
              have hentry : b.drop start =
                  entryBytes t ((b.drop (start + 4)).take len) ++ b.drop (start + 4 + len) := by
                have htwo := List.take_append_drop 2 (b.drop start)
                have hfour := List.take_append_drop 2 (b.drop (start + 2))
                have hrest := List.take_append_drop len (b.drop (start + 4))
                rw [readType_eq_some htype, List.drop_drop] at htwo
                rw [hbytes, List.drop_drop] at hfour
                rw [List.drop_drop] at hrest
                rw [entryBytes, hvlen, List.append_assoc, hrest, List.append_assoc, hfour, htwo]
              refine ⟨⟨t, (b.drop (start + 4)).take len⟩ :: m, ⟨⟨tail, ?_, hend⟩, ?_⟩, ?_⟩
              · rw [hentry, encode, List.append_assoc, ← htail]
              · intro e he
                rcases List.mem_cons.mp he with rfl | he
                · exact hvlen.trans_lt hlt'
                · exact hfits e he
              · rw [hinfo, encode, List.length_append, length_entryBytes, hvlen,
                  List.append_assoc]
                simp only [TypedStore.tags, List.map_cons, List.singleton_append,
                  TlvDataInfo.mk.injEq, true_and]
                omega

theorem getTlvDataInfo_eq_ok {b : Bytes} {info : TlvDataInfo} (h : getTlvDataInfo b = .ok info) :
    ∃ m, Holds m b ∧ info = ⟨m.tags, (encode m).length⟩ := by
  obtain ⟨m, hm, hinfo⟩ := getTlvDataInfoFrom_eq_ok (Nat.zero_le _) h
  refine ⟨m, hm, ?_⟩
  rw [hinfo, List.nil_append, Nat.zero_add]

/-! ### No index out of range -/

theorem getTlvDataInfoFrom_ne_panic (b : Bytes) (types : List ExtensionType) (start : ℕ) :
    getTlvDataInfoFrom b types start ≠ .error .panic := by
  induction hn : b.length - start using Nat.strong_induction_on generalizing types start with
  | _ n ih =>
    rw [getTlvDataInfoFrom]
    split
    case isFalse =>
      intro h
      cases h
    case isTrue hlt =>
      split
      case isTrue =>
        intro h
        cases h
      case isFalse hshort =>
        simp only [getTlvIndices] at hshort
        have htype := readType_ne_panic (b := b) (i := start) (by omega)
        cases hread : readType b (getTlvIndices start) with
        | error e =>
          rw [error_bind]
          intro h
          cases h
          exact htype hread
        | ok type =>
          rw [ok_bind]
          cases type with
          | none =>
            intro h
            cases h
          | some t =>
            simp only
            split
            case isTrue =>
              intro h
              cases h
            case isFalse hroom =>
              simp only [getTlvIndices] at hroom
              obtain ⟨len, hlen, _, _⟩ := readLength_of_le (b := b) (i := start) (by omega)
              rw [hlen, ok_bind]
              split
              case isTrue =>
                intro h
                cases h
              case isFalse => exact ih _ (by simp only [getTlvIndices]; omega) _ _ rfl

theorem getExtensionIndicesFrom_ne_panic (v : ExtensionType) (init : Bool) (b : Bytes)
    (start : ℕ) : getExtensionIndicesFrom v init b start ≠ .error .panic := by
  induction hn : b.length - start using Nat.strong_induction_on generalizing start with
  | _ n ih =>
    rw [getExtensionIndicesFrom]
    split
    case isFalse =>
      intro h
      cases h
    case isTrue hlt =>
      split
      case isTrue =>
        intro h
        cases h
      case isFalse hroom =>
        simp only [getTlvIndices] at hroom
        have htype := readType_ne_panic (b := b) (i := start) (by omega)
        cases hread : readType b (getTlvIndices start) with
        | error e =>
          rw [error_bind]
          intro h
          cases h
          exact htype hread
        | ok type =>
          rw [ok_bind]
          cases type with
          | none =>
            simp only
            split <;> simp
          | some t =>
            simp only
            split
            case isTrue =>
              intro h
              cases h
            case isFalse =>
              split
              case isTrue =>
                intro h
                cases h
              case isFalse =>
                obtain ⟨len, hlen, _, _⟩ := readLength_of_le (b := b) (i := start) (by omega)
                rw [hlen, ok_bind]
                exact ih _ (by simp only [getTlvIndices]; omega) _ rfl

/-- A scan ends at an entry of the type it looks for or, looking for room, at
an empty spot; either way with a type and a length in range. -/
theorem getExtensionIndicesFrom_eq_ok {v : ExtensionType} {init : Bool} {b : Bytes} {start : ℕ}
    {ix : TlvIndices} (h : getExtensionIndicesFrom v init b start = .ok ix) :
    ∃ i, ix = getTlvIndices i ∧ i + 4 ≤ b.length ∧
      (readType b ix = .ok (some v) ∨ (init = true ∧ readType b ix = .ok none)) := by
  induction hn : b.length - start using Nat.strong_induction_on generalizing start with
  | _ n ih =>
    rw [getExtensionIndicesFrom] at h
    split at h
    case isFalse => cases h
    case isTrue hlt =>
      split at h
      case isTrue => cases h
      case isFalse hroom =>
        simp only [getTlvIndices] at hroom
        obtain ⟨type, htype, h⟩ := bind_eq_ok.mp h
        cases type with
        | none =>
          simp only at h
          split at h
          case isTrue hinit =>
            cases h
            exact ⟨start, rfl, by omega, Or.inr ⟨hinit, htype⟩⟩
          case isFalse => cases h
        | some t =>
          simp only at h
          split at h
          case isTrue htv =>
            cases h
            exact ⟨start, rfl, by omega, Or.inl (htv ▸ htype)⟩
          case isFalse =>
            split at h
            case isTrue => cases h
            case isFalse =>
              obtain ⟨len, _, h⟩ := bind_eq_ok.mp h
              exact ih _ (by simp only [getTlvIndices]; omega) h rfl

/-! ### On entries -/

namespace Holds

variable {S : BaseState} {m : Entries} {b : Bytes} {v : ExtensionType}

theorem used_le (h : Holds m b) : (encode m).length ≤ b.length := by
  obtain ⟨tail, hb, _⟩ := h.bytes
  rw [hb, List.length_append]
  exact Nat.le_add_right _ _

theorem take_used (h : Holds m b) : b.take (encode m).length = encode m := by
  obtain ⟨tail, hb, _⟩ := h.bytes
  rw [hb, List.take_left]

theorem getTlvDataInfo_eq (h : Holds m b) :
    getTlvDataInfo b = .ok ⟨m.tags, (encode m).length⟩ := by
  obtain ⟨tail, hb, hend⟩ := h.bytes
  have hscan := getTlvDataInfoFrom_encode [] [] hend h.fits
  rw [List.nil_append, ← hb, List.nil_append] at hscan
  exact hscan

theorem length_lt_of_get (h : Holds m b) {x : Bytes} (hget : m.get v = some x) :
    x.length < 65536 := by
  obtain ⟨l, r, hm, _⟩ := TypedStore.exists_split_of_get hget
  exact h.fits ⟨v, x⟩ (by rw [hm]; exact List.mem_append_right _ List.mem_cons_self)

theorem entry_le_of_get {x : Bytes} (hget : m.get v = some x) :
    4 + x.length ≤ (encode m).length := by
  obtain ⟨l, r, rfl, _⟩ := TypedStore.exists_split_of_get hget
  rw [encode_split, List.length_append, List.length_append, length_entryBytes]
  omega

/-- Where the first entry of a type starts. -/
theorem getExtensionIndices_present {l r : Entries} {x : Bytes}
    (h : Holds (l ++ ⟨v, x⟩ :: r) b) (hl : v ∉ TypedStore.tags l)
    (hbase : ∀ t ∈ TypedStore.tags l, t.accountType = v.accountType) (init : Bool) :
    getExtensionIndices v b init = .ok (getTlvIndices (encode l).length) := by
  obtain ⟨tail, hb, _⟩ := h.bytes
  have hx : x.length < 65536 := h.fits ⟨v, x⟩ (List.mem_append_right _ List.mem_cons_self)
  have hfits : ∀ e ∈ l, e.2.length < 65536 := fun e he => h.fits e (List.mem_append_left _ he)
  have hparts : b = encode l ++ entryBytes v x ++ (encode r ++ tail) := by
    rw [hb, encode_split]
    simp only [List.append_assoc]
  have hskip := getExtensionIndicesFrom_skip (i := init) []
    (entryBytes v x ++ (encode r ++ tail)) hfits hl hbase
  rw [List.nil_append, ← List.append_assoc, ← hparts] at hskip
  refine hskip.trans ?_
  rw [hparts, getExtensionIndicesFrom_entry _ v _ hx, if_pos rfl]

/-- Where a scan for a type without an entry ends. -/
theorem getExtensionIndices_absent (h : Holds m b)
    (hbase : ∀ t ∈ m.tags, t.accountType = v.accountType) (hget : m.get v = none)
    (init : Bool) :
    getExtensionIndices v b init =
      if b.length < (encode m).length + 4 then .error ProgramError.invalidAccountData
      else if init then .ok (getTlvIndices (encode m).length)
      else .error TokenError.extensionNotFound := by
  obtain ⟨tail, hb, hend⟩ := h.bytes
  have hlen : b.length = (encode m).length + tail.length := by
    rw [hb, List.length_append]
  have hskip := getExtensionIndicesFrom_skip (i := init) [] tail h.fits
    (TypedStore.get_eq_none_iff.mp hget) hbase
  have hstop := getExtensionIndicesFrom_end (v := v) (i := init) (encode m) hend
  rw [List.nil_append, ← hb] at hskip
  rw [← hb] at hstop
  refine (hskip.trans hstop).trans ?_
  by_cases hroom : b.length < (encode m).length + 4
  · rw [if_pos (by omega), if_pos hroom]
  · rw [if_neg (by omega), if_neg hroom]

/-- A lookup finds the first entry of its type. -/
theorem getExtensionBytes_split {l r : Entries} {x : Bytes} (h : Holds (l ++ ⟨v, x⟩ :: r) b)
    (hl : v ∉ TypedStore.tags l) (hbase : ∀ t ∈ TypedStore.tags l, t.accountType = v.accountType)
    (hv : v.accountType = S.accountType) : getExtensionBytes S v b = .ok x := by
  have hx : x.length < 65536 :=
    h.fits ⟨v, x⟩ (List.mem_append_right _ List.mem_cons_self)
  obtain ⟨tail, hb, _⟩ := h.bytes
  have hix := h.getExtensionIndices_present hl hbase false
  have hparts : b = encode l ++ entryBytes v x ++ (encode r ++ tail) := by
    rw [hb, encode_split]
    simp only [List.append_assoc]
  have hlen : b.length = (encode l).length + (4 + x.length) + (encode r ++ tail).length := by
    rw [hparts, List.length_append, List.length_append, length_entryBytes]
  have hlength : readLength b (getTlvIndices (encode l).length) = .ok x.length := by
    rw [hparts]
    exact readLength_entry _ v x _ hx
  have hvalue : slice b (getTlvIndices (encode l).length).valueStart
      ((getTlvIndices (encode l).length).valueStart + x.length) = .ok x := by
    rw [hparts]
    exact slice_value_entry _ v x _
  have hend : (getTlvIndices (encode l).length).valueStart + x.length ≤ b.length := by
    simp only [getTlvIndices]
    omega
  rw [getExtensionBytes, ensure, if_pos hv, ok_bind, hix, ok_bind, hlength, ok_bind]
  simp only [ensure, if_pos hend, ok_bind]
  exact hvalue

/-- Every lookup, its errors included, by the entries and the room behind them. -/
theorem getExtensionBytes_eq (h : Holds m b)
    (hbase : ∀ t ∈ m.tags, t.accountType = S.accountType) (v : ExtensionType) :
    getExtensionBytes S v b =
      match m.get v with
      | some x => .ok x
      | none =>
        if v.accountType ≠ S.accountType ∨ b.length < (encode m).length + 4 then
          .error ProgramError.invalidAccountData
        else .error TokenError.extensionNotFound := by
  cases hget : m.get v with
  | some x =>
    have hv : v.accountType = S.accountType := hbase v (TypedStore.mem_tags_iff.mpr (hget ▸ rfl))
    obtain ⟨l, r, rfl, hl⟩ := TypedStore.exists_split_of_get hget
    exact h.getExtensionBytes_split hl (fun t ht =>
      (hbase t (by rw [TypedStore.tags_append]; exact List.mem_append_left _ ht)).trans hv.symm) hv
  | none =>
    by_cases hv : v.accountType = S.accountType
    · have hix := h.getExtensionIndices_absent (fun t ht => (hbase t ht).trans hv.symm) hget false
      rw [getExtensionBytes, ensure, if_pos hv, ok_bind, hix]
      by_cases hroom : b.length < (encode m).length + 4
      · simp only [error_bind, hroom, or_true, if_true]
      · simp only [Bool.false_eq_true, if_false, error_bind, hroom, hv, ne_eq,
          not_true_eq_false, or_self]
    · rw [getExtensionBytes, ensure, if_neg hv, error_bind]
      simp only [ne_eq, hv, not_false_eq_true, true_or, if_true]

/-- The bytes a lookup finds. -/
theorem getExtensionBytes_eq_ok (h : Holds m b)
    (hbase : ∀ t ∈ m.tags, t.accountType = S.accountType) {v : ExtensionType} {x : Bytes} :
    getExtensionBytes S v b = .ok x ↔ m.get v = some x := by
  rw [h.getExtensionBytes_eq hbase]
  cases hget : m.get v with
  | some y => simp
  | none =>
    simp only [reduceCtorEq, iff_false]
    split <;> simp

end Holds

/-- A scan for an entry ends at the first one of its type. -/
theorem getExtensionIndicesFrom_found {v : ExtensionType} {p tail : Bytes} {m : Entries}
    {ix : TlvIndices} (hend : Ends tail) (hfits : ∀ e ∈ m, e.2.length < 65536)
    (h : getExtensionIndicesFrom v false (p ++ encode m ++ tail) p.length = .ok ix) :
    ∃ l x r, m = l ++ ⟨v, x⟩ :: r ∧ v ∉ TypedStore.tags l ∧
      ∀ t ∈ TypedStore.tags l, t.accountType = v.accountType := by
  induction m generalizing p with
  | nil =>
    rw [encode, List.append_nil, getExtensionIndicesFrom_end p hend] at h
    split at h
    · cases h
    · simp at h
  | cons e m ih =>
    obtain ⟨t, x⟩ := e
    have hx : x.length < 65536 := hfits ⟨t, x⟩ List.mem_cons_self
    have hparts : p ++ encode (⟨t, x⟩ :: m) ++ tail =
        p ++ entryBytes t x ++ (encode m ++ tail) := by
      simp only [encode, List.append_assoc]
    rw [hparts, getExtensionIndicesFrom_entry p t _ hx] at h
    split at h
    case isTrue htv =>
      subst htv
      exact ⟨[], x, m, rfl, List.not_mem_nil, fun u hu => absurd hu List.not_mem_nil⟩
    case isFalse hne =>
      split at h
      case isTrue => cases h
      case isFalse hbase =>
        rw [← List.append_assoc] at h
        obtain ⟨l, y, r, rfl, hl, hltypes⟩ :=
          ih (fun e he => hfits e (List.mem_cons_of_mem _ he)) h
        refine ⟨⟨t, x⟩ :: l, y, r, rfl, ?_, ?_⟩
        · intro hmem
          rcases List.mem_cons.mp hmem with rfl | hmem
          · exact hne rfl
          · exact hl hmem
        · intro u hu
          rcases List.mem_cons.mp hu with rfl | hu
          · exact (not_not.mp hbase).symm
          · exact hltypes u hu

/-- An entry found is one of those the walk passes, whatever their base. -/
theorem Holds.get_of_getExtensionBytes {S : BaseState} {m : Entries} {b : Bytes}
    {v : ExtensionType} {x : Bytes} (hm : Holds m b) (h : getExtensionBytes S v b = .ok x) :
    m.get v = some x := by
  obtain ⟨tail, hb, hend⟩ := hm.bytes
  have hscan := h
  rw [getExtensionBytes, ensure_bind_eq_ok] at hscan
  obtain ⟨hv, hscan⟩ := hscan
  obtain ⟨ix, hix, hscan⟩ := bind_eq_ok.mp hscan
  have hfrom : getExtensionIndicesFrom v false ([] ++ encode m ++ tail) 0 = .ok ix := by
    rw [List.nil_append, ← hb]
    exact hix
  obtain ⟨l, y, r, rfl, hl, hbase⟩ := getExtensionIndicesFrom_found (p := []) hend hm.fits hfrom
  rw [hm.getExtensionBytes_split hl hbase hv, Except.ok.injEq] at h
  rw [TypedStore.get_append_of_not_mem hl, ← h]
  rw [TypedStore.get, dif_pos rfl]

end Bytes
end BarkToken
