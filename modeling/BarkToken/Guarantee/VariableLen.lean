import BarkToken.Bytes.Lengths
import BarkToken.Foundation.Avoids

/-!
# Variable-length extension writes (extension/mod.rs:371-461, 612-688, 1438-1497)

Growing reallocates the account and then the TLV entry, shrinking does the
opposite, and a buffer with room to spare is written and then cut. All three end
at the length predicted, with the value in place and the rest as it was.
-/

namespace BarkToken
open Fallible Buffered

namespace Bytes

/-- Account data that unpacks to `s`, with the distinct entries `m` and zeroes
behind them. -/
structure ValidState (S : BaseState) (m : Entries) (b : Bytes) (s : PodStateMut) : Prop where
  unpack : unpackMut S b = .ok s
  layout : Layout S m s.tlvData

variable {S : BaseState} {m : Entries} {b b' : Bytes} {s s' : PodStateMut} {v : ExtensionType}
  {V : Type} {type : VariableLenType V} {x : V}

/-- The length `m` takes with `y` in the place of `v`. -/
def lenWith (m : Entries) (v : ExtensionType) (y : Bytes) : ℕ :=
  adjustLenForMultisig (baseAccountAndTypeLength + (encode (m.put v y)).length)

theorem encode_put_pos (m : Entries) (v : ExtensionType) (y : Bytes) :
    4 ≤ (encode (m.put v y)).length := by
  rw [length_encode_put]
  omega

theorem lenWith_bounds (m : Entries) (v : ExtensionType) (y : Bytes) :
    baseAccountAndTypeLength + (encode (m.put v y)).length ≤ lenWith m v y ∧
      baseAccountAndTypeLength < lenWith m v y ∧ lenWith m v y ≠ multisigLen := by
  have hpos := encode_put_pos m v y
  have hle := le_adjustLenForMultisig (baseAccountAndTypeLength + (encode (m.put v y)).length)
  exact ⟨hle, adjustLenForMultisig_bounds (by omega)⟩

namespace ValidState

theorem open_ (h : ValidState S m b s) : Open S s := unpackMut_open h.unpack

theorem data_eq (h : ValidState S m b s) : s.data = b := (unpackMut_eq_ok.mp h.unpack).2.1

theorem long (h : ValidState S m b s) (htlv : s.tlvData ≠ []) :
    ¬ b.length ≤ baseAccountLength := by
  have hlength := h.open_.length_eq htlv
  rw [h.data_eq] at hlength
  rw [hlength]
  simp only [baseAccountLength, baseAccountAndTypeLength]
  omega

/-- More room, in an account that has TLV data. -/
theorem grow (h : ValidState S m b s) (htlv : s.tlvData ≠ []) {n : ℕ} (hn : n ≠ multisigLen)
    (hlen : b.length < n) :
    ValidState S m (b.take n ++ List.replicate (n - b.length) 0)
      { s with tlvData := s.tlvData ++ List.replicate (n - b.length) 0 } := by
  have hlength := h.open_.length_eq htlv
  rw [h.data_eq] at hlength
  have hopen : Open S { s with tlvData := s.tlvData ++ List.replicate (n - b.length) 0 } :=
    h.open_.withTlv htlv (List.append_ne_nil_of_left_ne_nil htlv _)
      (by rw [List.length_append, List.length_replicate]; omega)
  refine ⟨?_, h.layout.append_zeroes _⟩
  rw [List.take_of_length_le hlen.le, ← h.data_eq, data_append, h.data_eq]
  exact hopen

/-- More room, in an account that had none: the account type is set. -/
theorem grow_bare (h : ValidState S m b s) (htlv : s.tlvData = []) {n k : ℕ} (hk : 0 < k)
    (hnk : n = baseAccountAndTypeLength + k) (hn : n ≠ multisigLen) :
    m = [] ∧ b.length = S.sizeOf ∧
    ∃ c, setAccountType S (b.take n ++ List.replicate (n - b.length) 0) = .ok c ∧
      ValidState S [] c ⟨s.base, zeroPadding S, [S.accountType.toU8], List.replicate k 0⟩ := by
  have hsize := S.sizeOf_le
  have hopen := h.open_
  obtain ⟨hshaped, _, hinit⟩ := open_iff.mp hopen
  have hb : b = s.base := by
    have hdata := h.data_eq
    rw [hopen.bare htlv, PodStateMut.data_bare] at hdata
    exact hdata.symm
  have hlen : b.length = S.sizeOf := hb ▸ hshaped.base
  have hm : m = [] := by
    have hlayout := h.layout
    rw [htlv] at hlayout
    exact hlayout.eq_nil_of_nil
  have hlong : b.length ≤ n := by
    simp only [baseAccountLength, baseAccountAndTypeLength] at *
    omega
  -- the new bytes: padding, the account type, and TLV data
  have hzeroes : List.replicate (n - b.length) (0 : UInt8) =
      zeroPadding S ++ 0 :: List.replicate k 0 := by
    rw [zeroPadding, ← List.replicate_succ, ← List.replicate_add]
    congr 1
    simp only [baseAccountLength, baseAccountAndTypeLength] at *
    omega
  have htlv' : List.replicate k (0 : UInt8) ≠ [] :=
    List.ne_nil_of_length_pos (by rw [List.length_replicate]; exact hk)
  have hlength : ∀ y : UInt8,
      (s.base ++ (zeroPadding S ++ y :: List.replicate k 0)).length = n := by
    intro y
    have hpad := congrArg List.length hzeroes
    simp only [List.length_append, List.length_cons, List.length_replicate] at hpad ⊢
    rw [← hb]
    omega
  refine ⟨hm, hlen, s.base ++ (zeroPadding S ++ S.accountType.toU8 :: List.replicate k 0), ?_,
    ⟨?_, .zeroes S k⟩⟩
  · rw [List.take_of_length_le hlong, hzeroes, hb]
    refine setAccountType_of_uninitialized hshaped.base htlv' ?_ (by rw [hlength]; exact hn)
    rintro rfl
    exact hinit
  · rw [← PodStateMut.data_extended]
    refine open_iff.mpr ⟨⟨hshaped.base, Or.inr ⟨rfl, rfl, htlv'⟩⟩, ?_, hinit⟩
    rw [PodStateMut.data_extended, hlength]
    exact hn

/-- Less room, down to what the entries need. -/
theorem shrink (h : ValidState S m b s) {k : ℕ} (hk : 0 < k)
    (hlen : baseAccountAndTypeLength + k < b.length)
    (hn : baseAccountAndTypeLength + k ≠ multisigLen) (hroom : (encode m).length ≤ k) :
    ValidState S m (b.take (baseAccountAndTypeLength + k))
      { s with tlvData := s.tlvData.take k } := by
  rw [← h.data_eq] at hlen ⊢
  obtain ⟨hdata, hopen⟩ := h.open_.shrink hk hlen hn
  refine ⟨?_, h.layout.take hroom⟩
  rw [hdata]
  exact hopen

end ValidState

/-! ### The entry -/

theorem realloc_layout (h : Layout S m s.tlvData)
    (hrun : s.onTlv (reallocVariableLenExtension v (type.pack x)) = .ok s') :
    Layout S (m.put v (type.pack x).serialized) s'.tlvData := by
  obtain ⟨_, tlvData, hcall, rfl⟩ := onTlv_eq_ok.mp hrun
  obtain ⟨_, hlength, hcall⟩ := reads_bind_eq_ok.mp hcall
  rw [type.getPackedLen_eq] at hlength
  cases hlength
  obtain ⟨slice, t, hrealloc, hpack⟩ := run_bind_eq_ok.mp hcall
  obtain ⟨_, y, _, hborrows⟩ := h.realloc_eq_ok hrealloc
  have hlen : (type.pack x).getPackedLen =
      .ok (resize y (type.pack x).serialized.length).length := by
    rw [length_resize, type.getPackedLen_eq]
  exact (hborrows.pack_eq_ok hlen hpack).1.layout

theorem init_layout (h : Layout S m s.tlvData)
    (hrun : s.onTlv (initVariableLenExtension S v (type.pack x) false) = .ok s') :
    Layout S (m.put v (type.pack x).serialized) s'.tlvData := by
  obtain ⟨_, tlvData, hcall, rfl⟩ := onTlv_eq_ok.mp hrun
  obtain ⟨_, hlength, hcall⟩ := reads_bind_eq_ok.mp hcall
  rw [type.getPackedLen_eq] at hlength
  cases hlength
  obtain ⟨slice, t, halloc, hpack⟩ := run_bind_eq_ok.mp hcall
  obtain ⟨_, _, _, _, y, hy, _, hborrows⟩ := h.alloc_eq_ok halloc
  have hlen : (type.pack x).getPackedLen = .ok y.length := by
    rw [hy, type.getPackedLen_eq]
  exact (hborrows.pack_eq_ok hlen hpack).1.layout

/-- What either call on the TLV data leaves. -/
theorem ValidState.write (h : ValidState S m b s)
    (hrun : s.onTlv (if (m.get v).isSome then reallocVariableLenExtension v (type.pack x)
      else initVariableLenExtension S v (type.pack x) false) = .ok s') :
    ValidState S (m.put v (type.pack x).serialized) s'.data s' ∧ s'.base = s.base ∧
      s'.data.length = b.length := by
  have hkeeps : Keeps List.length (if (m.get v).isSome then
      reallocVariableLenExtension v (type.pack x)
      else initVariableLenExtension S v (type.pack x) false) := by
    split
    · exact reallocVariableLenExtension_keeps v _
    · exact initVariableLenExtension_keeps S v _ false
  have hopen := h.open_.onTlv hkeeps hrun
  have hlen := onTlv_length_data hkeeps hrun
  rw [h.data_eq] at hlen
  refine ⟨⟨hopen, ?_⟩, by rw [(onTlv_length hkeeps hrun).2], hlen⟩
  split at hrun
  case isTrue => exact realloc_layout h.layout hrun
  case isFalse => exact init_layout h.layout hrun

/-! ### The account -/

theorem ValidState.exists_iff (h : ValidState S m b s) (v : ExtensionType) :
    (getExtensionBytes S v s.tlvData).toBool = (m.get v).isSome := by
  rw [h.layout.holds.getExtensionBytes_eq h.layout.base]
  cases m.get v with
  | some y => rfl
  | none =>
    simp only
    split <;> rfl

theorem ValidState.newAccountLen (h : ValidState S m b s) (v : ExtensionType) :
    tryGetNewAccountLenForVariableLenExtension S v s.tlvData (type.pack x) =
      .ok (lenWith m v (type.pack x).serialized) := by
  rw [tryGetNewAccountLenForVariableLenExtension, type.getPackedLen_eq, ok_bind]
  exact h.layout.tryGetNewAccountLen_eq v _

/-- The state after a write. -/
theorem ValidState.written (h : ValidState S m b s) {overwrite : Bool}
    (hrun : allocAndSerializeVariableLen S v (type.pack x) overwrite b = .ok b') :
    ∃ s', ValidState S (m.put v (type.pack x).serialized) b' s' ∧ s'.base = s.base ∧
      b'.length = lenWith m v (type.pack x).serialized := by
  have hp : Bytes.unpack S b = .ok ⟨podFromBytes S s.base, s.tlvData⟩ :=
    unpack_eq_ok.mpr ⟨s, h.unpack, rfl⟩
  obtain ⟨hroom, hlong, hmultisig⟩ := lenWith_bounds m v (type.pack x).serialized
  obtain ⟨n, hn⟩ : ∃ n, n = lenWith m v (type.pack x).serialized := ⟨_, rfl⟩
  rw [← hn] at hroom hlong hmultisig ⊢
  simp only [allocAndSerializeVariableLen, hp, ok_bind, h.newAccountLen, h.exists_iff, ← hn,
    ensure_bind_eq_ok] at hrun
  obtain ⟨_, hrun⟩ := hrun
  obtain ⟨k, hk⟩ := Nat.exists_eq_add_of_lt hlong
  have hk : n = baseAccountAndTypeLength + (k + 1) := hk
  split at hrun
  case isTrue hgrow =>
    obtain ⟨buffer, hrealloc, hrun⟩ := bind_eq_ok.mp hrun
    have hbuffer := reallocAccount_eq_ok hrealloc
    have hlen : buffer.length = n := by
      rw [hbuffer, List.length_append, List.length_take, List.length_replicate]
      omega
    by_cases htlv : s.tlvData = []
    · obtain ⟨rfl, hsize, c, hset, hstate⟩ := h.grow_bare htlv (Nat.succ_pos k) hk hmultisig
      have hshort : b.length ≤ baseAccountLength := hsize ▸ S.sizeOf_le
      rw [← hbuffer] at hset
      have habsent : ¬ (TypedStore.get ([] : Entries) v).isSome = true := Bool.false_ne_true
      rw [if_neg habsent, if_pos hshort, hset, ok_bind, hstate.unpack, ok_bind] at hrun
      obtain ⟨s', hwrite, hrun⟩ := bind_eq_ok.mp hrun
      cases hrun
      obtain ⟨hvalid, hbase, hlen'⟩ := hstate.write hwrite
      refine ⟨s', hvalid, hbase, ?_⟩
      rw [hlen', setAccountType_length hset, hlen]
    · have hstate := h.grow htlv hmultisig hgrow
      have hshort := h.long htlv
      rw [← hbuffer] at hstate
      have hwrite : ∃ s', PodStateMut.onTlv
          { s with tlvData := s.tlvData ++ List.replicate (n - b.length) 0 }
          (if (m.get v).isSome then reallocVariableLenExtension v (type.pack x)
            else initVariableLenExtension S v (type.pack x) false) = .ok s' ∧ s'.data = b' := by
        by_cases hexists : (m.get v).isSome
        · rw [if_pos hexists, hstate.unpack, ok_bind] at hrun
          obtain ⟨s', hwrite, hrun⟩ := bind_eq_ok.mp hrun
          cases hrun
          rw [if_pos hexists]
          exact ⟨s', hwrite, rfl⟩
        · rw [if_neg hexists, if_neg hshort, ok_bind, hstate.unpack, ok_bind] at hrun
          obtain ⟨s', hwrite, hrun⟩ := bind_eq_ok.mp hrun
          cases hrun
          rw [if_neg hexists]
          exact ⟨s', hwrite, rfl⟩
      obtain ⟨s', hwrite, rfl⟩ := hwrite
      obtain ⟨hvalid, hbase, hlen'⟩ := hstate.write hwrite
      exact ⟨s', hvalid, hbase, hlen'.trans hlen⟩
  case isFalse hgrow =>
    rw [h.unpack, ok_bind] at hrun
    obtain ⟨s', hwrite, hrun⟩ := bind_eq_ok.mp hrun
    have hwrite' : s.onTlv (if (m.get v).isSome then reallocVariableLenExtension v (type.pack x)
        else initVariableLenExtension S v (type.pack x) false) = .ok s' := by
      rw [← hwrite]
      split <;> rfl
    obtain ⟨hvalid, hbase, hlen⟩ := h.write hwrite'
    split at hrun
    case isTrue hremoved =>
      rw [reallocAccount_eq_ok hrun, Nat.sub_eq_zero_of_le (by omega), List.replicate_zero,
        List.append_nil]
      have hcut := hvalid.shrink (k := k + 1) (Nat.succ_pos k) (by omega) (by omega) (by omega)
      refine ⟨{ s' with tlvData := s'.tlvData.take (k + 1) }, hk ▸ hcut, hbase, ?_⟩
      rw [List.length_take]
      omega
    case isFalse hkept =>
      cases hrun
      exact ⟨s', hvalid, hbase, by omega⟩

/-! ### No step of a write fails with `ExtensionAlreadyInitialized` -/

section Avoids

/-- The error `alloc` keeps for an entry it must not overwrite. -/
abbrev alreadyInitialized : Fault := TokenError.extensionAlreadyInitialized

theorem slice_avoids (b : Bytes) (i j : ℕ) : Avoids alreadyInitialized (slice b i j) :=
  .okOr fun h => nomatch h

theorem write_avoids (b : Bytes) (i : ℕ) (y : Bytes) : Avoids alreadyInitialized (write b i y) :=
  .okOr fun h => nomatch h

theorem readLength_avoids (b : Bytes) (ix : TlvIndices) :
    Avoids alreadyInitialized (readLength b ix) :=
  .bind (slice_avoids _ _ _) fun _ _ => .okOr fun h => nomatch h

theorem lengthTryFrom_avoids (n : ℕ) : Avoids alreadyInitialized (lengthTryFrom n) :=
  .bind (.ensure fun h => nomatch h) fun _ _ => .pure _

theorem borrow_avoids (i j : ℕ) (b : Bytes) : AvoidsFrom alreadyInitialized b (borrow i j) :=
  .reads_bind (slice_avoids _ _ _) fun _ _ => .pure _

/-- Packing into a slice of the right length. -/
theorem Borrows.pack_avoids {y : Bytes} {slice : SliceMut} {t : Bytes}
    (h : Borrows S m v y slice t) (hy : y.length = (type.pack x).serialized.length) :
    AvoidsFrom alreadyInitialized t (slice.pack (type.pack x)) := by
  refine .reads_bind (.bind (slice_avoids _ _ _) fun dst hdst => ?_) fun packed _ => ?_
  · have hdst' := Except.ok.inj (h.slice_eq.symm.trans hdst)
    subst hdst'
    exact .of_eq_ok (type.packIntoSlice_eq x y hy)
  · exact .check_bind (fun _ h => nomatch h) fun _ => .writes (write_avoids _ _ _)

/-- An entry that exists is resized. -/
theorem realloc_avoids (h : Layout S m b) {y : Bytes} (hget : m.get v = some y) :
    AvoidsFrom alreadyInitialized b (reallocVariableLenExtension v (type.pack x)) := by
  obtain ⟨l, r, k, _, _, _, hix⟩ := h.present hget
  refine .reads_bind (.of_eq_ok (type.getPackedLen_eq x)) fun n hn => ?_
  rw [type.getPackedLen_eq] at hn
  cases hn
  refine .bind ?_ fun slice t hrun => ?_
  · refine .reads_bind (.of_eq_ok (hix false)) fun ix _ => ?_
    refine .reads_bind (.of_eq_ok h.holds.getTlvDataInfo_eq) fun info _ => ?_
    refine .reads_bind (readLength_avoids _ _) fun n _ => ?_
    refine .reads_bind (.ensure fun h => nomatch h) fun _ _ => ?_
    refine .reads_bind (lengthTryFrom_avoids _) fun bytes _ => ?_
    refine .writes_bind (write_avoids _ _ _) fun t₁ _ => ?_
    refine .writes_bind (.okOr fun h => nomatch h) fun t₂ _ => ?_
    refine .writes_bind ?_ fun t₃ _ => borrow_avoids _ _ _
    split
    · exact .okOr fun h => nomatch h
    · exact .okOr fun h => nomatch h
    · exact .ok _
  · obtain ⟨_, z, _, hborrows⟩ := h.realloc_eq_ok hrun
    exact hborrows.pack_avoids (length_resize z _)

/-- A new entry finds an empty spot. -/
theorem init_avoids (h : Layout S m b) (hget : m.get v = none) :
    AvoidsFrom alreadyInitialized b (initVariableLenExtension S v (type.pack x) false) := by
  refine .reads_bind (.of_eq_ok (type.getPackedLen_eq x)) fun n hn => ?_
  rw [type.getPackedLen_eq] at hn
  cases hn
  refine .bind ?_ fun slice t hrun => ?_
  · refine .check_bind (fun _ h => nomatch h) fun hv => ?_
    have hix := h.holds.getExtensionIndices_absent (fun t ht => (h.base t ht).trans hv.symm)
      hget true
    refine .reads_bind ?_ fun ix hix' => ?_
    · rw [hix]
      exact .ite (fun _ => .error fun h => nomatch h) fun _ => .ok _
    refine .reads_bind (slice_avoids _ _ _) fun rest _ => ?_
    refine .check_bind (fun _ h => nomatch h) fun _ => ?_
    have hnone : readType b ix = .ok none := by
      obtain ⟨tail, hb, hend⟩ := h.holds.bytes
      rw [hix] at hix'
      split at hix'
      case isTrue => cases hix'
      case isFalse hroom =>
        cases hix'
        rw [hb] at hroom ⊢
        rw [List.length_append] at hroom
        exact readType_end _ hend (by omega)
    refine .reads_bind (.of_eq_ok hnone) fun type htype => ?_
    rw [hnone] at htype
    cases htype
    refine .check_bind (fun habsurd => absurd (Or.inl rfl) habsurd) fun _ => ?_
    refine .writes_bind (write_avoids _ _ _) fun t₁ _ => ?_
    refine .reads_bind (readLength_avoids _ _) fun n _ => ?_
    refine .check_bind (fun _ h => nomatch h) fun _ => ?_
    refine .reads_bind (lengthTryFrom_avoids _) fun bytes _ => ?_
    exact .writes_bind (write_avoids _ _ _) fun t₂ _ => borrow_avoids _ _ _
  · obtain ⟨_, _, _, _, y, hy, _, hborrows⟩ := h.alloc_eq_ok hrun
    exact hborrows.pack_avoids hy

theorem reallocAccount_avoids (b : Bytes) (n : ℕ) :
    Avoids alreadyInitialized (reallocAccount b n) :=
  .bind (.ensure fun h => nomatch h) fun _ _ => .pure _

theorem onTlv_avoids {α : Type} {call : TlvM α}
    (h : AvoidsFrom alreadyInitialized s.tlvData call) :
    Avoids alreadyInitialized (s.onTlv call) := by
  rw [AvoidsFrom] at h
  rw [PodStateMut.onTlv]
  rcases hrun : call.run s.tlvData with ⟨e | a, t⟩
  · rw [hrun] at h
    exact .error fun heq => h (congrArg _ heq)
  · exact .ok _

theorem ValidState.realloc_avoids (h : ValidState S m b s) (hexists : (m.get v).isSome = true) :
    Avoids alreadyInitialized (s.onTlv (reallocVariableLenExtension v (type.pack x))) := by
  obtain ⟨y, hget⟩ := Option.isSome_iff_exists.mp hexists
  exact onTlv_avoids (Bytes.realloc_avoids h.layout hget)

theorem ValidState.init_avoids (h : ValidState S m b s) (habsent : ¬ (m.get v).isSome = true) :
    Avoids alreadyInitialized (s.onTlv (initVariableLenExtension S v (type.pack x) false)) :=
  onTlv_avoids (Bytes.init_avoids h.layout (Option.not_isSome_iff_eq_none.mp habsent))

theorem ValidState.alreadyInitialized_iff (h : ValidState S m b s) (overwrite : Bool) :
    allocAndSerializeVariableLen S v (type.pack x) overwrite b = .error alreadyInitialized ↔
      (m.get v).isSome = true ∧ overwrite = false := by
  have hp : Bytes.unpack S b = .ok ⟨podFromBytes S s.base, s.tlvData⟩ :=
    unpack_eq_ok.mpr ⟨s, h.unpack, rfl⟩
  obtain ⟨_, hlong, hmultisig⟩ := lenWith_bounds m v (type.pack x).serialized
  obtain ⟨n, hn⟩ : ∃ n, n = lenWith m v (type.pack x).serialized := ⟨_, rfl⟩
  rw [← hn] at hlong hmultisig
  obtain ⟨k, hk⟩ := Nat.exists_eq_add_of_lt hlong
  have hk : n = baseAccountAndTypeLength + (k + 1) := hk
  simp only [allocAndSerializeVariableLen, hp, ok_bind, h.newAccountLen, h.exists_iff, ← hn]
  by_cases hover : (m.get v).isSome = true ∧ overwrite = false
  · rw [ensure, if_neg (not_not.mpr hover), error_bind]
    exact iff_of_true rfl hover
  · rw [ensure, if_pos hover, ok_bind]
    refine iff_of_false ?_ hover
    show Avoids alreadyInitialized _
    refine .ite (fun hgrow => .bind (reallocAccount_avoids b n) fun buffer hrealloc => ?_)
      fun hgrow => .bind (.of_eq_ok h.unpack) fun s₁ hs₁ => ?_
    · have hbuffer := reallocAccount_eq_ok hrealloc
      by_cases htlv : s.tlvData = []
      · obtain ⟨rfl, hsize, c, hset, hstate⟩ := h.grow_bare htlv (Nat.succ_pos k) hk hmultisig
        rw [← hbuffer] at hset
        have habsent : ¬ (TypedStore.get ([] : Entries) v).isSome = true := Bool.false_ne_true
        have hshort : b.length ≤ baseAccountLength := hsize ▸ S.sizeOf_le
        refine .ite (fun hexists => absurd hexists habsent) fun _ => ?_
        rw [if_pos hshort, hset, ok_bind, hstate.unpack, ok_bind]
        exact .bind (hstate.init_avoids habsent) fun _ _ => .pure _
      · have hstate := h.grow htlv hmultisig hgrow
        rw [← hbuffer] at hstate
        refine .ite (fun hexists => ?_) fun habsent => ?_
        · rw [hstate.unpack, ok_bind]
          exact .bind (hstate.realloc_avoids hexists) fun _ _ => .pure _
        · rw [if_neg (h.long htlv), ok_bind, hstate.unpack, ok_bind]
          exact .bind (hstate.init_avoids habsent) fun _ _ => .pure _
    · have hs₁' := Except.ok.inj (h.unpack.symm.trans hs₁)
      subst hs₁'
      refine .bind (.ite h.realloc_avoids h.init_avoids) fun s' _ => ?_
      exact .ite (fun _ => reallocAccount_avoids _ _) fun _ => .pure _

end Avoids

/-- Every write of a variable-length extension, by its outcome. -/
theorem variable_len_write (type : VariableLenType V) {S : BaseState} {m : Entries} {b : Bytes}
    {s : PodStateMut} (h : ValidState S m b s) (v : ExtensionType) (x : V) (overwrite : Bool) :
    (∀ b', allocAndSerializeVariableLen S v (type.pack x) overwrite b = .ok b' →
      ∃ p, unpack S b' = .ok p ∧
        tryGetAccountLen S p.tlvData = .ok b'.length ∧
        tryGetNewAccountLenForVariableLenExtension S v s.tlvData (type.pack x) = .ok b'.length ∧
        b'.length ≠ multisigLen ∧
        getVariableLenExtension type S v p.tlvData = .ok x ∧
        (∀ u, u ≠ v → ∀ y, getExtensionBytes S u p.tlvData = .ok y ↔
          getExtensionBytes S u s.tlvData = .ok y) ∧
        b'.take S.sizeOf = b.take S.sizeOf ∧
        ∃ s', ValidState S (m.put v (type.pack x).serialized) b' s') ∧
    (allocAndSerializeVariableLen S v (type.pack x) overwrite b =
        .error TokenError.extensionAlreadyInitialized ↔
      (∃ y, getExtensionBytes S v s.tlvData = .ok y) ∧ overwrite = false) := by
  refine ⟨fun b' hrun => ?_, ?_⟩
  · obtain ⟨s', hvalid, hbase, hlen⟩ := h.written hrun
    have hget : ∀ u y, getExtensionBytes S u s'.tlvData = .ok y ↔
        (m.put v (type.pack x).serialized).get u = some y := fun u y =>
      hvalid.layout.holds.getExtensionBytes_eq_ok hvalid.layout.base
    have hne : m.put v (type.pack x).serialized ≠ [] := by
      intro hnil
      have hpos := encode_put_pos m v (type.pack x).serialized
      rw [hnil] at hpos
      exact absurd hpos (by decide)
    refine ⟨⟨podFromBytes S s'.base, s'.tlvData⟩, unpack_eq_ok.mpr ⟨s', hvalid.unpack, rfl⟩,
      ?_, ?_, ?_, ?_, ?_, ?_, s', hvalid⟩
    · rw [hvalid.layout.tryGetAccountLen_eq hne, hlen]
      rfl
    · rw [h.newAccountLen, hlen]
    · rw [hlen]
      exact (lenWith_bounds m v _).2.2
    · have hx := (hget v _).mpr (TypedStore.get_put_self m v (type.pack x).serialized)
      rw [getVariableLenExtension, hx, ok_bind, type.unpack_pack]
    · intro u hu y
      rw [hget, h.layout.holds.getExtensionBytes_eq_ok h.layout.base,
        TypedStore.get_put_of_ne m _ hu]
    · rw [← hvalid.data_eq, ← h.data_eq, take_data (open_iff.mp hvalid.open_).1,
        take_data (open_iff.mp h.open_).1, hbase]
  · rw [h.alreadyInitialized_iff overwrite, Option.isSome_iff_exists]
    simp only [h.layout.holds.getExtensionBytes_eq_ok h.layout.base]

/-- Values that are their own serialized form. -/
def rawBytes : VariableLenType Bytes where
  pack x := {
    serialized := x
    getPackedLen := .ok x.length
    packIntoSlice := fun dst => do
      ensure (dst.length = x.length) Fault.panic
      return x
    packedLen_eq := fun _ h => (Except.ok.inj h).symm
    pack_eq := fun _ _ _ h => by
      rw [ensure_bind_eq_ok, pure_eq_ok] at h
      exact h.2.symm }
  unpackFromSlice data := .ok data
  getPackedLen_eq _ := rfl
  packIntoSlice_eq _ _ h := ensure_bind_eq_ok.mpr ⟨h, rfl⟩
  unpack_pack _ := rfl

/-- A bare mint receives its metadata. -/
theorem variable_len_write_metadata :
    ∃ p, unpack .mint (List.replicate 45 0 ++ 1 :: List.replicate 36 0 ++ List.replicate 83 0 ++
        [1, 19, 0, 3, 0, 7, 8, 9]) = .ok p ∧
      tryGetAccountLen .mint p.tlvData = .ok 173 ∧
      getVariableLenExtension rawBytes .mint .tokenMetadata p.tlvData = .ok [7, 8, 9] := by
  have hunpack : unpackMut .mint (List.replicate 45 0 ++ 1 :: List.replicate 36 0) =
      .ok ⟨List.replicate 45 0 ++ 1 :: List.replicate 36 0, [], [], []⟩ := by decide +kernel
  have hrun : allocAndSerializeVariableLen .mint .tokenMetadata (rawBytes.pack [7, 8, 9]) false
      (List.replicate 45 0 ++ 1 :: List.replicate 36 0) =
      .ok (List.replicate 45 0 ++ 1 :: List.replicate 36 0 ++ List.replicate 83 0 ++
        [1, 19, 0, 3, 0, 7, 8, 9]) := by decide +kernel
  obtain ⟨p, hp, hlen, _, _, hget, _⟩ := (variable_len_write rawBytes
    ⟨hunpack, .zeroes .mint 0⟩ .tokenMetadata [7, 8, 9] false).1 _ hrun
  exact ⟨p, hp, hlen, hget⟩

end Bytes
end BarkToken
