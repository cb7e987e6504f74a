import BarkToken.Bytes.Walk

/-!
# Writes to a laid out area

Every write of the TLV area, as one on the entries the area holds: `alloc`
appends an entry of zeroes or hands out the one there is, `realloc` resizes one,
and what a caller then writes through the slice is the new value.
-/

namespace BarkToken
open Fallible Buffered

namespace Bytes

/-- `x` with its end cut off, or zeroes behind it. -/
def resize (x : Bytes) (length : ℕ) : Bytes :=
  x.take length ++ List.replicate (length - x.length) 0

@[simp] theorem length_resize (x : Bytes) (length : ℕ) : (resize x length).length = length := by
  rw [resize, List.length_append, List.length_take, List.length_replicate]
  omega

theorem lengthTryFrom_eq_ok {n : ℕ} {a : Bytes} :
    lengthTryFrom n = .ok a ↔ n < 65536 ∧ toLeBytes n = a := by
  rw [lengthTryFrom, ensure_bind_eq_ok, pure_eq_ok]

/-- `s` borrows from `t` the value `x` of the entry of type `v`. -/
def Borrows (S : BaseState) (m : Entries) (v : ExtensionType) (x : Bytes) (s : SliceMut)
    (t : Bytes) : Prop :=
  ∃ p r, t = p ++ x ++ r ∧ s = ⟨p.length, p.length + x.length⟩ ∧
    ∀ y : Bytes, y.length = x.length → Layout S (m.put v y) (p ++ y ++ r)

/-! ### The parts of the buffer -/

namespace Layout

variable {S : BaseState} {m : Entries} {b : Bytes} {v : ExtensionType}

theorem used_le (h : Layout S m b) : (encode m).length ≤ b.length := h.holds.used_le

theorem eq_zeroes (h : Layout S m b) :
    b = encode m ++ List.replicate (b.length - (encode m).length) 0 := by
  obtain ⟨k, hb⟩ := h.bytes
  have hk : b.length - (encode m).length = k := by
    rw [hb, List.length_append, List.length_replicate, Nat.add_sub_cancel_left]
  rw [hk]
  exact hb

/-- All zeroes hold no entries. -/
theorem zeroes (S : BaseState) (n : ℕ) : Layout S [] (List.replicate n 0) where
  bytes := ⟨n, rfl⟩
  fits _ he := absurd he List.not_mem_nil
  nodup := List.nodup_nil
  base _ ht := absurd ht List.not_mem_nil

/-- Nothing but zeroes lies behind the entries. -/
theorem zero_behind (h : Layout S m b) {i : ℕ} (hi : (encode m).length ≤ i)
    (hlt : i < b.length) : b[i]? = some 0 := by
  have hlen := h.used_le
  rw [h.eq_zeroes, List.getElem?_append_right hi, List.getElem?_replicate, if_pos (by omega)]

/-- A rewritten area, once its bytes are known. -/
theorem put (h : Layout S m b) {x c : Bytes} {k : ℕ} (hv : v.accountType = S.accountType)
    (hx : x.length < 65536) (hc : c = encode (m.put v x) ++ List.replicate k 0) :
    Layout S (m.put v x) c where
  bytes := ⟨k, hc⟩
  fits e he := by
    rcases TypedStore.mem_put he with rfl | he
    · exact hx
    · exact h.fits e he
  nodup := TypedStore.nodup_tags_put h.nodup v x
  base t ht := by
    rcases TypedStore.mem_tags_put.mp ht with rfl | ht
    · exact hv
    · exact h.base t ht

theorem accountType_of_get (h : Layout S m b) {x : Bytes} (hget : m.get v = some x) :
    v.accountType = S.accountType :=
  h.base v (TypedStore.mem_tags_iff.mpr (hget ▸ rfl))

theorem getExtensionBytes_toOption (h : Layout S m b) (v : ExtensionType) :
    (getExtensionBytes S v b).toOption = m.get v := by
  rw [h.holds.getExtensionBytes_eq h.base]
  cases m.get v with
  | some x => rfl
  | none =>
    simp only
    split <;> rfl

/-- Where an entry stands, and that every scan for its type ends there. -/
theorem present (h : Layout S m b) {x : Bytes} (hget : m.get v = some x) :
    ∃ l r k, m = l ++ ⟨v, x⟩ :: r ∧ v ∉ TypedStore.tags l ∧
      b = encode l ++ entryBytes v x ++ (encode r ++ List.replicate k 0) ∧
      ∀ init, getExtensionIndices v b init = .ok (getTlvIndices (encode l).length) := by
  have hv := h.accountType_of_get hget
  obtain ⟨l, r, hm, hl⟩ := TypedStore.exists_split_of_get hget
  obtain ⟨k, hb⟩ := h.bytes
  have hbase : ∀ t ∈ TypedStore.tags l, t.accountType = v.accountType := fun t ht =>
    (h.base t (by rw [hm, TypedStore.tags_append]; exact List.mem_append_left _ ht)).trans hv.symm
  refine ⟨l, r, k, hm, hl, ?_, (hm ▸ h.holds).getExtensionIndices_present hl hbase⟩
  rw [hb, hm, encode_split]
  simp only [List.append_assoc]

/-- The value of an entry, borrowed. -/
theorem borrows_entry (h : Layout S m b) {l r : Entries} {x : Bytes} (k : ℕ)
    (hv : v.accountType = S.accountType) (hx : x.length < 65536)
    (hput : m.put v x = l ++ ⟨v, x⟩ :: r) (hl : v ∉ TypedStore.tags l) :
    Borrows S m v x
      ⟨(getTlvIndices (encode l).length).valueStart,
        (getTlvIndices (encode l).length).valueStart + x.length⟩
      (encode l ++ entryBytes v x ++ (encode r ++ List.replicate k 0)) := by
  refine ⟨encode l ++ toLeBytes v.toU16 ++ toLeBytes x.length, encode r ++ List.replicate k 0,
    ?_, ?_, ?_⟩
  · exact entry_value _ v x _
  · simp only [getTlvIndices, List.length_append, length_toLeBytes]
  · intro y hy
    refine h.put hv (hy ▸ hx) (k := k) ?_
    have hputy : m.put v y = l ++ ⟨v, y⟩ :: r := by
      rw [← TypedStore.put_put m v x y, hput, TypedStore.put_split hl]
    rw [hputy, encode_split, ← hy, ← entry_value]
    simp only [List.append_assoc]

/-! ### alloc -/

/-- Where no entry has the type, `alloc` appends one of zeroes. -/
theorem alloc_absent (h : Layout S m b) (hv : v.accountType = S.accountType)
    (hget : m.get v = none) {length : ℕ} (hlt : length < 65536) (overwrite : Bool)
    (hroom : (encode m).length + (4 + length) ≤ b.length) :
    ∃ s t, (alloc S v length overwrite).run b = (.ok s, t) ∧ t.length = b.length ∧
      Borrows S m v (List.replicate length 0) s t := by
  have hix := h.holds.getExtensionIndices_absent (fun t ht => (h.base t ht).trans hv.symm) hget true
  rw [if_neg (by omega), if_pos rfl] at hix
  obtain ⟨k, hb⟩ := h.bytes
  have hk : 4 + length ≤ k := by
    rw [hb, List.length_append, List.length_replicate] at hroom
    omega
  -- the empty spot: type, length and value to be
  have hzeroes : (List.replicate k 0 : Bytes) = List.replicate 2 0 ++ List.replicate 2 0 ++
      List.replicate length 0 ++ List.replicate (k - (4 + length)) 0 := by
    simp only [← List.replicate_add]
    congr 1
    omega
  have hrest : slice b (encode m).length b.length = .ok (List.replicate k 0) := by
    have happ := slice_append (p := encode m) (v := List.replicate k 0) (r := []) rfl
      (j := b.length) (by rw [hb, List.length_append])
    rwa [List.append_nil, ← hb] at happ
  have htype : readType b (getTlvIndices (encode m).length) = .ok none := by
    rw [hb]
    exact readType_end _ (ends_replicate k) (by rw [List.length_replicate]; omega)
  have hwrite : write b (encode m).length (toLeBytes v.toU16) =
      .ok (encode m ++ toLeBytes v.toU16 ++ (List.replicate 2 0 ++
        List.replicate length 0 ++ List.replicate (k - (4 + length)) 0)) := by
    have happ := write_append (p := encode m) (v := List.replicate 2 0) (w := toLeBytes v.toU16)
      (r := List.replicate 2 0 ++ List.replicate length 0 ++ List.replicate (k - (4 + length)) 0)
      rfl rfl
    rw [← happ, hb, hzeroes]
    simp only [List.append_assoc]
  obtain ⟨t₁, ht₁⟩ : ∃ t, t = encode m ++ toLeBytes v.toU16 ++ (List.replicate 2 0 ++
      List.replicate length 0 ++ List.replicate (k - (4 + length)) 0) := ⟨_, rfl⟩
  rw [← ht₁] at hwrite
  have hlen₁ : (encode m).length + 4 ≤ t₁.length := by
    rw [ht₁]
    simp only [List.length_append, length_toLeBytes, List.length_replicate]
    omega
  obtain ⟨n, hn, _, _⟩ := readLength_of_le hlen₁
  have hwrite' : write t₁ ((encode m).length + 2) (toLeBytes length) =
      .ok (encode m ++ entryBytes v (List.replicate length 0) ++
        (encode [] ++ List.replicate (k - (4 + length)) 0)) := by
    have happ := write_append (p := encode m ++ toLeBytes v.toU16) (v := List.replicate 2 0)
      (w := toLeBytes length)
      (r := List.replicate length 0 ++ List.replicate (k - (4 + length)) 0)
      (i := (encode m).length + 2) (by rw [List.length_append, length_toLeBytes]) rfl
    have hentry := entry_length (encode m) v (List.replicate length 0)
      (encode [] ++ List.replicate (k - (4 + length)) 0)
    rw [hentry, List.length_replicate, encode, List.nil_append, ← happ, ht₁]
    simp only [List.append_assoc]
  have hput : m.put v (List.replicate length 0) = m ++ ⟨v, List.replicate length 0⟩ :: [] :=
    TypedStore.put_of_not_mem (TypedStore.get_eq_none_iff.mp hget) _
  have hborrows := h.borrows_entry (k - (4 + length)) hv (by rw [List.length_replicate]; exact hlt)
    hput (TypedStore.get_eq_none_iff.mp hget)
  have hvalue := slice_value_entry (encode m) v (List.replicate length 0)
    (encode [] ++ List.replicate (k - (4 + length)) 0)
  rw [List.length_replicate] at hborrows hvalue
  obtain ⟨t₂, ht₂⟩ : ∃ t, t = encode m ++ entryBytes v (List.replicate length 0) ++
      (encode [] ++ List.replicate (k - (4 + length)) 0) := ⟨_, rfl⟩
  rw [← ht₂] at hwrite' hborrows hvalue
  have hlen : addTypeAndLengthToLen length ≤ (List.replicate k (0 : UInt8)).length := by
    rw [List.length_replicate, addTypeAndLengthToLen]
    omega
  have hmatch : ¬ (overwrite = true ∧ none = some v ∧ n ≠ length) := by simp
  refine ⟨_, t₂, ?_, ?_, hborrows⟩
  · unfold alloc borrow
    rw [bind_of_ok (check_of_pos hv b), bind_of_ok (reads_of_ok (s := b) hix),
      bind_of_ok (reads_of_ok (s := b) hrest), bind_of_ok (check_of_pos hlen b),
      bind_of_ok (reads_of_ok (s := b) htype), bind_of_ok (check_of_pos (Or.inl rfl) b),
      bind_of_ok (writes_of_ok (s := b) hwrite), bind_of_ok (reads_of_ok (s := t₁) hn),
      bind_of_ok (check_of_pos hmatch t₁),
      bind_of_ok (reads_of_ok (s := t₁) (lengthTryFrom_eq_ok.mpr ⟨hlt, rfl⟩)),
      bind_of_ok (writes_of_ok (s := t₁) hwrite'), bind_of_ok (reads_of_ok (s := t₂) hvalue),
      run_pure]
  · rw [ht₂, hb, hzeroes]
    simp only [List.length_append, length_entryBytes, List.length_replicate, encode,
      List.length_nil]
    omega

/-- Where an entry has the type and the length, `alloc` hands it out. -/
theorem alloc_present (h : Layout S m b) {x : Bytes} (hget : m.get v = some x) :
    ∃ s, (alloc S v x.length true).run b = (.ok s, b) ∧ Borrows S m v x s b := by
  have hv := h.accountType_of_get hget
  have hx := h.holds.length_lt_of_get hget
  obtain ⟨l, r, k, hm, hl, hparts, hix⟩ := h.present hget
  have hput : m.put v x = l ++ ⟨v, x⟩ :: r := by rw [hm, TypedStore.put_split hl]
  have hborrows := h.borrows_entry k hv hx hput hl
  have htype := readType_entry (encode l) v x (encode r ++ List.replicate k 0)
  have hlength := readLength_entry (encode l) v x (encode r ++ List.replicate k 0) hx
  have hvalue := slice_value_entry (encode l) v x (encode r ++ List.replicate k 0)
  have hrest : slice b (encode l).length b.length =
      .ok (entryBytes v x ++ (encode r ++ List.replicate k 0)) := by
    have happ := slice_append (p := encode l)
      (v := entryBytes v x ++ (encode r ++ List.replicate k 0)) (r := []) rfl (j := b.length)
      (by rw [hparts]; simp only [List.length_append]; omega)
    rwa [List.append_nil, ← List.append_assoc, ← hparts] at happ
  -- both writes put back what is there
  have hwrite : write b (encode l).length (toLeBytes v.toU16) = .ok b := by
    rw [hparts, entry_type]
    exact write_append rfl rfl
  have hwrite' : write b ((encode l).length + 2) (toLeBytes x.length) = .ok b := by
    rw [hparts, entry_length]
    exact write_append (by rw [List.length_append, length_toLeBytes]) rfl
  rw [← hparts] at hborrows htype hlength hvalue
  have hlen : addTypeAndLengthToLen x.length ≤
      (entryBytes v x ++ (encode r ++ List.replicate k 0)).length := by
    rw [List.length_append, length_entryBytes, addTypeAndLengthToLen]
    omega
  have hmatch : ¬ (true = true ∧ some v = some v ∧ x.length ≠ x.length) := fun h => h.2.2 rfl
  refine ⟨_, ?_, hborrows⟩
  unfold alloc borrow
  rw [bind_of_ok (check_of_pos hv b), bind_of_ok (reads_of_ok (s := b) (hix true)),
    bind_of_ok (reads_of_ok (s := b) hrest), bind_of_ok (check_of_pos hlen b),
    bind_of_ok (reads_of_ok (s := b) htype), bind_of_ok (check_of_pos (Or.inr rfl) b),
    bind_of_ok (writes_of_ok (s := b) hwrite), bind_of_ok (reads_of_ok (s := b) hlength),
    bind_of_ok (check_of_pos hmatch b),
    bind_of_ok (reads_of_ok (s := b) (lengthTryFrom_eq_ok.mpr ⟨hx, rfl⟩)),
    bind_of_ok (writes_of_ok (s := b) hwrite'), bind_of_ok (reads_of_ok (s := b) hvalue), run_pure]

/-- What every successful `alloc` does. -/
theorem alloc_eq_ok (h : Layout S m b) {length : ℕ} {overwrite : Bool} {s : SliceMut} {t : Bytes}
    (hrun : (alloc S v length overwrite).run b = (.ok s, t)) :
    v.accountType = S.accountType ∧ length < 65536 ∧ t.length = b.length ∧
      (m.get v = none ∨ overwrite = true) ∧
      ∃ x, x.length = length ∧ x = (m.get v).getD (List.replicate length 0) ∧
        Borrows S m v x s t := by
  have hinv := hrun
  simp only [alloc, check_bind_eq_ok, reads_bind_eq_ok, writes_bind_eq_ok,
    lengthTryFrom_eq_ok] at hinv
  obtain ⟨hv, ix, hix, rest, hrest, hroom, type, htype, hover, t₁, hwrite, n, hn, hmatch, _,
    ⟨hlt, _⟩, _⟩ := hinv
  refine ⟨hv, hlt, ?_⟩
  cases hget : m.get v with
  | none =>
    have hix' := h.holds.getExtensionIndices_absent (fun t ht => (h.base t ht).trans hv.symm)
      hget true
    rw [hix] at hix'
    by_cases hfour : b.length < (encode m).length + 4
    · rw [if_pos hfour] at hix'
      cases hix'
    · rw [if_neg hfour, if_pos rfl] at hix'
      cases hix'
      have hlen : (encode m).length + (4 + length) ≤ b.length := by
        rw [(slice_eq_ok hrest).2.2, List.length_take, List.length_drop] at hroom
        simp only [getTlvIndices, addTypeAndLengthToLen] at hroom
        omega
      obtain ⟨s', t', hrun', hlen', hborrows⟩ := h.alloc_absent hv hget hlt overwrite hlen
      rw [hrun, Prod.mk.injEq, Except.ok.injEq] at hrun'
      obtain ⟨rfl, rfl⟩ := hrun'
      exact ⟨hlen', Or.inl rfl, _, List.length_replicate, rfl, hborrows⟩
  | some x =>
    have hx := h.holds.length_lt_of_get hget
    obtain ⟨l, r, k, hm, hl, hparts, hix'⟩ := h.present hget
    have hplace := Except.ok.inj (hix.symm.trans (hix' true))
    subst hplace
    have htype' := readType_entry (encode l) v x (encode r ++ List.replicate k 0)
    rw [← hparts, htype, Except.ok.injEq] at htype'
    subst htype'
    have hoverwrite : overwrite = true := hover.resolve_left (by simp)
    have hsame : write b (encode l).length (toLeBytes v.toU16) = .ok b := by
      rw [hparts, entry_type]
      exact write_append rfl rfl
    have ht₁ : t₁ = b := Except.ok.inj (hwrite.symm.trans hsame)
    have hlength := readLength_entry (encode l) v x (encode r ++ List.replicate k 0) hx
    rw [← hparts, ← ht₁, hn, Except.ok.injEq] at hlength
    have hxlen : x.length = length := by
      by_contra hne
      exact hmatch ⟨hoverwrite, rfl, hlength ▸ hne⟩
    subst hxlen
    subst hoverwrite
    obtain ⟨s', hrun', hborrows⟩ := h.alloc_present hget
    rw [hrun, Prod.mk.injEq, Except.ok.injEq] at hrun'
    obtain ⟨rfl, rfl⟩ := hrun'
    exact ⟨rfl, Or.inr rfl, x, rfl, rfl, hborrows⟩

/-! ### realloc -/

/-- The zeroes that `realloc` writes where the length of an entry changes. -/
def fillGap (valueStart oldLength length tlvLen : ℕ) (b : Bytes) : Except Fault Bytes :=
  match compare oldLength length with
  | .gt => fill b (tlvLen - (oldLength - length)) tlvLen 0
  | .lt => fill b (valueStart + oldLength) (valueStart + length) 0
  | .eq => .ok b

/-- The bytes `realloc` leaves, for an entry resized where it stands. -/
theorem realloc_present (h : Layout S m b) {x : Bytes} (hget : m.get v = some x) {length : ℕ}
    (hlt : length < 65536)
    (hroom : x.length < length → (encode m).length + (length - x.length) ≤ b.length) :
    ∃ s t, (realloc v length).run b = (.ok s, t) ∧ t.length = b.length ∧
      Borrows S m v (resize x length) s t := by
  have hv := h.accountType_of_get hget
  have hx := h.holds.length_lt_of_get hget
  obtain ⟨l, r, k, hm, hl, hparts, hix⟩ := h.present hget
  have hinfo := h.holds.getTlvDataInfo_eq
  have hlength := readLength_entry (encode l) v x (encode r ++ List.replicate k 0) hx
  rw [← hparts] at hlength
  have hused : (encode m).length = (encode l).length + 2 + 2 + x.length + (encode r).length := by
    rw [hm, encode_split]
    simp only [List.length_append, length_entryBytes]
    omega
  have hblen : b.length = (encode m).length + k := by
    rw [hused, hparts]
    simp only [List.length_append, length_entryBytes, List.length_replicate]
    omega
  -- the new length, in the place of the old one
  have hp : (encode l ++ toLeBytes v.toU16 ++ toLeBytes length).length = (encode l).length + 2 + 2 := by
    simp only [List.length_append, length_toLeBytes]
  obtain ⟨p, hpdef⟩ : ∃ p, p = encode l ++ toLeBytes v.toU16 ++ toLeBytes length := ⟨_, rfl⟩
  rw [← hpdef] at hp
  have hwrite : write b ((encode l).length + 2) (toLeBytes length) =
      .ok (p ++ x ++ encode r ++ List.replicate k 0) := by
    have happ := write_append (p := encode l ++ toLeBytes v.toU16) (v := toLeBytes x.length)
      (w := toLeBytes length) (r := x ++ (encode r ++ List.replicate k 0))
      (i := (encode l).length + 2) (by rw [List.length_append, length_toLeBytes]) rfl
    rw [hparts, entry_length, happ, hpdef]
    simp only [List.append_assoc]
  have hput : m.put v (resize x length) = l ++ ⟨v, resize x length⟩ :: r := by
    rw [hm, TypedStore.put_split hl]
  -- the entries behind move, and zeroes fill the gap
  have hmove : ∃ u k', copyWithin (p ++ x ++ encode r ++ List.replicate k 0)
        ((encode l).length + 2 + 2 + x.length) (encode m).length
        ((encode l).length + 2 + 2 + length) = .ok u ∧
      fillGap ((encode l).length + 2 + 2) x.length length (encode m).length u =
        .ok (p ++ resize x length ++ encode r ++ List.replicate k' 0) ∧
      (encode m).length + k + x.length = (encode m).length + k' + length := by
    rcases Nat.lt_trichotomy x.length length with hcmp | hcmp | hcmp
    · have hgrow := Buffer.copyWithin_fill_grow (p := p) (o := x) (m := encode r)
        (z := List.replicate k 0) (n := length) (0 : UInt8) hcmp.le
        (by rw [List.length_replicate]; have := hroom hcmp; omega)
      obtain ⟨u, hcopy, hfill⟩ := Option.bind_eq_some_iff.mp hgrow
      refine ⟨u, k - (length - x.length), ?_, ?_, ?_⟩
      · rw [copyWithin, hused, ← hp, hcopy, okOr]
      · rw [fillGap, Nat.compare_eq_lt.mpr hcmp]
        simp only
        rw [fill, ← hp, hfill, okOr, resize, List.take_of_length_le hcmp.le, List.drop_replicate]
      · have := hroom hcmp
        omega
    · subst hcmp
      have hsame := Buffer.copyWithin_fill_shrink (p := p) (o := x) (m := encode r)
        (z := List.replicate k 0) (n := x.length) (0 : UInt8) le_rfl
      obtain ⟨u, hcopy, hfill⟩ := Option.bind_eq_some_iff.mp hsame
      refine ⟨u, k, ?_, ?_, rfl⟩
      · rw [copyWithin, hused, ← hp, hcopy, okOr]
      · rw [fillGap, Nat.compare_eq_eq.mpr rfl]
        simp only
        rw [← Buffer.fill_self hfill, Nat.sub_self, resize, Nat.sub_self]
        simp
    · have hshrink := Buffer.copyWithin_fill_shrink (p := p) (o := x) (m := encode r)
        (z := List.replicate k 0) (n := length) (0 : UInt8) hcmp.le
      obtain ⟨u, hcopy, hfill⟩ := Option.bind_eq_some_iff.mp hshrink
      refine ⟨u, x.length - length + k, ?_, ?_, by omega⟩
      · rw [copyWithin, hused, ← hp, hcopy, okOr]
      · rw [fillGap, Nat.compare_eq_gt.mpr hcmp]
        simp only
        have hstart : (encode m).length - (x.length - length) =
            p.length + length + (encode r).length := by omega
        rw [fill, hstart, hused, ← hp, hfill, okOr, resize, Nat.sub_eq_zero_of_le hcmp.le,
          List.replicate_zero, List.append_nil, ← List.replicate_add]
  obtain ⟨u, k', hcopy, hfill, hk'⟩ := hmove
  obtain ⟨t₁, ht₁⟩ : ∃ t, t = p ++ x ++ encode r ++ List.replicate k 0 := ⟨_, rfl⟩
  rw [← ht₁] at hwrite hcopy
  have hborrows := h.borrows_entry k' hv (by rw [length_resize]; exact hlt) hput hl
  have hvalue := slice_value_entry (encode l) v (resize x length)
    (encode r ++ List.replicate k' 0)
  obtain ⟨t, ht⟩ : ∃ t, t = encode l ++ entryBytes v (resize x length) ++
      (encode r ++ List.replicate k' 0) := ⟨_, rfl⟩
  have hfinal : p ++ resize x length ++ encode r ++ List.replicate k' 0 = t := by
    rw [ht, entry_value, hpdef, length_resize]
    simp only [List.append_assoc]
  rw [hfinal, fillGap] at hfill
  rw [← ht, length_resize] at hborrows hvalue
  have hcheck : ensure (x.length < length →
      (encode m).length + (length - x.length) ≤ b.length)
      (ProgramError.invalidAccountData : Fault) = .ok () := ensure_eq_ok.mpr hroom
  refine ⟨_, t, ?_, ?_, hborrows⟩
  · unfold realloc borrow
    rw [bind_of_ok (reads_of_ok (s := b) (hix false)), bind_of_ok (reads_of_ok (s := b) hinfo),
      bind_of_ok (reads_of_ok (s := b) hlength), bind_of_ok (reads_of_ok (s := b) hcheck),
      bind_of_ok (reads_of_ok (s := b) (lengthTryFrom_eq_ok.mpr ⟨hlt, rfl⟩)),
      bind_of_ok (writes_of_ok (s := b) hwrite), bind_of_ok (writes_of_ok (s := t₁) hcopy),
      bind_of_ok (writes_of_ok (s := u) hfill), bind_of_ok (reads_of_ok (s := t) hvalue), run_pure]
  · rw [hblen, ht]
    simp only [List.length_append, length_entryBytes, length_resize, List.length_replicate]
    omega

/-- A scan that is not to initialise fails where no entry has the type. -/
theorem getExtensionIndices_missing (h : Layout S m b) (hget : m.get v = none) :
    ∃ e, getExtensionIndices v b false = .error e := by
  by_cases hv : v.accountType = S.accountType
  · have hix := h.holds.getExtensionIndices_absent (fun t ht => (h.base t ht).trans hv.symm)
      hget false
    rw [hix]
    split
    · exact ⟨_, rfl⟩
    · exact ⟨_, rfl⟩
  · obtain ⟨k, hb⟩ := h.bytes
    cases m with
    | nil =>
      have hend := getExtensionIndicesFrom_end (v := v) (i := false) [] (ends_replicate k)
      rw [encode, List.nil_append] at hb
      rw [List.nil_append, ← hb] at hend
      split at hend
      · exact ⟨_, hend⟩
      · exact ⟨_, hend⟩
    | cons e m =>
      obtain ⟨t, x⟩ := e
      have hx : x.length < 65536 := h.fits ⟨t, x⟩ List.mem_cons_self
      have ht : t.accountType = S.accountType := h.base t List.mem_cons_self
      have hentry := getExtensionIndicesFrom_entry (v := v) (i := false) [] t
        (encode m ++ List.replicate k 0) hx
      have hparts : b = entryBytes t x ++ (encode m ++ List.replicate k 0) := by
        rw [hb, encode, List.append_assoc]
      have htv : t ≠ v := fun heq => hv (heq ▸ ht)
      have hbase : v.accountType ≠ t.accountType := fun heq => hv (heq.trans ht)
      rw [List.nil_append, ← hparts, if_neg htv, if_pos hbase] at hentry
      exact ⟨_, hentry⟩

/-- What every successful `realloc` does. -/
theorem realloc_eq_ok (h : Layout S m b) {length : ℕ} {s : SliceMut} {t : Bytes}
    (hrun : (realloc v length).run b = (.ok s, t)) :
    t.length = b.length ∧ ∃ x, m.get v = some x ∧ Borrows S m v (resize x length) s t := by
  have hinv := hrun
  simp only [realloc, reads_bind_eq_ok, ensure_eq_ok, lengthTryFrom_eq_ok, exists_unit] at hinv
  obtain ⟨ix, hix, info, hinfo, n, hn, hroom, _, ⟨hlt, _⟩, _⟩ := hinv
  cases hget : m.get v with
  | none =>
    obtain ⟨e, he⟩ := h.getExtensionIndices_missing hget
    rw [hix] at he
    cases he
  | some x =>
    have hx := h.holds.length_lt_of_get hget
    obtain ⟨l, r, k, hm, hl, hparts, hix'⟩ := h.present hget
    have hplace := Except.ok.inj (hix.symm.trans (hix' false))
    have hused := Except.ok.inj (hinfo.symm.trans h.holds.getTlvDataInfo_eq)
    subst hplace hused
    have hlength := readLength_entry (encode l) v x (encode r ++ List.replicate k 0) hx
    rw [← hparts, hn, Except.ok.injEq] at hlength
    subst hlength
    obtain ⟨s', t', hrun', hlen, hborrows⟩ := h.realloc_present hget hlt hroom
    rw [hrun, Prod.mk.injEq, Except.ok.injEq] at hrun'
    obtain ⟨rfl, rfl⟩ := hrun'
    exact ⟨hlen, x, rfl, hborrows⟩

/-- On a laid out area the move and the fill stay inside the buffer. -/
theorem realloc_ne_panic (h : Layout S m b) (v : ExtensionType) (length : ℕ) :
    ((realloc v length).run b).1 ≠ .error .panic := by
  cases hget : m.get v with
  | none =>
    obtain ⟨e, he⟩ := h.getExtensionIndices_missing hget
    have hne := getExtensionIndicesFrom_ne_panic v false b 0
    rw [← getExtensionIndices, he] at hne
    unfold realloc
    rw [bind_of_error (reads_of_error (s := b) he)]
    intro hpanic
    cases hpanic
    exact hne rfl
  | some x =>
    have hx := h.holds.length_lt_of_get hget
    obtain ⟨l, r, k, hm, hl, hparts, hix⟩ := h.present hget
    have hinfo := h.holds.getTlvDataInfo_eq
    have hlength := readLength_entry (encode l) v x (encode r ++ List.replicate k 0) hx
    rw [← hparts] at hlength
    by_cases hroom : x.length < length → (encode m).length + (length - x.length) ≤ b.length
    · have hcheck : ensure (x.length < length →
          (encode m).length + (length - x.length) ≤ b.length)
          (ProgramError.invalidAccountData : Fault) = .ok () := ensure_eq_ok.mpr hroom
      by_cases hlt : length < 65536
      · obtain ⟨s, t, hrun, _⟩ := h.realloc_present hget hlt hroom
        rw [hrun]
        intro hpanic
        cases hpanic
      · have hbig : lengthTryFrom length = .error (ProgramError.accountDataTooSmall : Fault) := by
          rw [lengthTryFrom, ensure, if_neg hlt]
          rfl
        unfold realloc
        rw [bind_of_ok (reads_of_ok (s := b) (hix false)), bind_of_ok (reads_of_ok (s := b) hinfo),
          bind_of_ok (reads_of_ok (s := b) hlength),
          bind_of_ok (reads_of_ok (s := b) hcheck),
          bind_of_error (reads_of_error (s := b) hbig)]
        intro hpanic
        cases hpanic
    · have hcheck : ensure (x.length < length →
          (encode m).length + (length - x.length) ≤ b.length)
          (ProgramError.invalidAccountData : Fault) = .error ProgramError.invalidAccountData :=
        if_neg hroom
      unfold realloc
      rw [bind_of_ok (reads_of_ok (s := b) (hix false)), bind_of_ok (reads_of_ok (s := b) hinfo),
        bind_of_ok (reads_of_ok (s := b) hlength), bind_of_error (reads_of_error (s := b) hcheck)]
      intro hpanic
      cases hpanic

end Layout

/-! ### Writes through the slice -/

namespace Borrows

variable {S : BaseState} {m : Entries} {v : ExtensionType} {x : Bytes} {s : SliceMut} {t : Bytes}

theorem layout (h : Borrows S m v x s t) : Layout S (m.put v x) t := by
  obtain ⟨p, r, rfl, _, hlayout⟩ := h
  exact hlayout x rfl

theorem slice_eq (h : Borrows S m v x s t) : slice t s.start s.stop = .ok x := by
  obtain ⟨p, r, rfl, rfl, _⟩ := h
  exact slice_append rfl rfl

/-- A value of the same length, written. -/
theorem assign_of_length (h : Borrows S m v x s t) {y : Bytes} (hy : y.length = x.length) :
    ∃ u, (s.assign y).run t = (.ok (), u) ∧ Borrows S m v y s u ∧ u.length = t.length := by
  obtain ⟨p, r, rfl, rfl, hlayout⟩ := h
  have hcheck : y.length = p.length + x.length - p.length := by omega
  refine ⟨p ++ y ++ r, ?_, ⟨p, r, rfl, by rw [hy], fun z hz => hlayout z (hz.trans hy)⟩, ?_⟩
  · unfold SliceMut.assign
    rw [bind_of_ok (check_of_pos hcheck _)]
    exact writes_of_ok (write_append rfl hy)
  · simp only [List.length_append, hy]

theorem assign_eq_ok (h : Borrows S m v x s t) {y u : Bytes}
    (hrun : (s.assign y).run t = (.ok (), u)) :
    y.length = x.length ∧ Borrows S m v y s u ∧ u.length = t.length := by
  have hy : y.length = x.length := by
    have hinv := hrun
    simp only [SliceMut.assign, check_bind_eq_ok] at hinv
    obtain ⟨p, r, _, rfl, _⟩ := h
    rw [hinv.1, Nat.add_sub_cancel_left]
  obtain ⟨u', hrun', hborrows, hlen⟩ := h.assign_of_length hy
  rw [hrun, Prod.mk.injEq] at hrun'
  obtain ⟨_, rfl⟩ := hrun'
  exact ⟨hy, hborrows, hlen⟩

/-- A value packed into a slice of its packed length. -/
theorem pack_eq_ok (h : Borrows S m v x s t) {extension : VariableLenPack} {u : Bytes}
    (hx : extension.getPackedLen = .ok x.length)
    (hrun : (s.pack extension).run t = (.ok (), u)) :
    Borrows S m v extension.serialized s u ∧ u.length = t.length := by
  simp only [SliceMut.pack, reads_bind_eq_ok, Fallible.bind_eq_ok] at hrun
  obtain ⟨packed, ⟨dst, hdst, hpack⟩, hrun⟩ := hrun
  have hdst' := Except.ok.inj (h.slice_eq.symm.trans hdst)
  subst hdst'
  have hpacked := extension.pack_eq x packed (extension.packedLen_eq _ hx) hpack
  subst hpacked
  exact (h.assign_eq_ok hrun).2

theorem pack_of_ok (h : Borrows S m v x s t) {extension : VariableLenPack} {out : Bytes}
    (hx : extension.getPackedLen = .ok x.length) (hpack : extension.packIntoSlice x = .ok out) :
    ∃ u, (s.pack extension).run t = (.ok (), u) := by
  have hlen := extension.packedLen_eq _ hx
  have hout := extension.pack_eq x out hlen hpack
  obtain ⟨u, hassign, _⟩ := h.assign_of_length (y := out) (by rw [hout, hlen])
  refine ⟨u, ?_⟩
  unfold SliceMut.pack
  have hread : (do let dst ← slice t s.start s.stop; extension.packIntoSlice dst) = .ok out := by
    rw [h.slice_eq, ok_bind, hpack]
  rw [bind_of_ok (reads_of_ok (s := t) hread)]
  exact hassign

end Borrows
end Bytes
end BarkToken
