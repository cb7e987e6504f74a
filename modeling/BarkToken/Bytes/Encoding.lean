import BarkToken.Bytes.Tlv

/-!
# What the bytes of a TLV area stand for

A list of entries, packed from the front of the buffer up to an empty spot.
Where the program wrote all of the buffer, the types differ from one another
and zeroes fill the rest.
-/

namespace BarkToken
open Fallible

/-- The values of the entries, as bytes. -/
abbrev Entries : Type := TypedStore ExtensionType fun _ => Bytes

namespace Bytes

/-- One entry: type, length, value. -/
def entryBytes (t : ExtensionType) (x : Bytes) : Bytes :=
  toLeBytes t.toU16 ++ toLeBytes x.length ++ x

def encode : Entries → Bytes
  | [] => []
  | ⟨t, x⟩ :: rest => entryBytes t x ++ encode rest

/-- Where a walk over entries stops: too few bytes for a type, or type zero. -/
def Ends (tail : Bytes) : Prop := tail.length < 2 ∨ ∃ r, tail = 0 :: 0 :: r

/-- `b` starts with the entries `m`, and nothing behind them is read. -/
structure Holds (m : Entries) (b : Bytes) : Prop where
  bytes : ∃ tail, b = encode m ++ tail ∧ Ends tail
  fits : ∀ e ∈ m, e.2.length < 65536

/-- `b` holds distinct entries of base `S`, and zeroes. -/
structure Layout (S : BaseState) (m : Entries) (b : Bytes) : Prop where
  bytes : ∃ k, b = encode m ++ List.replicate k 0
  fits : ∀ e ∈ m, e.2.length < 65536
  nodup : m.tags.Nodup
  base : ∀ t ∈ m.tags, t.accountType = S.accountType

theorem ends_replicate (k : ℕ) : Ends (List.replicate k 0) := by
  match k with
  | 0 => exact Or.inl (by decide)
  | 1 => exact Or.inl (by decide)
  | k + 2 => exact Or.inr ⟨List.replicate k 0, rfl⟩

theorem Layout.holds {S : BaseState} {m : Entries} {b : Bytes} (h : Layout S m b) :
    Holds m b where
  bytes := by
    obtain ⟨k, hb⟩ := h.bytes
    exact ⟨_, hb, ends_replicate k⟩
  fits := h.fits

@[simp] theorem length_entryBytes (t : ExtensionType) (x : Bytes) :
    (entryBytes t x).length = 4 + x.length := by
  simp only [entryBytes, List.length_append, length_toLeBytes]

theorem encode_append (l r : Entries) : encode (l ++ r) = encode l ++ encode r := by
  induction l with
  | nil => rfl
  | cons e l ih =>
    simp only [List.cons_append, encode, ih, List.append_assoc]

theorem encode_split (l r : Entries) (t : ExtensionType) (x : Bytes) :
    encode (l ++ ⟨t, x⟩ :: r) = encode l ++ entryBytes t x ++ encode r := by
  simp only [encode_append, encode, List.append_assoc]

theorem encode_singleton (t : ExtensionType) (x : Bytes) : encode [⟨t, x⟩] = entryBytes t x :=
  List.append_nil _

/-! ### One entry, read -/

theorem slice_append {p v r : Bytes} {i j : ℕ} (hi : p.length = i) (hj : i + v.length = j) :
    slice (p ++ v ++ r) i j = .ok v := by
  rw [slice, Buffer.slice_append hi hj, okOr]

theorem write_append {p v w r : Bytes} {i : ℕ} (hi : p.length = i)
    (hw : w.length = v.length) : write (p ++ v ++ r) i w = .ok (p ++ w ++ r) := by
  rw [write, Buffer.write_append hi hw, okOr]

section Entry

variable (p : Bytes) (t : ExtensionType) (x r : Bytes)

/-- The three parts of an entry inside a buffer. -/
theorem entry_type : p ++ entryBytes t x ++ r =
    p ++ toLeBytes t.toU16 ++ (toLeBytes x.length ++ x ++ r) := by
  simp only [entryBytes, List.append_assoc]

theorem entry_length : p ++ entryBytes t x ++ r =
    p ++ toLeBytes t.toU16 ++ toLeBytes x.length ++ (x ++ r) := by
  simp only [entryBytes, List.append_assoc]

theorem entry_value : p ++ entryBytes t x ++ r =
    p ++ toLeBytes t.toU16 ++ toLeBytes x.length ++ x ++ r := by
  simp only [entryBytes, List.append_assoc]

theorem readType_entry :
    readType (p ++ entryBytes t x ++ r) (getTlvIndices p.length) = .ok (some t) := by
  have hslice : slice (p ++ entryBytes t x ++ r) p.length (p.length + 2) =
      .ok (toLeBytes t.toU16) := by
    rw [entry_type]
    exact slice_append rfl rfl
  simp only [readType, getTlvIndices, hslice, ok_bind, extensionTypeTryFrom,
    fromLeBytes_toLeBytes t.toU16_lt, okOr, ExtensionType.tryFromU16_toU16]

theorem readLength_entry (hx : x.length < 65536) :
    readLength (p ++ entryBytes t x ++ r) (getTlvIndices p.length) = .ok x.length := by
  have hslice : slice (p ++ entryBytes t x ++ r) (p.length + 2) (p.length + 2 + 2) =
      .ok (toLeBytes x.length) := by
    rw [entry_length]
    exact slice_append (by rw [List.length_append, length_toLeBytes]) rfl
  simp only [readLength, getTlvIndices, hslice, ok_bind, podFromBytesLength,
    fromLeBytes_toLeBytes hx, okOr]

theorem slice_value_entry :
    slice (p ++ entryBytes t x ++ r) (p.length + 2 + 2) (p.length + 2 + 2 + x.length) = .ok x := by
  rw [entry_value]
  exact slice_append (by simp only [List.length_append, length_toLeBytes]) rfl

end Entry

/-! ### The empty spot behind the entries -/

theorem readType_end (p : Bytes) {tail : Bytes} (h : Ends tail) (hlen : 2 ≤ tail.length) :
    readType (p ++ tail) (getTlvIndices p.length) = .ok none := by
  rcases h with h | ⟨r, rfl⟩
  · omega
  · have hslice : slice (p ++ 0 :: 0 :: r) p.length (p.length + 2) = .ok [0, 0] := by
      have happ := slice_append (p := p) (v := [0, 0]) (r := r) rfl rfl
      rwa [List.append_assoc] at happ
    simp only [readType, getTlvIndices, hslice, ok_bind]
    rfl

/-! ### Scans -/

section Scan

variable {v : ExtensionType} {i : Bool} (p : Bytes)

/-- One pass of the loop, at an entry. -/
theorem getExtensionIndicesFrom_entry (t : ExtensionType) {x : Bytes} (r : Bytes)
    (hx : x.length < 65536) :
    getExtensionIndicesFrom v i (p ++ entryBytes t x ++ r) p.length =
      if t = v then .ok (getTlvIndices p.length)
      else if v.accountType ≠ t.accountType then .error TokenError.extensionTypeMismatch
      else getExtensionIndicesFrom v i (p ++ entryBytes t x ++ r)
        (p ++ entryBytes t x).length := by
  have hlen : (p ++ entryBytes t x ++ r).length = p.length + (4 + x.length) + r.length := by
    simp only [List.length_append, length_entryBytes]
  have hnext : (getTlvIndices p.length).valueStart + x.length = (p ++ entryBytes t x).length := by
    simp only [getTlvIndices, List.length_append, length_entryBytes]
    omega
  rw [getExtensionIndicesFrom, if_pos (by omega),
    if_neg (by simp only [getTlvIndices]; omega), readType_entry, ok_bind]
  simp only [readLength_entry p t x r hx, ok_bind, hnext]

/-- The loop at the end of the entries. -/
theorem getExtensionIndicesFrom_end {tail : Bytes} (h : Ends tail) :
    getExtensionIndicesFrom v i (p ++ tail) p.length =
      if tail.length < 4 then .error ProgramError.invalidAccountData
      else if i then .ok (getTlvIndices p.length)
      else .error TokenError.extensionNotFound := by
  have hlen : (p ++ tail).length = p.length + tail.length := List.length_append
  rw [getExtensionIndicesFrom]
  by_cases hk : tail.length < 4
  · rw [if_pos hk]
    split
    · rw [if_pos (by simp only [getTlvIndices]; omega)]
    · rfl
  · rw [if_neg hk, if_pos (by omega), if_neg (by simp only [getTlvIndices]; omega),
      readType_end p h (by omega), ok_bind]

/-- Over entries of the same account type and other extension types, the loop
runs on. -/
theorem getExtensionIndicesFrom_skip {l : Entries} (r : Bytes)
    (hfits : ∀ e ∈ l, e.2.length < 65536) (hv : v ∉ l.tags)
    (hbase : ∀ t ∈ l.tags, t.accountType = v.accountType) :
    getExtensionIndicesFrom v i (p ++ encode l ++ r) p.length =
      getExtensionIndicesFrom v i (p ++ encode l ++ r) (p ++ encode l).length := by
  induction l generalizing p with
  | nil => rw [encode, List.append_nil]
  | cons e l ih =>
    obtain ⟨t, x⟩ := e
    have hx : x.length < 65536 := hfits ⟨t, x⟩ List.mem_cons_self
    have ht : t.accountType = v.accountType := hbase t List.mem_cons_self
    have hne : t ≠ v := fun h => hv (h ▸ List.mem_cons_self)
    have hskip := ih (p ++ entryBytes t x) (fun e he => hfits e (List.mem_cons_of_mem _ he))
      (fun h => hv (List.mem_cons_of_mem _ h)) (fun t ht => hbase t (List.mem_cons_of_mem _ ht))
    have hassoc : p ++ encode (⟨t, x⟩ :: l) ++ r = p ++ entryBytes t x ++ (encode l ++ r) := by
      simp only [encode, List.append_assoc]
    have hassoc' : p ++ encode (⟨t, x⟩ :: l) = p ++ entryBytes t x ++ encode l := by
      simp only [encode, List.append_assoc]
    rw [hassoc, getExtensionIndicesFrom_entry p t _ hx, if_neg hne, if_neg (not_not.mpr ht.symm),
      hassoc', ← List.append_assoc]
    exact hskip

theorem getTlvDataInfoFrom_encode {m : Entries} (types : List ExtensionType) {tail : Bytes}
    (hend : Ends tail) (hfits : ∀ e ∈ m, e.2.length < 65536) :
    getTlvDataInfoFrom (p ++ encode m ++ tail) types p.length =
      .ok ⟨types ++ m.tags, (p ++ encode m).length⟩ := by
  induction m generalizing p types with
  | nil =>
    rw [encode, List.append_nil, TypedStore.tags_nil, List.append_nil, getTlvDataInfoFrom]
    have hlen : (p ++ tail).length = p.length + tail.length := List.length_append
    split
    · split
      · rfl
      · rename_i hk
        simp only [getTlvIndices, hlen] at hk
        rw [readType_end p hend (by omega), ok_bind]
    · rfl
  | cons e m ih =>
    obtain ⟨t, x⟩ := e
    have hx : x.length < 65536 := hfits ⟨t, x⟩ List.mem_cons_self
    have hrest := ih (p ++ entryBytes t x) (types ++ [t])
      (fun e he => hfits e (List.mem_cons_of_mem _ he))
    have hassoc : p ++ encode (⟨t, x⟩ :: m) ++ tail =
        p ++ entryBytes t x ++ (encode m ++ tail) := by
      simp only [encode, List.append_assoc]
    have hassoc' : p ++ encode (⟨t, x⟩ :: m) = p ++ entryBytes t x ++ encode m := by
      simp only [encode, List.append_assoc]
    have hlen : (p ++ entryBytes t x ++ (encode m ++ tail)).length =
        p.length + (4 + x.length) + (encode m ++ tail).length := by
      simp only [List.length_append, length_entryBytes]
    have hend : (p ++ entryBytes t x).length = p.length + (4 + x.length) := by
      rw [List.length_append, length_entryBytes]
    have hnext : (getTlvIndices p.length).valueStart + x.length =
        (p ++ entryBytes t x).length := by
      simp only [getTlvIndices, List.length_append, length_entryBytes]
      omega
    have htags : types ++ TypedStore.tags (⟨t, x⟩ :: m) = types ++ [t] ++ TypedStore.tags m := by
      rw [List.append_assoc]
      rfl
    rw [hassoc, hassoc', htags, getTlvDataInfoFrom, if_pos (by omega),
      if_neg (by simp only [getTlvIndices]; omega), readType_entry, ok_bind]
    simp only []
    rw [if_neg (by simp only [getTlvIndices]; omega), readLength_entry p t x _ hx, ok_bind]
    simp only [hnext]
    rw [if_neg (by omega), ← List.append_assoc]
    exact hrest

end Scan

end Bytes
end BarkToken
