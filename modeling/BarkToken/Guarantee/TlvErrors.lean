import BarkToken.Bytes.Walk

/-!
# What a failed TLV call leaves behind (extension/mod.rs:629-734)

`realloc` checks before it writes. `alloc` writes the type first, and the
conversion of the length to a `u16` can still fail.
-/

namespace BarkToken
open Fallible Buffered Bytes

namespace Bytes

/-- The scan for `v` ends at an empty spot with room for `length` bytes. -/
def FreshSlot (S : BaseState) (v : ExtensionType) (length : ℕ) (tlvData : Bytes) : Prop :=
  v.accountType = S.accountType ∧
    ∃ ix, getExtensionIndices v tlvData true = .ok ix ∧ readType tlvData ix = .ok none ∧
      ix.valueStart + length ≤ tlvData.length

/-- A write in range: what it writes, and that it changes nothing where that
was there before. -/
theorem write_exists {b : Bytes} {i : ℕ} (w : Bytes) (h : i + w.length ≤ b.length) :
    ∃ t, write b i w = .ok t ∧ t.length = b.length ∧ (t.drop i).take w.length = w ∧
      ((b.drop i).take w.length = w → t = b) := by
  refine ⟨b.take i ++ w ++ b.drop (i + w.length), ?_, ?_, ?_, ?_⟩
  · rw [write, Buffer.write_isSome h, okOr]
  · simp only [List.length_append, List.length_take, List.length_drop]
    omega
  · have hi : (b.take i).length = i := by
      rw [List.length_take]
      omega
    rw [List.append_assoc, List.drop_left' hi, List.take_left]
  · intro hsame
    have hrest := List.take_append_drop w.length (b.drop i)
    rw [hsame, List.drop_drop] at hrest
    rw [List.append_assoc, hrest, List.take_append_drop]

theorem toLeBytes_toU16_ne (t : ExtensionType) : toLeBytes t.toU16 ≠ [0, 0] := by
  cases t <;> decide

/-! ### alloc -/

/-- `alloc` fails behind a write that changed something only on a fresh slot,
for a length that is no `u16`. -/
theorem alloc_error {S : BaseState} {v : ExtensionType} {length : ℕ} {overwrite : Bool}
    {b b' : Bytes} {e : Fault} (h : (alloc S v length overwrite).run b = (.error e, b'))
    (hne : b' ≠ b) : FreshSlot S v length b ∧ 65536 ≤ length := by
  unfold alloc at h
  obtain ⟨hv, h1⟩ := (check_bind_eq_error.mp h).resolve_left fun he => hne he.2
  obtain ⟨ix, hix, h2⟩ := (reads_bind_eq_error.mp h1).resolve_left fun he => hne he.2
  obtain ⟨rest, hrest, h3⟩ := (reads_bind_eq_error.mp h2).resolve_left fun he => hne he.2
  obtain ⟨hroom, h4⟩ := (check_bind_eq_error.mp h3).resolve_left fun he => hne he.2
  obtain ⟨type, htype, h5⟩ := (reads_bind_eq_error.mp h4).resolve_left fun he => hne he.2
  obtain ⟨hover, h6⟩ := (check_bind_eq_error.mp h5).resolve_left fun he => hne he.2
  clear h h1 h2 h3 h4 h5
  -- the slot: four bytes in range, of type `v` or empty
  obtain ⟨i, rfl, hi, hslot⟩ := getExtensionIndicesFrom_eq_ok hix
  have hlen : addTypeAndLengthToLen length ≤ b.length - i := by
    rw [(slice_eq_ok hrest).2.2, List.length_take, List.length_drop] at hroom
    exact hroom.trans (Nat.min_le_right _ _)
  simp only [addTypeAndLengthToLen] at hlen
  obtain ⟨t, hwrite, htlen, _, hsame⟩ := write_exists (b := b) (i := i) (toLeBytes v.toU16)
    (by rw [length_toLeBytes]; omega)
  rw [bind_of_ok (writes_of_ok (s := b) hwrite)] at h6
  obtain ⟨n, hn, hlt, _⟩ := readLength_of_le (b := t) (i := i) (by omega)
  rw [bind_of_ok (reads_of_ok (s := t) hn)] at h6
  -- where the type was there, its write changed nothing
  obtain ⟨hmatch, h7⟩ := (check_bind_eq_error.mp h6).resolve_left fun he =>
    hne (he.2.trans (hsame (readType_eq_some ((not_not.mp he.1.1).2.1 ▸ htype))))
  have hbig : 65536 ≤ length := by
    by_contra hsmall
    -- past the conversion nothing fails
    have hlength : lengthTryFrom length = .ok (toLeBytes length) := by
      rw [lengthTryFrom, ensure, if_pos (by omega), ok_bind]
      rfl
    obtain ⟨u, hwrite', hulen, _⟩ := write_exists (b := t) (i := i + 2) (toLeBytes length)
      (by rw [length_toLeBytes]; omega)
    have hvalue := slice_of_le (b := u) (i := (getTlvIndices i).valueStart)
      (j := (getTlvIndices i).valueStart + length) (Nat.le_add_right _ _)
      (by simp only [getTlvIndices]; omega)
    rw [bind_of_ok (reads_of_ok (s := t) hlength), bind_of_ok (writes_of_ok (s := t) hwrite'), borrow,
      bind_of_ok (reads_of_ok (s := u) hvalue)] at h7
    cases h7
  refine ⟨⟨hv, getTlvIndices i, hix, ?_, ?_⟩, hbig⟩
  · rcases hslot with hslot | ⟨_, hslot⟩
    · -- an entry of this type has the requested length, a `u16`
      rw [htype, Except.ok.injEq] at hslot
      rw [hslot] at hover hmatch
      have hoverwrite : overwrite = true := by simpa using hover
      have heq : n = length := by
        by_contra hnlen
        exact hmatch ⟨hoverwrite, rfl, hnlen⟩
      omega
    · exact hslot
  · simp only [getTlvIndices]
    omega

/-- On a fresh slot a length that is no `u16` fails behind the write of the type. -/
theorem alloc_of_large {S : BaseState} {v : ExtensionType} {length : ℕ} {b : Bytes}
    (overwrite : Bool) (hslot : FreshSlot S v length b) (hlarge : 65536 ≤ length) :
    ∃ b', (alloc S v length overwrite).run b = (.error ProgramError.accountDataTooSmall, b') ∧
      b' ≠ b := by
  obtain ⟨hv, ix, hix, htype, hroom⟩ := hslot
  obtain ⟨i, rfl, hi, _⟩ := getExtensionIndicesFrom_eq_ok hix
  simp only [getTlvIndices] at hroom
  obtain ⟨t, hwrite, htlen, hnew, _⟩ := write_exists (b := b) (i := i) (toLeBytes v.toU16)
    (by rw [length_toLeBytes]; omega)
  obtain ⟨n, hn, _, _⟩ := readLength_of_le (b := t) (i := i) (by omega)
  have hrest := slice_of_le (b := b) (i := i) (j := b.length) (by omega) le_rfl
  have hlen : addTypeAndLengthToLen length ≤ ((b.drop i).take (b.length - i)).length := by
    rw [List.length_take, List.length_drop, addTypeAndLengthToLen]
    omega
  have hmatch : ¬ (overwrite = true ∧ none = some v ∧ n ≠ length) := by simp
  have hlength : lengthTryFrom length = .error (ProgramError.accountDataTooSmall : Fault) := by
    rw [lengthTryFrom, ensure, if_neg (by omega)]
    rfl
  refine ⟨t, ?_, ?_⟩
  · unfold alloc
    rw [bind_of_ok (check_of_pos hv b), bind_of_ok (reads_of_ok (s := b) hix),
      bind_of_ok (reads_of_ok (s := b) hrest), bind_of_ok (check_of_pos hlen b),
      bind_of_ok (reads_of_ok (s := b) htype), bind_of_ok (check_of_pos (Or.inl rfl) b),
      bind_of_ok (writes_of_ok (s := b) hwrite), bind_of_ok (reads_of_ok (s := t) hn),
      bind_of_ok (check_of_pos hmatch t), bind_of_error (reads_of_error (s := t) hlength)]
  · intro heq
    rw [heq, length_toLeBytes, readType_eq_none htype] at hnew
    exact toLeBytes_toU16_ne v hnew.symm

/-- The slice `alloc` returns. -/
theorem alloc_slice {S : BaseState} {v : ExtensionType} {length : ℕ} {overwrite : Bool}
    {b t : Bytes} {s : SliceMut} (h : (alloc S v length overwrite).run b = (.ok s, t)) :
    s.stop = s.start + length ∧ s.stop ≤ t.length := by
  simp only [alloc, borrow, check_bind_eq_ok, reads_bind_eq_ok, writes_bind_eq_ok, run_pure_eq_ok] at h
  obtain ⟨_, _, _, _, _, _, _, _, _, _, _, _, _, _, _, _, _, _, value, hvalue, rfl, rfl⟩ := h
  exact ⟨rfl, (slice_eq_ok hvalue).2.1⟩

/-- `init_extension` fails only where its `alloc` does. -/
theorem initExtension_error {S : BaseState} {v : ExtensionType} {default : Bytes}
    {overwrite : Bool} {b b' : Bytes} {e : Fault}
    (h : (initExtension S v default overwrite).run b = (.error e, b')) :
    (alloc S v default.length overwrite).run b = (.error e, b') := by
  unfold initExtension at h
  rcases run_bind_eq_error.mp h with h | ⟨s, t, halloc, h⟩
  · exact h
  · obtain ⟨hstop, hle⟩ := alloc_slice halloc
    obtain ⟨u, hwrite, _⟩ := write_exists (b := t) (i := s.start) default (by omega)
    have hassign : (s.assign default).run t = (.ok (), u) := by
      rw [SliceMut.assign, bind_of_ok (check_of_pos (by omega) t)]
      exact writes_of_ok hwrite
    rw [bind_of_ok hassign] at h
    cases h

/-- Zeroes with room for the entry are a fresh slot. -/
theorem freshSlot_replicate {S : BaseState} {v : ExtensionType} {n length : ℕ}
    (hv : v.accountType = S.accountType) (hn : 4 + length ≤ n) :
    FreshSlot S v length (List.replicate n 0) := by
  have hends := ends_replicate n
  have hlen : (List.replicate n (0 : UInt8)).length = n := List.length_replicate
  have hix := getExtensionIndicesFrom_end (v := v) (i := true) [] hends
  have htype := readType_end [] hends (by omega)
  rw [List.nil_append] at hix htype
  rw [if_neg (by omega)] at hix
  refine ⟨hv, getTlvIndices 0, hix, htype, ?_⟩
  simp only [getTlvIndices]
  omega

/-! ### realloc -/

/-- `realloc` returns its errors before it writes. -/
theorem realloc_error {v : ExtensionType} {length : ℕ} {b b' : Bytes} {e : Fault}
    (h : (realloc v length).run b = (.error e, b')) (hne : b' ≠ b) : e = .panic := by
  have hpanic : ∀ {α : Type} {x : Option α}, okOr x .panic = .error e → e = Fault.panic := by
    intro α x hx
    cases x with
    | none =>
      cases hx
      rfl
    | some a => cases hx
  unfold realloc at h
  obtain ⟨ix, _, h1⟩ := (reads_bind_eq_error.mp h).resolve_left fun he => hne he.2
  obtain ⟨info, _, h2⟩ := (reads_bind_eq_error.mp h1).resolve_left fun he => hne he.2
  obtain ⟨oldLength, _, h3⟩ := (reads_bind_eq_error.mp h2).resolve_left fun he => hne he.2
  obtain ⟨_, _, h4⟩ := (reads_bind_eq_error.mp h3).resolve_left fun he => hne he.2
  obtain ⟨lengthBytes, _, h5⟩ := (reads_bind_eq_error.mp h4).resolve_left fun he => hne he.2
  -- what is left can only index out of range
  rcases run_bind_eq_error.mp h5 with h6 | ⟨_, _, _, h6⟩
  · exact hpanic (writes_eq_error.mp h6).1
  rcases run_bind_eq_error.mp h6 with h7 | ⟨_, _, _, h7⟩
  · exact hpanic (writes_eq_error.mp h7).1
  rcases run_bind_eq_error.mp h7 with h8 | ⟨_, _, _, h8⟩
  · have hfill := (writes_eq_error.mp h8).1
    split at hfill
    · exact hpanic hfill
    · exact hpanic hfill
    · cases hfill
  · unfold borrow at h8
    rcases reads_bind_eq_error.mp h8 with ⟨hread, _⟩ | ⟨_, _, h9⟩
    · exact hpanic hread
    · cases h9

end Bytes

/-- A call that fails leaves the buffer as it was, unless it is an `alloc` of
more than `u16::MAX` bytes that finds a fresh slot with room for them. -/
theorem tlv_error_unchanged_iff (S : BaseState) (v : ExtensionType) (length : ℕ)
    (overwrite : Bool) (tlvData : Bytes) :
    ((∀ e after, (alloc S v length overwrite).run tlvData = (.error e, after) →
        after = tlvData) ∧
      (∀ default e after, default.length = length →
        (initExtension S v default overwrite).run tlvData = (.error e, after) →
        after = tlvData) ∧
      ∀ e after, e ≠ .panic → (realloc v length).run tlvData = (.error e, after) →
        after = tlvData) ↔
    ¬ (FreshSlot S v length tlvData ∧ 65536 ≤ length) := by
  constructor
  · rintro ⟨halloc, _⟩ ⟨hslot, hlarge⟩
    obtain ⟨after, hafter, hne⟩ := alloc_of_large overwrite hslot hlarge
    exact hne (halloc _ after hafter)
  · intro hcond
    have halloc : ∀ e after, (alloc S v length overwrite).run tlvData = (.error e, after) →
        after = tlvData := by
      intro e after h
      by_contra hne
      exact hcond (alloc_error h hne)
    refine ⟨halloc, ?_, ?_⟩
    · rintro default e after rfl h
      exact halloc e after (initExtension_error h)
    · intro e after he h
      by_contra hne
      exact he (realloc_error h hne)

/-- 65536 bytes of metadata in a buffer of zeroes that has room for them: the
type is written, then the length is refused. -/
theorem tlv_error_changes_buffer :
    ¬ ∀ (S : BaseState) (v : ExtensionType) (length : ℕ) (overwrite : Bool) (tlvData : Bytes)
      (e : Fault) (after : Bytes),
      (alloc S v length overwrite).run tlvData = (.error e, after) → after = tlvData := by
  intro h
  have hslot : FreshSlot .mint .tokenMetadata 65536 (List.replicate 65540 0) :=
    freshSlot_replicate rfl (by omega)
  obtain ⟨after, hafter, hne⟩ := alloc_of_large false hslot le_rfl
  exact hne (h _ _ _ _ _ _ after hafter)

end BarkToken
