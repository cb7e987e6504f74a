import BarkToken.Foundation.CheckedWord
import Mathlib.Algebra.Field.Rat
import Mathlib.Data.List.DropRight
import Mathlib.Data.Rat.Cast.Defs
import Mathlib.Tactic.FieldSimp

/-!
# Decimal numerals

Numerals with a whole part and a fraction, as lists of characters: their values, zeros
in front of them and behind them, and the reading of an unsigned word from its digits
as `u64::from_str` does it.
-/

namespace Decimal
open CheckedWord

/-! ### Digits -/

/-- Nothing but ASCII digits. -/
def Digits (s : List Char) : Prop := ∀ c ∈ s, c.isDigit = true

instance (s : List Char) : Decidable (Digits s) := List.decidableBAll _ s

/-- The number that a list of digits stands for. -/
abbrev natValue (s : List Char) : ℕ := Nat.ofDigitChars 10 s 0

/-- `str::len`: the bytes of the string. -/
def utf8Len (s : List Char) : ℕ := (s.map Char.utf8Size).sum

variable {s t whole fraction : List Char}

theorem digits_append : Digits (s ++ t) ↔ Digits s ∧ Digits t := List.forall_mem_append

theorem digits_replicate_zero (n : ℕ) : Digits (List.replicate n '0') := by
  intro c hc
  rw [List.eq_of_mem_replicate hc]
  rfl

theorem digits_toDigits (n : ℕ) : Digits (Nat.toDigits 10 n) :=
  fun _ hc => Nat.isDigit_of_mem_toDigits (by decide) (by decide) hc

theorem Digits.not_mem (h : Digits s) {c : Char} (hc : c.isDigit = false) : c ∉ s :=
  fun hmem => by simp [h c hmem] at hc

theorem Digits.utf8Len (h : Digits s) : utf8Len s = s.length := by
  induction s with
  | nil => rfl
  | cons c s ih =>
    have hsize : c.utf8Size = 1 := by
      have hdigit := Char.isDigit_iff_toNat.mp (h c List.mem_cons_self)
      rw [Char.utf8Size_eq_one_iff, UInt32.le_iff_toNat_le]
      exact hdigit.2.trans (by decide)
    have hrest := ih fun a ha => h a (List.mem_cons_of_mem _ ha)
    rw [Decimal.utf8Len] at hrest
    rw [Decimal.utf8Len, List.map_cons, List.sum_cons, hsize, hrest, List.length_cons, Nat.add_comm]

theorem natValue_append_zeros (s : List Char) (n : ℕ) :
    natValue (s ++ List.replicate n '0') = 10 ^ n * natValue s := by
  rw [natValue, Nat.ofDigitChars_append, Nat.ofDigitChars_replicate_zero]

theorem natValue_zeros_append (n : ℕ) (s : List Char) :
    natValue (List.replicate n '0' ++ s) = natValue s := by
  rw [natValue, Nat.ofDigitChars_append, Nat.ofDigitChars_replicate_zero, Nat.mul_zero]

theorem natValue_toDigits (n : ℕ) : natValue (Nat.toDigits 10 n) = n := Nat.ofDigitChars_ten_toDigits

/-! ### Trailing characters -/

/-- `str::trim_end_matches` of one character. -/
def trimEndMatches (c : Char) (s : List Char) : List Char := s.rdropWhile (· == c)

/-- What is trimmed. -/
theorem exists_trimEndMatches (c : Char) (s : List Char) :
    ∃ n, s = trimEndMatches c s ++ List.replicate n c := by
  induction s using List.reverseRecOn with
  | nil => exact ⟨0, rfl⟩
  | append_singleton s a ih =>
    by_cases ha : a = c
    · obtain ⟨n, hn⟩ := ih
      refine ⟨n + 1, ?_⟩
      rw [trimEndMatches, List.rdropWhile_concat_pos _ _ _ (by simpa using ha), List.replicate_succ',
        ← List.append_assoc, ← trimEndMatches, ← hn, ha]
    · exact ⟨0, by simp [trimEndMatches, ha]⟩

/-- Nothing is trimmed behind another character. -/
theorem trimEndMatches_append_cons {c a : Char} (h : a ≠ c) (s t : List Char) :
    trimEndMatches c (s ++ a :: t) = s ++ a :: trimEndMatches c t := by
  induction t using List.reverseRecOn with
  | nil => simp [trimEndMatches, h]
  | append_singleton t b ih =>
    rw [← List.cons_append, ← List.append_assoc]
    by_cases hb : b = c
    · rw [trimEndMatches, List.rdropWhile_concat_pos _ _ _ (by simpa using hb), ← trimEndMatches, ih,
        trimEndMatches, trimEndMatches, List.rdropWhile_concat_pos _ _ _ (by simpa using hb)]
    · rw [trimEndMatches, List.rdropWhile_concat_neg _ _ _ (by simpa using hb), trimEndMatches,
        List.rdropWhile_concat_neg _ _ _ (by simpa using hb), List.append_assoc, List.cons_append]

theorem trimEndMatches_of_not_mem {c : Char} (h : c ∉ s) : trimEndMatches c s = s := by
  refine List.rdropWhile_eq_self_iff.mpr fun hne hlast => ?_
  rw [beq_iff_eq] at hlast
  exact h (hlast ▸ List.getLast_mem hne)

theorem length_trimEndMatches_le (c : Char) (s : List Char) :
    (trimEndMatches c s).length ≤ s.length := List.rdropWhile_prefix (p := (· == c)) s |>.length_le

theorem trimEndMatches_trimEndMatches (c : Char) (s : List Char) :
    trimEndMatches c (trimEndMatches c s) = trimEndMatches c s := List.rdropWhile_idempotent _ _

theorem Digits.trimEndMatches (h : Digits s) (c : Char) : Digits (trimEndMatches c s) := by
  obtain ⟨n, hn⟩ := exists_trimEndMatches c s
  rw [hn, digits_append] at h
  exact h.1

/-! ### A whole part and a fraction -/

/-- The numeral with these parts, without a point if the fraction is empty. -/
def numeral (whole fraction : List Char) : List Char :=
  if fraction = [] then whole else whole ++ '.' :: fraction

/-- The parts of a numeral, which may end in a point. -/
def Parts (s whole fraction : List Char) : Prop :=
  s = whole ∧ fraction = [] ∨ s = whole ++ '.' :: fraction

/-- The exact value. -/
def decimalValue (whole fraction : List Char) : ℚ := natValue (whole ++ fraction) / 10 ^ fraction.length

theorem parts_numeral (whole fraction : List Char) : Parts (numeral whole fraction) whole fraction := by
  unfold numeral
  split
  case isTrue h => exact Or.inl ⟨rfl, h⟩
  case isFalse h => exact Or.inr rfl

/-- Trailing zeros add nothing. -/
theorem decimalValue_append_zeros (whole fraction : List Char) (n : ℕ) :
    decimalValue whole (fraction ++ List.replicate n '0') = decimalValue whole fraction := by
  rw [decimalValue, decimalValue, ← List.append_assoc, natValue_append_zeros, List.length_append,
    List.length_replicate, pow_add]
  push_cast
  field_simp

theorem decimalValue_trimEndMatches (whole fraction : List Char) :
    decimalValue whole (trimEndMatches '0' fraction) = decimalValue whole fraction := by
  obtain ⟨n, hn⟩ := exists_trimEndMatches '0' fraction
  conv_rhs => rw [hn]
  exact (decimalValue_append_zeros _ _ n).symm

/-- With enough decimals the value becomes an integer: the digits, filled up with zeros. -/
theorem decimalValue_mul_pow {d : ℕ} (h : fraction.length ≤ d) :
    decimalValue whole fraction * 10 ^ d =
      natValue (whole ++ fraction ++ List.replicate (d - fraction.length) '0') := by
  have hd : (10 : ℚ) ^ d = 10 ^ (d - fraction.length) * 10 ^ fraction.length := by
    rw [← pow_add, Nat.sub_add_cancel h]
  rw [decimalValue, natValue_append_zeros, hd]
  push_cast
  field_simp

/-! ### Unsigned words -/

/-- `u64::checked_mul` by ten and `checked_add` of the next digit. -/
def pushDigit (v : UInt64) (c : Char) : Option UInt64 :=
  if c.isDigit then
    (ofNat? (10 * v.toNat)).bind fun tens => checkedAdd tens (UInt64.ofNat (c.toNat - '0'.toNat))
  else none

/-- `u64::from_str`: digits, behind a plus sign or without one. -/
def parseU64 : List Char → Option UInt64
  | [] => none
  | '+' :: s => if s = [] then none else s.foldlM pushDigit 0
  | c :: s => (c :: s).foldlM pushDigit 0

theorem pushDigit_eq_some {v w : UInt64} {c : Char} :
    pushDigit v c = some w ↔ c.isDigit = true ∧ w.toNat = 10 * v.toNat + (c.toNat - '0'.toNat) := by
  unfold pushDigit
  split
  case isFalse h => simp [h]
  case isTrue h =>
    have hdigit : c.toNat ≤ 57 := (Char.isDigit_iff_toNat.mp h).2
    have hlt : c.toNat - '0'.toNat < 2 ^ 64 := by omega
    have hsmall : (UInt64.ofNat (c.toNat - '0'.toNat)).toNat = c.toNat - '0'.toNat :=
      UInt64.toNat_ofNat_of_lt' hlt
    simp only [Option.bind_eq_some_iff, ofNat?_eq_some, checkedAdd_eq_some, hsmall, h, true_and]
    constructor
    · rintro ⟨tens, htens, hsum⟩
      rw [hsum, htens]
    · intro hsum
      have hw := w.toNat_lt
      have hfits : 10 * v.toNat < 2 ^ 64 := by omega
      have htens : (UInt64.ofNat (10 * v.toNat)).toNat = 10 * v.toNat := UInt64.toNat_ofNat_of_lt' hfits
      exact ⟨_, htens, by rw [hsum, htens]⟩

theorem le_ofDigitChars (n : ℕ) (s : List Char) : n ≤ Nat.ofDigitChars 10 s n := by
  induction s generalizing n with
  | nil => rfl
  | cons c s ih =>
    rw [Nat.ofDigitChars_cons]
    have := ih (10 * n + (c.toNat - '0'.toNat))
    omega

/-- Reading on from `v` gives the number, if it fits. -/
theorem foldlM_pushDigit_eq_some {v w : UInt64} :
    s.foldlM pushDigit v = some w ↔ Digits s ∧ Nat.ofDigitChars 10 s v.toNat = w.toNat := by
  induction s generalizing v with
  | nil =>
    simp [Digits, UInt64.toNat_inj]
  | cons c s ih =>
    have hcons : Digits (c :: s) ↔ c.isDigit = true ∧ Digits s := List.forall_mem_cons
    rw [List.foldlM_cons, hcons, Nat.ofDigitChars_cons]
    constructor
    · intro h
      obtain ⟨u, hu, hrest⟩ := Option.bind_eq_some_iff.mp h
      obtain ⟨hc, hval⟩ := pushDigit_eq_some.mp hu
      obtain ⟨hs, hw⟩ := ih.mp hrest
      rw [hval] at hw
      exact ⟨⟨hc, hs⟩, hw⟩
    · rintro ⟨⟨hc, hs⟩, hw⟩
      -- The number so far is no larger than the whole one
      have hle := le_ofDigitChars (10 * v.toNat + (c.toNat - '0'.toNat)) s
      have hfits : 10 * v.toNat + (c.toNat - '0'.toNat) < 2 ^ 64 := by
        have := w.toNat_lt
        omega
      have hnat : (UInt64.ofNat (10 * v.toNat + (c.toNat - '0'.toNat))).toNat =
          10 * v.toNat + (c.toNat - '0'.toNat) := UInt64.toNat_ofNat_of_lt' hfits
      refine Option.bind_eq_some_iff.mpr ⟨_, pushDigit_eq_some.mpr ⟨hc, hnat⟩, ih.mpr ⟨hs, ?_⟩⟩
      rwa [hnat]

theorem parseU64_of_digits {w : UInt64} (hne : s ≠ []) (hs : Digits s) (hw : natValue s = w.toNat) :
    parseU64 s = some w := by
  have hparse : s.foldlM pushDigit 0 = some w := foldlM_pushDigit_eq_some.mpr ⟨hs, hw⟩
  unfold parseU64
  split
  · exact absurd rfl hne
  · exact absurd (hs '+' List.mem_cons_self) (by decide)
  · exact hparse

theorem parseU64_plus {w : UInt64} (hne : s ≠ []) (hs : Digits s) (hw : natValue s = w.toNat) :
    parseU64 ('+' :: s) = some w :=
  (if_neg hne).trans (foldlM_pushDigit_eq_some.mpr ⟨hs, hw⟩)

/-- What is read as an unsigned word. -/
theorem parseU64_eq_some {w : UInt64} :
    parseU64 s = some w ↔ ∃ digits, (s = digits ∨ s = '+' :: digits) ∧ digits ≠ [] ∧ Digits digits ∧
      natValue digits = w.toNat := by
  constructor
  · intro h
    unfold parseU64 at h
    split at h
    · simp at h
    · rename_i digits
      split at h
      · simp at h
      · rename_i hne
        exact ⟨digits, Or.inr rfl, hne, foldlM_pushDigit_eq_some.mp h⟩
    · rename_i c t hc
      exact ⟨c :: t, Or.inl rfl, List.cons_ne_nil c t, foldlM_pushDigit_eq_some.mp h⟩
  · rintro ⟨digits, rfl | rfl, hne, hdigits, hw⟩
    · exact parseU64_of_digits hne hdigits hw
    · exact parseU64_plus hne hdigits hw

end Decimal
