import BarkToken.Foundation.Avoids
import BarkToken.Processor.UiAmount

/-!
# UI amounts and back (lib.rs)

The strings of `amount_to_ui_amount_string` are exact decimal numerals, with or without
their trailing zeros, and `try_ui_amount_into_amount` reads them back. What else it reads
are decimal numerals with a plus sign, but for the few strings that its check of empty
parts lets through or stops, and those whose sign stands behind the point.
-/

namespace BarkToken
open Fallible Decimal

/-! ### Reading -/

section Read

variable {s whole fraction : List Char} {decimals : UInt8} {amount : UInt64}

/-- The digits that are read: the fraction without its trailing zeros, filled up to
`decimals`. -/
def scaledDigits (whole fraction : List Char) (decimals : UInt8) : List Char :=
  whole ++ trimEndMatches '0' fraction ++
    List.replicate (decimals.toNat - utf8Len (trimEndMatches '0' fraction)) '0'

theorem splitOn_parts (hparts : Parts s whole fraction) (hwhole : '.' ∉ whole)
    (hfraction : '.' ∉ fraction) :
    (s.splitOn '.').headD [] = whole ∧ (s.splitOn '.')[1]?.getD [] = fraction ∧
      (s.splitOn '.')[2]? = none := by
  rcases hparts with ⟨rfl, rfl⟩ | rfl
  · rw [List.splitOn_eq_singleton hwhole]
    exact ⟨rfl, rfl, rfl⟩
  · rw [List.splitOn_append_cons_self_of_not_mem hwhole, List.splitOn_eq_singleton hfraction]
    exact ⟨rfl, rfl, rfl⟩

/-- One point at most splits a string into its parts. -/
theorem exists_parts (h : (s.splitOn '.')[2]? = none) :
    ∃ whole fraction, Parts s whole fraction ∧ '.' ∉ whole ∧ '.' ∉ fraction := by
  by_cases hs : '.' ∈ s
  · obtain ⟨whole, rest, rfl, hwhole⟩ := List.eq_append_cons_of_mem hs
    rw [List.splitOn_append_cons_self_of_not_mem hwhole] at h
    refine ⟨whole, rest, Or.inr rfl, hwhole, fun hrest => ?_⟩
    -- A second point would give a third part
    obtain ⟨fraction, rest, rfl, hfraction⟩ := List.eq_append_cons_of_mem hrest
    rw [List.splitOn_append_cons_self_of_not_mem hfraction] at h
    have hne := List.splitOn_ne_nil '.' rest
    cases hsplit : rest.splitOn '.' with
    | nil => exact hne hsplit
    | cons a more => simp [hsplit] at h
  · exact ⟨s, [], Or.inl ⟨rfl, rfl⟩, hs, List.not_mem_nil⟩

/-- What is read, in terms of the parts of the string. -/
theorem tryUiAmountIntoAmount_parts (hparts : Parts s whole fraction) (hwhole : '.' ∉ whole)
    (hfraction : '.' ∉ fraction) :
    tryUiAmountIntoAmount s decimals = .ok amount ↔
      ¬ (whole = [] ∧ trimEndMatches '0' fraction = []) ∧
        utf8Len (trimEndMatches '0' fraction) ≤ decimals.toNat ∧
        parseU64 (scaledDigits whole fraction decimals) = some amount := by
  obtain ⟨hfirst, hsecond, hthird⟩ := splitOn_parts hparts hwhole hfraction
  simp only [tryUiAmountIntoAmount, hfirst, hsecond, hthird, ensure_bind_eq_ok, okOr_eq_ok,
    scaledDigits, not_or, Option.isSome_none, Bool.false_eq_true, not_false_eq_true, true_and,
    Nat.not_lt, and_assoc]

/-- Every string is read or refused as an invalid argument. -/
theorem tryUiAmountIntoAmount_cases (s : List Char) (decimals : UInt8) :
    (∃ amount, tryUiAmountIntoAmount s decimals = .ok amount) ∨
      tryUiAmountIntoAmount s decimals = .error ProgramError.invalidArgument := by
  cases h : tryUiAmountIntoAmount s decimals with
  | ok amount => exact Or.inl ⟨amount, rfl⟩
  | error e =>
    refine Or.inr (congrArg Except.error ?_)
    by_contra hne
    have havoids : Avoids e (tryUiAmountIntoAmount s decimals) :=
      .bind (.ensure (Ne.symm hne)) fun _ _ => .okOr (Ne.symm hne)
    exact havoids h

/-! ### Decimal numerals -/

/-- The string is a decimal numeral of the amount: digits with at most one point, whose
exact value has no more than `decimals` decimals. -/
def Denotes (s : List Char) (decimals : UInt8) (amount : UInt64) : Prop :=
  ∃ whole fraction, Parts s whole fraction ∧ Digits (whole ++ fraction) ∧ whole ++ fraction ≠ [] ∧
    (trimEndMatches '0' fraction).length ≤ decimals.toNat ∧
    decimalValue whole fraction * 10 ^ decimals.toNat = amount.toNat

/-- A numeral of the amount, or one behind a plus sign; without decimals no digit is left
behind the sign of a numeral that starts with its point. -/
def SignedDenotes (s : List Char) (decimals : UInt8) (amount : UInt64) : Prop :=
  Denotes s decimals amount ∨
    ∃ t, s = '+' :: t ∧ Denotes t decimals amount ∧ (decimals = 0 → t.head? ≠ some '.')

/-- Strings that are read otherwise: zeros behind a leading point are refused, a sign
without a digit is read as the zeros that fill up the decimals, and a sign behind a
leading point takes the place of the first decimal. -/
inductive Irregular (decimals : UInt8) : List Char → Prop
  | pointZeros (n : ℕ) : Irregular decimals ('.' :: List.replicate (n + 1) '0')
  | sign (hdecimals : 0 < decimals) : Irregular decimals ['+']
  | signPoint (hdecimals : 0 < decimals) : Irregular decimals ['+', '.']
  | pointSign (t : List Char) (amount : UInt64) (hdigits : Digits t) (hdecimals : 2 ≤ decimals.toNat)
      (hlen : (trimEndMatches '0' t).length < decimals.toNat)
      (hvalue : decimalValue [] t * 10 ^ (decimals.toNat - 1) = amount.toNat) :
      Irregular decimals ('.' :: '+' :: t)

/-- The digits that are read have the value of the numeral. -/
theorem natValue_scaledDigits (hdigits : Digits (whole ++ fraction))
    (hlen : (trimEndMatches '0' fraction).length ≤ decimals.toNat) :
    decimalValue whole fraction * 10 ^ decimals.toNat =
      natValue (scaledDigits whole fraction decimals) := by
  have hfraction := (digits_append.mp hdigits).2
  rw [scaledDigits, (hfraction.trimEndMatches '0').utf8Len, ← decimalValue_mul_pow hlen,
    decimalValue_trimEndMatches]

theorem digits_scaledDigits (hdigits : Digits (whole ++ fraction)) :
    Digits (scaledDigits whole fraction decimals) := by
  obtain ⟨hwhole, hfraction⟩ := digits_append.mp hdigits
  exact digits_append.mpr ⟨digits_append.mpr ⟨hwhole, hfraction.trimEndMatches '0'⟩,
    digits_replicate_zero _⟩

theorem scaledDigits_ne_nil (h : ¬ (whole = [] ∧ trimEndMatches '0' fraction = [])) :
    scaledDigits whole fraction decimals ≠ [] := by
  intro hnil
  simp only [scaledDigits, List.append_eq_nil_iff] at hnil
  exact h hnil.1

/-- Without significant digits, there are zeros behind a leading point. -/
theorem eq_pointZeros (hparts : Parts s whole fraction) (hne : whole ++ fraction ≠ [])
    (h : whole = [] ∧ trimEndMatches '0' fraction = []) :
    ∃ n, s = '.' :: List.replicate (n + 1) '0' := by
  obtain ⟨n, hn⟩ := exists_trimEndMatches '0' fraction
  rw [h.2, List.nil_append] at hn
  obtain rfl := h.1
  rcases hparts with ⟨-, hempty⟩ | rfl
  · exact absurd hempty hne
  · cases n with
    | zero => exact absurd hn hne
    | succ n => exact ⟨n, by rw [hn, List.nil_append]⟩

/-- A numeral is read as the amount it denotes. -/
theorem Denotes.read (h : Denotes s decimals amount) (hregular : ¬ Irregular decimals s) :
    tryUiAmountIntoAmount s decimals = .ok amount := by
  obtain ⟨whole, fraction, hparts, hdigits, hne, hlen, hvalue⟩ := h
  obtain ⟨hwhole, hfraction⟩ := digits_append.mp hdigits
  have hsignificant : ¬ (whole = [] ∧ trimEndMatches '0' fraction = []) := by
    intro hnone
    obtain ⟨n, rfl⟩ := eq_pointZeros hparts hne hnone
    exact hregular (.pointZeros n)
  rw [natValue_scaledDigits hdigits hlen] at hvalue
  refine (tryUiAmountIntoAmount_parts hparts (hwhole.not_mem rfl) (hfraction.not_mem rfl)).mpr
    ⟨hsignificant, ?_, parseU64_of_digits (scaledDigits_ne_nil hsignificant)
      (digits_scaledDigits hdigits) (by exact_mod_cast hvalue)⟩
  rwa [(hfraction.trimEndMatches '0').utf8Len]

/-- So is a numeral behind a plus sign. -/
theorem Denotes.read_plus (h : Denotes s decimals amount)
    (hpoint : decimals = 0 → s.head? ≠ some '.') :
    tryUiAmountIntoAmount ('+' :: s) decimals = .ok amount := by
  obtain ⟨whole, fraction, hparts, hdigits, hne, hlen, hvalue⟩ := h
  obtain ⟨hwhole, hfraction⟩ := digits_append.mp hdigits
  have hscaled : scaledDigits whole fraction decimals ≠ [] := by
    -- Without significant digits the zeros of the decimals stand behind the sign
    intro hnil
    simp only [scaledDigits, List.append_eq_nil_iff, List.replicate_eq_nil_iff] at hnil
    obtain ⟨⟨rfl, htrim⟩, hzero⟩ := hnil
    obtain ⟨n, rfl⟩ := eq_pointZeros hparts hne ⟨rfl, htrim⟩
    rw [htrim] at hzero
    exact hpoint (UInt8.toNat_inj.mp hzero) rfl
  have hparts' : Parts ('+' :: s) ('+' :: whole) fraction := by
    rcases hparts with ⟨rfl, hempty⟩ | rfl
    · exact Or.inl ⟨rfl, hempty⟩
    · exact Or.inr rfl
  have hsign : '.' ∉ '+' :: whole := by
    rw [List.mem_cons, not_or]
    exact ⟨by decide, hwhole.not_mem rfl⟩
  rw [natValue_scaledDigits hdigits hlen] at hvalue
  refine (tryUiAmountIntoAmount_parts hparts' hsign (hfraction.not_mem rfl)).mpr
    ⟨fun hnone => List.cons_ne_nil _ _ hnone.1, ?_, parseU64_plus hscaled
      (digits_scaledDigits hdigits) (by exact_mod_cast hvalue)⟩
  rwa [(hfraction.trimEndMatches '0').utf8Len]

/-- The parts of a string whose scaled digits are digits. -/
theorem denotes_of_scaledDigits (hparts : Parts s whole fraction) (hne : whole ++ fraction ≠ [])
    (hlen : utf8Len (trimEndMatches '0' fraction) ≤ decimals.toNat)
    (hdigits : Digits (scaledDigits whole fraction decimals))
    (hvalue : natValue (scaledDigits whole fraction decimals) = amount.toNat) :
    Denotes s decimals amount := by
  obtain ⟨⟨hwhole, htrim⟩, -⟩ := (digits_append.mp hdigits).imp_left digits_append.mp
  have hfraction : Digits fraction := by
    obtain ⟨n, hn⟩ := exists_trimEndMatches '0' fraction
    rw [hn]
    exact digits_append.mpr ⟨htrim, digits_replicate_zero n⟩
  have hall := digits_append.mpr ⟨hwhole, hfraction⟩
  rw [htrim.utf8Len] at hlen
  refine ⟨whole, fraction, hparts, hall, hne, hlen, ?_⟩
  rw [natValue_scaledDigits hall hlen, hvalue]

theorem trimEndMatches_sign (t : List Char) :
    trimEndMatches '0' ('+' :: t) = '+' :: trimEndMatches '0' t :=
  trimEndMatches_append_cons (by decide) [] t

theorem utf8Len_sign (t : List Char) : utf8Len ('+' :: t) = 1 + utf8Len t := by
  rw [utf8Len, List.map_cons, List.sum_cons]
  rfl

/-- A sign behind a leading point is read if digits fill up the other decimals. -/
theorem irregular_of_pointSign (hlen : utf8Len (trimEndMatches '0' ('+' :: s)) ≤ decimals.toNat)
    {digits : List Char} (hscaled : scaledDigits [] ('+' :: s) decimals = '+' :: digits)
    (hne : digits ≠ []) (hdigits : Digits digits) (hvalue : natValue digits = amount.toNat) :
    Irregular decimals ('.' :: '+' :: s) := by
  rw [trimEndMatches_sign, utf8Len_sign] at hlen
  rw [scaledDigits, trimEndMatches_sign, utf8Len_sign, List.nil_append, List.cons_append] at hscaled
  obtain rfl := (List.cons.inj hscaled).2
  obtain ⟨hrest, -⟩ := digits_append.mp hdigits
  rw [hrest.utf8Len] at hlen hvalue hne
  have hall : Digits s := by
    obtain ⟨n, hn⟩ := exists_trimEndMatches '0' s
    rw [hn]
    exact digits_append.mpr ⟨hrest, digits_replicate_zero n⟩
  have hcount : decimals.toNat - (1 + (trimEndMatches '0' s).length) =
      decimals.toNat - 1 - (trimEndMatches '0' s).length := by omega
  refine .pointSign s amount hall ?_ (by omega) ?_
  · by_contra hfew
    have hempty : trimEndMatches '0' s = [] := List.eq_nil_of_length_eq_zero (by omega)
    rw [hempty, List.nil_append, List.length_nil] at hne
    exact hne ((List.replicate_eq_nil_iff _).mpr (by omega))
  · rw [← decimalValue_trimEndMatches, decimalValue_mul_pow (by omega), List.nil_append, ← hcount,
      hvalue]

/-- Whatever is read is a numeral, or one behind a plus sign. -/
theorem denotes_of_read (h : tryUiAmountIntoAmount s decimals = .ok amount)
    (hregular : ¬ Irregular decimals s) : SignedDenotes s decimals amount := by
  have hthird : (s.splitOn '.')[2]? = none := by
    simp only [tryUiAmountIntoAmount, ensure_bind_eq_ok, not_or] at h
    exact Option.not_isSome_iff_eq_none.mp h.1.2.1
  obtain ⟨whole, fraction, hparts, hwhole, hfraction⟩ := exists_parts hthird
  obtain ⟨hsignificant, hlen, hparse⟩ := (tryUiAmountIntoAmount_parts hparts hwhole hfraction).mp h
  obtain ⟨digits, hscaled | hscaled, hne, hdigits, hvalue⟩ := parseU64_eq_some.mp hparse
  · refine Or.inl (denotes_of_scaledDigits hparts ?_ hlen (hscaled ▸ hdigits) (hscaled ▸ hvalue))
    intro hnil
    obtain ⟨rfl, rfl⟩ := List.append_eq_nil_iff.mp hnil
    exact hsignificant ⟨rfl, rfl⟩
  · cases whole with
    | nil =>
      -- The sign stands behind a leading point
      obtain ⟨n, hn⟩ := exists_trimEndMatches '0' fraction
      cases htrim : trimEndMatches '0' fraction with
      | nil => exact absurd ⟨rfl, htrim⟩ hsignificant
      | cons c rest =>
        have hfirst := hscaled
        rw [scaledDigits, htrim, List.nil_append, List.cons_append] at hfirst
        obtain ⟨rfl, -⟩ := List.cons.inj hfirst
        rw [htrim, List.cons_append] at hn
        subst hn
        rcases hparts with ⟨-, hempty⟩ | rfl
        · exact absurd hempty (List.cons_ne_nil _ _)
        · exact absurd (irregular_of_pointSign hlen hscaled hne hdigits hvalue) hregular
    | cons c whole =>
      obtain ⟨rfl, rfl⟩ := List.cons.inj hscaled
      have hnonempty : whole ++ fraction ≠ [] := by
        intro hnil
        obtain ⟨rfl, rfl⟩ := List.append_eq_nil_iff.mp hnil
        have hdecimals : 0 < decimals := by
          rw [UInt8.lt_iff_toNat_lt]
          exact Nat.pos_of_ne_zero fun hzero => hne ((List.replicate_eq_nil_iff _).mpr hzero)
        rcases hparts with ⟨rfl, -⟩ | rfl
        · exact hregular (.sign hdecimals)
        · exact hregular (.signPoint hdecimals)
      have hpoint : decimals = 0 → whole ≠ [] := by
        rintro rfl rfl
        obtain ⟨⟨-, hrest⟩, -⟩ := (digits_append.mp hdigits).imp_left digits_append.mp
        rw [hrest.utf8Len] at hlen
        have htrim : trimEndMatches '0' fraction = [] :=
          List.eq_nil_of_length_eq_zero (Nat.le_zero.mp hlen)
        exact hne (by rw [htrim]; rfl)
      refine Or.inr ?_
      rcases hparts with ⟨rfl, hempty⟩ | rfl
      · refine ⟨whole, rfl, denotes_of_scaledDigits (Or.inl ⟨rfl, hempty⟩) hnonempty hlen hdigits
          hvalue, fun _ hhead => ?_⟩
        exact hwhole (List.mem_cons_of_mem _ (List.mem_of_mem_head? hhead))
      · refine ⟨whole ++ '.' :: fraction, rfl, denotes_of_scaledDigits (Or.inr rfl) hnonempty hlen
          hdigits hvalue, fun hzero hhead => ?_⟩
        rw [List.head?_append_of_ne_nil _ (hpoint hzero)] at hhead
        exact hwhole (List.mem_cons_of_mem _ (List.mem_of_mem_head? hhead))

end Read

/-- `try_ui_amount_into_amount` reads decimal numerals, also behind a plus sign, as what
they denote, and refuses every other string; the irregular ones apart. -/
theorem tryUiAmountIntoAmount_reads_numerals (s : List Char) (decimals : UInt8)
    (hregular : ¬ Irregular decimals s) :
    (∀ amount, tryUiAmountIntoAmount s decimals = .ok amount ↔ SignedDenotes s decimals amount) ∧
    ((¬ ∃ amount, SignedDenotes s decimals amount) →
      tryUiAmountIntoAmount s decimals = .error ProgramError.invalidArgument) := by
  refine ⟨fun amount => ⟨fun h => denotes_of_read h hregular, ?_⟩, fun hnone => ?_⟩
  · rintro (hdenotes | ⟨t, rfl, hdenotes, hpoint⟩)
    · exact hdenotes.read hregular
    · exact hdenotes.read_plus hpoint
  · rcases tryUiAmountIntoAmount_cases s decimals with ⟨amount, hok⟩ | herror
    · exact absurd ⟨amount, denotes_of_read hok hregular⟩ hnone
    · exact herror

/-- `+1.50` with two decimals. -/
theorem tryUiAmountIntoAmount_reads_plus : SignedDenotes ['+', '1', '.', '5', '0'] 2 150 :=
  ((tryUiAmountIntoAmount_reads_numerals ['+', '1', '.', '5', '0'] 2 (fun h => nomatch h)).1 150).mp
    (by decide)

section Misread

variable {s : List Char} {decimals : UInt8} {amount : UInt64}

theorem not_denotes_sign (hsign : '+' ∈ s) : ¬ Denotes s decimals amount := by
  rintro ⟨whole, fraction, hparts, hdigits, -⟩
  obtain ⟨hwhole, hfraction⟩ := digits_append.mp hdigits
  rcases hparts with ⟨rfl, -⟩ | rfl
  · exact hwhole.not_mem rfl hsign
  · rcases List.mem_append.mp hsign with hmem | hmem
    · exact hwhole.not_mem rfl hmem
    · exact hfraction.not_mem rfl ((List.mem_cons.mp hmem).resolve_left (by decide))

theorem not_denotes_of_no_digit (hnone : ∀ c ∈ s, c.isDigit = false) :
    ¬ Denotes s decimals amount := by
  rintro ⟨whole, fraction, hparts, hdigits, hne, -⟩
  obtain ⟨c, hc⟩ := List.exists_mem_of_ne_nil _ hne
  have hmem : c ∈ s := by
    rcases hparts with ⟨rfl, rfl⟩ | rfl
    · rwa [List.append_nil] at hc
    · rcases List.mem_append.mp hc with hwhole | hfraction
      · exact List.mem_append_left _ hwhole
      · exact List.mem_append_right _ (List.mem_cons_of_mem _ hfraction)
  have hdigit := hdigits c hc
  rw [hnone c hmem] at hdigit
  exact Bool.false_ne_true hdigit

/-- Behind a sign nothing but zeros are filled in. -/
theorem read_sign (hparts : Parts s ['+'] []) (hdecimals : 0 < decimals) :
    tryUiAmountIntoAmount s decimals = .ok 0 := by
  refine (tryUiAmountIntoAmount_parts hparts (by decide) List.not_mem_nil).mpr
    ⟨fun h => List.cons_ne_nil _ _ h.1, Nat.zero_le _, ?_⟩
  have hpos : decimals.toNat ≠ 0 := Nat.ne_of_gt (UInt8.lt_iff_toNat_lt.mp hdecimals)
  refine parseU64_plus (fun hnil => hpos ((List.replicate_eq_nil_iff _).mp hnil))
    (digits_replicate_zero _) ?_
  have hvalue := natValue_zeros_append decimals.toNat []
  rwa [List.append_nil] at hvalue

theorem read_pointSign {t : List Char} (hdigits : Digits t) (hdecimals : 2 ≤ decimals.toNat)
    (hlen : (trimEndMatches '0' t).length < decimals.toNat)
    (hvalue : decimalValue [] t * 10 ^ (decimals.toNat - 1) = amount.toNat) :
    tryUiAmountIntoAmount ('.' :: '+' :: t) decimals = .ok amount := by
  have hrest := hdigits.trimEndMatches '0'
  have hsign : utf8Len (trimEndMatches '0' ('+' :: t)) = 1 + (trimEndMatches '0' t).length := by
    rw [trimEndMatches_sign, utf8Len_sign, hrest.utf8Len]
  have hpoint : '.' ∉ '+' :: t := by
    rw [List.mem_cons, not_or]
    exact ⟨by decide, hdigits.not_mem rfl⟩
  have hcount : decimals.toNat - 1 - (trimEndMatches '0' t).length =
      decimals.toNat - (1 + (trimEndMatches '0' t).length) := by omega
  rw [← decimalValue_trimEndMatches, decimalValue_mul_pow (by omega), List.nil_append, hcount]
    at hvalue
  refine (tryUiAmountIntoAmount_parts (Or.inr rfl) List.not_mem_nil hpoint).mpr
    ⟨fun h => List.cons_ne_nil _ _ (trimEndMatches_sign t ▸ h.2), by omega, ?_⟩
  rw [scaledDigits, hsign, trimEndMatches_sign, List.nil_append, List.cons_append]
  refine parseU64_plus (fun hnil => ?_) (digits_append.mpr ⟨hrest, digits_replicate_zero _⟩)
    (by exact_mod_cast hvalue)
  have hlength := congrArg List.length hnil
  rw [List.length_append, List.length_replicate, List.length_nil] at hlength
  omega

/-- Each irregular string is read otherwise. -/
theorem Irregular.misread (h : Irregular decimals s) :
    ¬ ∀ amount, tryUiAmountIntoAmount s decimals = .ok amount ↔ SignedDenotes s decimals amount := by
  intro hread
  cases h with
  | pointZeros n =>
    have hdigits := digits_replicate_zero (n + 1)
    have htrim : trimEndMatches '0' (List.replicate (n + 1) '0') = [] :=
      List.rdropWhile_eq_nil_iff.mpr fun c hc => by simp [List.eq_of_mem_replicate hc]
    have hdenotes : Denotes ('.' :: List.replicate (n + 1) '0') decimals 0 := by
      refine ⟨[], _, Or.inr rfl, hdigits, List.cons_ne_nil _ _, ?_, ?_⟩
      · rw [htrim]
        exact Nat.zero_le _
      · rw [← decimalValue_trimEndMatches, htrim]
        simp [decimalValue, natValue]
    have hok := (hread 0).mpr (Or.inl hdenotes)
    have hparts : Parts ('.' :: List.replicate (n + 1) '0') [] (List.replicate (n + 1) '0') :=
      Or.inr rfl
    have hpoint := hdigits.not_mem (c := '.') rfl
    exact ((tryUiAmountIntoAmount_parts hparts List.not_mem_nil hpoint).mp hok).1 ⟨rfl, htrim⟩
  | sign hdecimals =>
    rcases (hread 0).mp (read_sign (Or.inl ⟨rfl, rfl⟩) hdecimals) with h | ⟨t, ht, h, -⟩
    · exact not_denotes_sign List.mem_cons_self h
    · obtain rfl := (List.cons.inj ht).2
      exact not_denotes_of_no_digit (by decide) h
  | signPoint hdecimals =>
    rcases (hread 0).mp (read_sign (Or.inr rfl) hdecimals) with h | ⟨t, ht, h, -⟩
    · exact not_denotes_sign List.mem_cons_self h
    · obtain rfl := (List.cons.inj ht).2
      exact not_denotes_of_no_digit (by decide) h
  | pointSign t amount hdigits hdecimals hlen hvalue =>
    rcases (hread amount).mp (read_pointSign hdigits hdecimals hlen hvalue) with h | ⟨_, ht, -⟩
    · exact not_denotes_sign (List.mem_cons_of_mem _ List.mem_cons_self) h
    · exact absurd (List.cons.inj ht).1 (by decide)

end Misread

/-- Signs are read and zeros behind a leading point are not; a sign is read without a digit
and behind the point. -/
theorem tryUiAmountIntoAmount_beyond_numerals :
    (tryUiAmountIntoAmount ['+', '1'] 0 = .ok 1 ∧ ¬ Denotes ['+', '1'] 0 1) ∧
      (tryUiAmountIntoAmount ['.', '0'] 0 = .error ProgramError.invalidArgument ∧
        Denotes ['.', '0'] 0 0) ∧
      (tryUiAmountIntoAmount ['+'] 1 = .ok 0 ∧ ¬ Denotes ['+'] 1 0) ∧
      tryUiAmountIntoAmount ['.', '+', '5'] 2 = .ok 5 ∧ ¬ Denotes ['.', '+', '5'] 2 5 := by
  have hdigits : Digits ['0'] := digits_replicate_zero 1
  refine ⟨⟨by decide, not_denotes_sign (by decide)⟩, ⟨by decide, [], ['0'], Or.inr rfl, hdigits,
    by decide, Nat.zero_le _, ?_⟩, ⟨by decide, not_denotes_sign (by decide)⟩, by decide,
    not_denotes_sign (by decide)⟩
  norm_num [decimalValue, Nat.ofDigitChars]

/-! ### Writing -/

section Write

variable {whole fraction : List Char} {decimals : UInt8}

theorem not_irregular_numeral (hne : whole ≠ []) (hwhole : Digits whole) (fraction : List Char) :
    ¬ Irregular decimals (numeral whole fraction) := by
  cases whole with
  | nil => exact absurd rfl hne
  | cons c whole =>
    have hc := hwhole c List.mem_cons_self
    obtain ⟨t, ht⟩ : ∃ t, numeral (c :: whole) fraction = c :: t := by
      unfold numeral
      split
      · exact ⟨whole, rfl⟩
      · exact ⟨_, rfl⟩
    rw [ht]
    intro h
    cases h <;> exact absurd hc (by decide)

/-- Behind a fraction only its trailing zeros go, and the point if nothing is left. -/
theorem trimEndMatches_point (hwhole : Digits whole) (hfraction : Digits fraction) :
    trimEndMatches '.' (trimEndMatches '0' (whole ++ '.' :: fraction)) =
      numeral whole (trimEndMatches '0' fraction) := by
  rw [trimEndMatches_append_cons (by decide)]
  have htrim := hfraction.trimEndMatches '0'
  unfold numeral
  split
  case isTrue hnil =>
    rw [hnil, trimEndMatches, List.rdropWhile_concat_pos _ _ _ rfl]
    exact trimEndMatches_of_not_mem (hwhole.not_mem rfl)
  case isFalse hne =>
    obtain ⟨init, last, hlast⟩ := (List.eq_nil_or_concat' (trimEndMatches '0' fraction)).resolve_left hne
    rw [hlast] at htrim ⊢
    have hdigit := htrim last (List.mem_append_right _ List.mem_cons_self)
    have hpoint : last ≠ '.' := by
      rintro rfl
      exact absurd hdigit (by decide)
    rw [← List.cons_append, ← List.append_assoc]
    exact List.rdropWhile_concat_neg _ _ _ (by simpa using hpoint)

/-- The digits on both sides of the point. -/
theorem exists_amountToUiAmountString (amount : UInt64) (decimals : UInt8) :
    ∃ whole fraction, whole ≠ [] ∧ Digits (whole ++ fraction) ∧
      fraction.length = decimals.toNat ∧ natValue (whole ++ fraction) = amount.toNat ∧
      amountToUiAmountString amount decimals = numeral whole fraction ∧
      amountToUiAmountStringTrimmed amount decimals =
        numeral whole (trimEndMatches '0' fraction) := by
  have hdigits := digits_toDigits amount.toNat
  by_cases hpos : 0 < decimals
  · have hpos' : 0 < decimals.toNat := UInt8.lt_iff_toNat_lt.mp hpos
    obtain ⟨s, hs⟩ : ∃ s, s = List.replicate (decimals.toNat + 1 -
      (Nat.toDigits 10 amount.toNat).length) '0' ++ Nat.toDigits 10 amount.toNat := ⟨_, rfl⟩
    have hlength : decimals.toNat + 1 ≤ s.length := by
      rw [hs, List.length_append, List.length_replicate]
      omega
    have hall : Digits s := hs ▸ digits_append.mpr ⟨digits_replicate_zero _, hdigits⟩
    have hsplit := List.take_append_drop (s.length - decimals.toNat) s
    have hparts := hall
    rw [← hsplit] at hparts
    obtain ⟨hwhole, hfraction⟩ := digits_append.mp hparts
    have hlen : (s.drop (s.length - decimals.toNat)).length = decimals.toNat := by
      rw [List.length_drop]
      omega
    have hstring : amountToUiAmountString amount decimals =
        s.take (s.length - decimals.toNat) ++ '.' :: s.drop (s.length - decimals.toNat) := by
      rw [amountToUiAmountString, if_pos hpos, ← hs]
    refine ⟨s.take (s.length - decimals.toNat), s.drop (s.length - decimals.toNat), ?_, hparts, hlen,
      ?_, ?_, ?_⟩
    · rw [← List.length_pos_iff, List.length_take]
      omega
    · rw [hsplit, hs, natValue_zeros_append, natValue_toDigits]
    · rw [hstring, numeral, if_neg]
      exact List.ne_nil_of_length_pos (by omega)
    · rw [amountToUiAmountStringTrimmed, if_pos hpos, hstring, trimEndMatches_point hwhole hfraction]
  · have hzero : decimals.toNat = 0 := by
      rw [UInt8.lt_iff_toNat_lt] at hpos
      exact Nat.eq_zero_of_not_pos hpos
    have hstring : amountToUiAmountString amount decimals = Nat.toDigits 10 amount.toNat := if_neg hpos
    refine ⟨Nat.toDigits 10 amount.toNat, [], Nat.toDigits_ne_nil, ?_, hzero.symm, ?_, hstring, ?_⟩
    · rwa [List.append_nil]
    · rw [List.append_nil, natValue_toDigits]
    · rw [amountToUiAmountStringTrimmed, if_neg hpos, hstring]
      rfl

/-- The strings of an amount are read back, and have its exact value. -/
theorem tryUiAmountIntoAmount_numeral {amount : UInt64} (hne : whole ≠ [])
    (hdigits : Digits (whole ++ fraction)) (hlen : fraction.length = decimals.toNat)
    (hvalue : natValue (whole ++ fraction) = amount.toNat) :
    tryUiAmountIntoAmount (numeral whole fraction) decimals = .ok amount ∧
      tryUiAmountIntoAmount (numeral whole (trimEndMatches '0' fraction)) decimals = .ok amount ∧
      decimalValue whole fraction = amount.toNat / 10 ^ decimals.toNat := by
  obtain ⟨hwhole, hfraction⟩ := digits_append.mp hdigits
  have hexact : decimalValue whole fraction = amount.toNat / 10 ^ decimals.toNat := by
    rw [decimalValue, hlen, hvalue]
  have hscaled : decimalValue whole fraction * 10 ^ decimals.toNat = amount.toNat := by
    rw [hexact]
    field_simp
  have htrim := length_trimEndMatches_le '0' fraction
  rw [hlen] at htrim
  have hdenotes : Denotes (numeral whole fraction) decimals amount :=
    ⟨whole, fraction, parts_numeral _ _, hdigits, List.append_ne_nil_of_left_ne_nil hne _, htrim,
      hscaled⟩
  have hdenotes' : Denotes (numeral whole (trimEndMatches '0' fraction)) decimals amount := by
    refine ⟨whole, _, parts_numeral _ _, digits_append.mpr ⟨hwhole, hfraction.trimEndMatches '0'⟩,
      List.append_ne_nil_of_left_ne_nil hne _, ?_, ?_⟩
    · rwa [trimEndMatches_trimEndMatches]
    · rwa [decimalValue_trimEndMatches]
  exact ⟨hdenotes.read (not_irregular_numeral hne hwhole _),
    hdenotes'.read (not_irregular_numeral hne hwhole _), hexact⟩

theorem tryUiAmountIntoAmount_trimmed (amount : UInt64) (decimals : UInt8) :
    tryUiAmountIntoAmount (amountToUiAmountStringTrimmed amount decimals) decimals = .ok amount := by
  obtain ⟨whole, fraction, hne, hdigits, hlen, hvalue, -, htrimmed⟩ :=
    exists_amountToUiAmountString amount decimals
  rw [htrimmed]
  exact (tryUiAmountIntoAmount_numeral hne hdigits hlen hvalue).2.1

/-- UI amounts round-trip: both strings are read as the amount, trimming keeps amounts
apart, and it takes nothing but trailing zeros of the fraction, so both strings have the
exact value of the amount. -/
theorem uiAmount_round_trip (amount : UInt64) (decimals : UInt8) :
    tryUiAmountIntoAmount (amountToUiAmountStringTrimmed amount decimals) decimals = .ok amount ∧
      tryUiAmountIntoAmount (amountToUiAmountString amount decimals) decimals = .ok amount ∧
      (∀ amount', amountToUiAmountStringTrimmed amount' decimals =
        amountToUiAmountStringTrimmed amount decimals → amount' = amount) ∧
      ∃ whole fraction, whole ≠ [] ∧ Digits (whole ++ fraction) ∧
        amountToUiAmountString amount decimals = numeral whole fraction ∧
        amountToUiAmountStringTrimmed amount decimals = numeral whole (trimEndMatches '0' fraction) ∧
        decimalValue whole fraction = amount.toNat / 10 ^ decimals.toNat ∧
        decimalValue whole (trimEndMatches '0' fraction) = amount.toNat / 10 ^ decimals.toNat := by
  obtain ⟨whole, fraction, hne, hdigits, hlen, hvalue, hstring, htrimmed⟩ :=
    exists_amountToUiAmountString amount decimals
  obtain ⟨hread, -, hexact⟩ := tryUiAmountIntoAmount_numeral hne hdigits hlen hvalue
  refine ⟨tryUiAmountIntoAmount_trimmed amount decimals, hstring ▸ hread, fun amount' hsame => ?_,
    whole, fraction, hne, hdigits, hstring, htrimmed, hexact,
    (decimalValue_trimEndMatches _ _).trans hexact⟩
  have hread' := tryUiAmountIntoAmount_trimmed amount' decimals
  rw [hsame, tryUiAmountIntoAmount_trimmed] at hread'
  exact (Except.ok.inj hread').symm

/-- On a mint without interest, `UiAmountToAmount` gives back the amount that
`AmountToUiAmount` was asked for. -/
theorem processUiAmountToAmount_returned {display : InterestDisplay} {env : Env} {amount : UInt64}
    {accounts : List AccountInfo} {l : Ledger} {mint : PodStateWithExtensions PodMint}
    {uiAmount : List Char} (hmint : uiAmountMint accounts l = .ok mint)
    (hplain : mint.tlv.get .interestBearingConfig = none)
    (h : processAmountToUiAmount display env amount accounts l = .ok uiAmount) :
    processUiAmountToAmount display env uiAmount accounts l = .ok amount := by
  obtain ⟨e, he⟩ : ∃ e, mint.getExtension .interestBearingConfig = .error e := by
    cases hget : mint.getExtension .interestBearingConfig with
    | error e => exact ⟨e, rfl⟩
    | ok v =>
      have hsome := PodStateWithExtensions.getExtension_eq_ok.mp hget
      simp [hplain] at hsome
  simp only [processAmountToUiAmount, hmint, ok_bind, he, pure_eq_ok] at h
  simp only [processUiAmountToAmount, hmint, ok_bind, he]
  rw [← h]
  exact tryUiAmountIntoAmount_trimmed amount mint.base.decimals

end Write

end BarkToken
