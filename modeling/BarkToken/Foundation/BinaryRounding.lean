import Mathlib.Algebra.Group.Nat.Even
import Mathlib.Data.Nat.Size

/-!
# Rounding to a number of bits

A natural number as a binary floating-point format holds it: its first `p` significant
bits, rounded to the nearest, and to an even significand from the middle.
-/

namespace BinaryRounding

/-- The nearest multiple of `u`, from the middle the even one. -/
def nearestMultiple (u x : ℕ) : ℕ :=
  if 2 * (x % u) < u ∨ 2 * (x % u) = u ∧ Even (x / u) then x / u * u else (x / u + 1) * u

/-- The distance between neighbours of `p` bits, from `x` on upwards. -/
def spacing (p x : ℕ) : ℕ := 2 ^ (x.size - p)

/-- `x` with `p` significant bits. -/
def round (p x : ℕ) : ℕ := nearestMultiple (spacing p x) x

/-- `p` significant bits are enough for `x`. -/
def Exact (p x : ℕ) : Prop := spacing p x ∣ x

instance (p x : ℕ) : Decidable (Exact p x) := inferInstanceAs (Decidable (_ ∣ _))

example : round 53 (2 ^ 53 + 1) = 2 ^ 53 := by decide +kernel

example : round 53 (2 ^ 53 + 3) = 2 ^ 53 + 4 := by decide +kernel

section Multiples

variable {u x : ℕ}

theorem dvd_nearestMultiple : u ∣ nearestMultiple u x := by
  unfold nearestMultiple
  split
  · exact Nat.dvd_mul_left u _
  · exact Nat.dvd_mul_left u _

theorem nearestMultiple_eq_self_iff (hu : 0 < u) : nearestMultiple u x = x ↔ u ∣ x := by
  constructor
  · intro h
    rw [← h]
    exact dvd_nearestMultiple
  · intro h
    rw [nearestMultiple, Nat.mod_eq_zero_of_dvd h, if_pos (.inl hu), Nat.div_mul_cancel h]

/-- One more comes out where the neighbour above is so close: it is nearer than the one
below, or it is as near and has the even significand. -/
theorem nearestMultiple_eq_succ_iff : nearestMultiple u x = x + 1 ↔
    u ∣ x + 1 ∧ 1 < u ∧ (u = 2 → 4 ∣ x + 1) := by
  have hdiv : u * (x / u) + x % u = x := Nat.div_add_mod x u
  constructor
  · intro h
    have hdvd : u ∣ x + 1 := by
      rw [← h]
      exact dvd_nearestMultiple
    rcases Nat.lt_or_ge 1 u with hu | hu
    · refine ⟨hdvd, hu, ?_⟩
      rintro rfl
      unfold nearestMultiple at h
      split at h
      case isTrue => omega
      case isFalse hround =>
        simp only [Nat.even_iff] at hround
        omega
    · exfalso
      rcases Nat.le_one_iff_eq_zero_or_eq_one.mp hu with rfl | rfl
      · rw [Nat.zero_dvd] at hdvd
        omega
      · rw [(nearestMultiple_eq_self_iff Nat.one_pos).mpr (Nat.one_dvd x)] at h
        omega
  · rintro ⟨hdvd, hu, heven⟩
    have hmod : x % u = u - 1 := by
      obtain ⟨k, hk⟩ := hdvd
      cases k with
      | zero => omega
      | succ k =>
        have hx : x = u - 1 + u * k := by
          rw [Nat.mul_succ] at hk
          omega
        rw [hx, Nat.add_mul_mod_self_left, Nat.mod_eq_of_lt (by omega)]
    have hup : ¬ (2 * (x % u) < u ∨ 2 * (x % u) = u ∧ Even (x / u)) := by
      rw [hmod, Nat.even_iff]
      rintro (hlt | ⟨heq, heven'⟩)
      · omega
      · obtain rfl : u = 2 := by omega
        have hfour := heven rfl
        omega
    rw [nearestMultiple, if_neg hup, Nat.add_mul, Nat.mul_comm, Nat.one_mul]
    omega

end Multiples

variable {p x : ℕ}

theorem spacing_pos (p x : ℕ) : 0 < spacing p x := Nat.two_pow_pos _

theorem round_eq_self_iff : round p x = x ↔ Exact p x := nearestMultiple_eq_self_iff (spacing_pos p x)

theorem one_lt_spacing_iff : 1 < spacing p x ↔ 2 ^ p ≤ x := by
  rw [spacing, Nat.one_lt_two_pow_iff, ← Nat.lt_size]
  omega

theorem round_eq_succ_iff :
    round p x = x + 1 ↔ 2 ^ p ≤ x ∧ spacing p x ∣ x + 1 ∧ 4 ∣ x + 1 := by
  rw [round, nearestMultiple_eq_succ_iff, one_lt_spacing_iff]
  constructor
  · rintro ⟨hdvd, hlarge, hfour⟩
    -- a distance of more than two is a multiple of four
    refine ⟨hlarge, hdvd, ?_⟩
    rcases Nat.lt_or_ge 1 (x.size - p) with hk | hk
    · have hspacing : 2 ^ 2 ∣ spacing p x := Nat.pow_dvd_pow 2 hk
      exact Nat.dvd_trans hspacing hdvd
    · have hlt : 1 < spacing p x := one_lt_spacing_iff.mpr hlarge
      have hone : x.size - p = 1 := by
        rw [spacing, Nat.one_lt_two_pow_iff] at hlt
        omega
      exact hfour (by rw [spacing, hone, Nat.pow_one])
  · rintro ⟨hlarge, hdvd, hfour⟩
    exact ⟨hdvd, hlarge, fun _ => hfour⟩

end BinaryRounding
