import Mathlib.Algebra.Order.Ring.Int
import Mathlib.Tactic.Linarith
import Mathlib.Tactic.Ring

/-!
# A running mean that is rounded at every step

A weighted mean of integers is kept as an integer: each new value comes in with a
weight of its own, and the division rounds towards zero. The mean never leaves the
range of the values. Each step is off by less than one, and these errors add up; two
means that are close stay close.
-/

namespace RunningMean

/-- The mean so far, and how much weighs behind it. -/
structure State where
  mean : ℤ
  weight : ℤ

variable {s t : State} {value lo hi w u : ℤ}

/-- The sum that is divided when `value` comes in with the weight `w`. -/
def State.sum (s : State) (value w : ℤ) : ℤ := s.mean * s.weight + value * w

/-- The next mean; without any weight it is the new value. -/
def State.next (s : State) (value w : ℤ) : ℤ :=
  if s.weight + w = 0 then value else (s.sum value w).tdiv (s.weight + w)

theorem State.next_of_pos (h : 0 < s.weight + w) :
    s.next value w = (s.sum value w).tdiv (s.weight + w) := if_neg h.ne'

/-- A quotient lies between two integers that the dividend lies between. -/
theorem tdiv_between {x d : ℤ} (hd : 0 < d) (hlo : lo * d ≤ x) (hhi : x ≤ hi * d) :
    lo ≤ x.tdiv d ∧ x.tdiv d ≤ hi := by
  have h₁ := Int.tdiv_le_tdiv hd hlo
  have h₂ := Int.tdiv_le_tdiv hd hhi
  rw [Int.mul_tdiv_cancel _ hd.ne'] at h₁ h₂
  exact ⟨h₁, h₂⟩

/-- What a rounded quotient is off by. -/
theorem abs_tdiv_mul_sub (x : ℤ) {d : ℤ} (hd : 0 < d) : |x.tdiv d * d - x| ≤ d - 1 := by
  have hx := Int.tdiv_mul_add_tmod x d
  have h₁ := Int.tmod_lt_of_pos x hd
  have h₂ := Int.lt_tmod_of_pos x hd
  rw [abs_le]
  omega

/-- Dividends that are at most a divisor apart have quotients at most one apart. -/
theorem tdiv_le_succ {x y d : ℤ} (hd : 0 < d) (h : x ≤ y + d) : x.tdiv d ≤ y.tdiv d + 1 := by
  by_contra hlt
  have hx := Int.tdiv_mul_add_tmod x d
  have hy := Int.tdiv_mul_add_tmod y d
  have hy₁ := Int.tmod_lt_of_pos y hd
  have hmul : (y.tdiv d + 2) * d ≤ x.tdiv d * d := Int.mul_le_mul_of_nonneg_right (by omega) hd.le
  rw [Int.add_mul] at hmul
  -- The remainders have different signs, and so have the dividends
  have hxneg : x < 0 := by
    by_contra hpos
    have := Int.tmod_nonneg d (show 0 ≤ x by omega)
    omega
  have hypos : 0 ≤ y.tdiv d := by
    refine Int.tdiv_nonneg ?_ hd.le
    by_contra hneg
    have hz : 0 ≤ (-y).tmod d := Int.tmod_nonneg d (by omega)
    rw [Int.neg_tmod] at hz
    have := Int.lt_tmod_of_pos x hd
    omega
  have hxdiv : x.tdiv d ≤ 0 := by
    have hz : 0 ≤ (-x).tdiv d := Int.tdiv_nonneg (by omega) hd.le
    rw [Int.neg_tdiv] at hz
    omega
  omega

/-- The mean stays between bounds of the mean so far and of the new value. -/
theorem State.next_between (hs : 0 ≤ s.weight) (hw : 0 ≤ w) (hlo : lo ≤ s.mean) (hlo' : lo ≤ value)
    (hhi : s.mean ≤ hi) (hhi' : value ≤ hi) : lo ≤ s.next value w ∧ s.next value w ≤ hi := by
  by_cases h0 : s.weight + w = 0
  · rw [State.next, if_pos h0]
    exact ⟨hlo', hhi'⟩
  · have hpos : 0 < s.weight + w := by omega
    have h₁ := Int.mul_le_mul_of_nonneg_right hlo hs
    have h₂ := Int.mul_le_mul_of_nonneg_right hlo' hw
    have h₃ := Int.mul_le_mul_of_nonneg_right hhi hs
    have h₄ := Int.mul_le_mul_of_nonneg_right hhi' hw
    rw [State.next_of_pos hpos]
    refine tdiv_between hpos ?_ ?_
    · rw [State.sum, Int.mul_add]
      omega
    · rw [State.sum, Int.mul_add]
      omega

/-- One step is off by less than its weight, in terms of sums. -/
theorem State.abs_next_mul_sub (value : ℤ) (h : 0 < s.weight + w) :
    |s.next value w * (s.weight + w) - s.sum value w| ≤ s.weight + w - 1 := by
  rw [State.next_of_pos h]
  exact abs_tdiv_mul_sub _ h

/-- The error of a step comes on top of the error so far: `total` is the exact sum. -/
theorem State.abs_next_error {total bound : ℤ} (h : 0 < s.weight + w)
    (hs : |s.mean * s.weight - total| ≤ bound) :
    |s.next value w * (s.weight + w) - (total + value * w)| ≤ bound + (s.weight + w - 1) := by
  have hnext := State.abs_next_mul_sub value h
  rw [State.sum, abs_le] at hnext
  rw [abs_le] at hs ⊢
  omega

/-- Two sums over one weight that are no more than it apart give means at most one
apart. -/
theorem State.abs_next_sub_next (hw : s.weight + w = t.weight + u) (h0 : 0 ≤ s.weight + w)
    (h : |s.sum value w - t.sum value u| ≤ s.weight + w) :
    |s.next value w - t.next value u| ≤ 1 := by
  rw [abs_le] at h ⊢
  by_cases hzero : s.weight + w = 0
  · rw [State.next, State.next, if_pos hzero, if_pos (hw ▸ hzero)]
    omega
  · have hpos : 0 < s.weight + w := by omega
    rw [State.next_of_pos hpos, State.next_of_pos (hw ▸ hpos), ← hw]
    have h₁ := tdiv_le_succ (x := s.sum value w) (y := t.sum value u) hpos (by omega)
    have h₂ := tdiv_le_succ (x := t.sum value u) (y := s.sum value w) hpos (by omega)
    omega

end RunningMean
