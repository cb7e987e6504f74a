import Mathlib.Algebra.Order.Floor.Div
import Mathlib.Order.Bounds.Basic
import Mathlib.Tactic.Linarith
import Mathlib.Tactic.Ring

/-!
# Rounded-up shares with a cap

Of an amount `a`, the share `⌈a * r / d⌉` is taken, and never more than `m`. What is
left grows with the amount, by at most one at a time, and its lower adjoint gives the
least amount that leaves a given rest.
-/

namespace CeilingShare

/-- The rate is at most one: `r / d` with `r ≤ d`. -/
structure Rate where
  numerator : ℕ
  denominator : ℕ
  pos : 0 < denominator
  le : numerator ≤ denominator

variable (q : Rate) (m : ℕ)

/-- The share of `a`, rounded up. -/
def share (a : ℕ) : ℕ := a * q.numerator ⌈/⌉ q.denominator

/-- The share that is taken, at most `m`. -/
def taken (a : ℕ) : ℕ := min (share q a) m

/-- What is left of `a`. -/
def rest (a : ℕ) : ℕ := a - taken q m a

section Share

variable {q} {m}

theorem share_le_iff {a k : ℕ} : share q a ≤ k ↔ a * q.numerator ≤ q.denominator * k :=
  ceilDiv_le_iff_le_mul q.pos

theorem share_le (a : ℕ) : share q a ≤ a := by
  rw [share_le_iff, Nat.mul_comm q.denominator]
  exact Nat.mul_le_mul_left a q.le

theorem share_mono {a b : ℕ} (h : a ≤ b) : share q a ≤ share q b := by
  rw [share_le_iff]
  exact (Nat.mul_le_mul_right q.numerator h).trans (share_le_iff.mp le_rfl)

theorem share_rate_mono {q' : Rate} (hn : q.numerator ≤ q'.numerator)
    (hd : q.denominator = q'.denominator) (a : ℕ) : share q a ≤ share q' a := by
  rw [share_le_iff, hd]
  exact (Nat.mul_le_mul_left a hn).trans (share_le_iff.mp le_rfl)

/-- An amount that is larger by `k` has a share that is larger by at most `k`. -/
theorem share_add_le (a k : ℕ) : share q (a + k) ≤ share q a + k := by
  have ha : a * q.numerator ≤ q.denominator * share q a := share_le_iff.mp le_rfl
  have hk : k * q.numerator ≤ q.denominator * k := by
    rw [Nat.mul_comm q.denominator]
    exact Nat.mul_le_mul_left k q.le
  rw [share_le_iff, Nat.add_mul, Nat.mul_add]
  exact Nat.add_le_add ha hk

theorem taken_le (a : ℕ) : taken q m a ≤ a := (min_le_left _ _).trans (share_le a)

theorem taken_mono {a b : ℕ} (h : a ≤ b) : taken q m a ≤ taken q m b :=
  min_le_min_right m (share_mono h)

theorem taken_add_le (a k : ℕ) : taken q m (a + k) ≤ taken q m a + k := by
  have h := share_add_le (q := q) a k
  unfold taken
  omega

theorem rest_add_taken (a : ℕ) : rest q m a + taken q m a = a := Nat.sub_add_cancel (taken_le a)

theorem rest_mono {a b : ℕ} (h : a ≤ b) : rest q m a ≤ rest q m b := by
  obtain ⟨k, rfl⟩ := Nat.exists_eq_add_of_le h
  have htaken := taken_add_le (q := q) (m := m) a k
  unfold rest
  omega

end Share

/-! ### The least amount that leaves a rest -/

/-- Less than everything is taken, before the cap. -/
def Rate.Proper (q : Rate) : Prop := q.numerator < q.denominator

/-- Without a cap, the least amount that leaves `n`. -/
def uncapped (n : ℕ) : ℕ := n * q.denominator ⌈/⌉ (q.denominator - q.numerator)

/-- The least amount that leaves `n`. -/
def gross (n : ℕ) : ℕ := min (uncapped q n) (n + m)

section Gross

variable {q} {m}

theorem uncapped_le_iff (hq : q.Proper) {n a : ℕ} :
    uncapped q n ≤ a ↔ n * q.denominator ≤ (q.denominator - q.numerator) * a :=
  ceilDiv_le_iff_le_mul (Nat.sub_pos_of_lt hq)

theorem le_sub_share_iff (hq : q.Proper) {n a : ℕ} : n ≤ a - share q a ↔ uncapped q n ≤ a := by
  have hle := share_le (q := q) a
  have hsub : (q.denominator - q.numerator) * a = q.denominator * a - a * q.numerator := by
    rw [Nat.sub_mul, Nat.mul_comm q.numerator]
  have hshare : a * q.numerator ≤ q.denominator * a := by
    rw [Nat.mul_comm q.denominator]
    exact Nat.mul_le_mul_left a q.le
  rw [uncapped_le_iff hq, hsub]
  constructor
  · intro h
    have hk := share_le_iff.mp (show share q a ≤ a - n by omega)
    have hn : n ≤ a := h.trans (Nat.sub_le _ _)
    rw [Nat.mul_sub] at hk
    have hna : q.denominator * n ≤ q.denominator * a := Nat.mul_le_mul_left _ hn
    rw [Nat.mul_comm n]
    omega
  · intro h
    have hn : n * q.denominator ≤ a * q.denominator :=
      h.trans ((Nat.sub_le _ _).trans (Nat.mul_comm _ _).le)
    have hna : n ≤ a := Nat.le_of_mul_le_mul_right hn q.pos
    have hk : share q a ≤ a - n := by
      rw [share_le_iff, Nat.mul_sub, Nat.mul_comm q.denominator n]
      omega
    omega

/-- `gross` and `rest` are adjoint. -/
theorem gross_gc (hq : q.Proper) : GaloisConnection (gross q m) (rest q m) := by
  intro n a
  have hcap : n ≤ rest q m a ↔ n ≤ a - share q a ∨ n + m ≤ a ∨ n = 0 := by
    have hle := share_le (q := q) a
    unfold rest taken
    omega
  rw [hcap, le_sub_share_iff hq, gross, min_le_iff]
  constructor
  · rintro (h | h)
    · exact Or.inl h
    · exact Or.inr (Or.inl h)
  · rintro (h | h | rfl)
    · exact Or.inl h
    · exact Or.inr h
    · left
      rw [uncapped_le_iff hq, Nat.zero_mul]
      exact Nat.zero_le _

/-- One more to leave needs at most `⌈1 / (1 - r/d)⌉` more. -/
theorem gross_succ_le (hq : q.Proper) (n : ℕ) : gross q m (n + 1) ≤ gross q m n + uncapped q 1 := by
  have hone : 1 * q.denominator ≤ (q.denominator - q.numerator) * uncapped q 1 :=
    (uncapped_le_iff hq).mp le_rfl
  have hpos : 1 ≤ uncapped q 1 := by
    by_contra h
    obtain h0 : uncapped q 1 = 0 := by omega
    rw [h0] at hone
    have := q.pos
    omega
  have hstep : uncapped q (n + 1) ≤ uncapped q n + uncapped q 1 := by
    rw [uncapped_le_iff hq, Nat.mul_add, Nat.add_mul]
    exact Nat.add_le_add ((uncapped_le_iff hq).mp le_rfl) hone
  unfold gross
  omega

theorem le_uncapped (hq : q.Proper) (n : ℕ) : n ≤ uncapped q n := by
  have h : n * q.denominator ≤ (q.denominator - q.numerator) * uncapped q n :=
    (uncapped_le_iff hq).mp le_rfl
  have hle : (q.denominator - q.numerator) * uncapped q n ≤ uncapped q n * q.denominator := by
    rw [Nat.mul_comm (uncapped q n)]
    exact Nat.mul_le_mul_right _ (Nat.sub_le _ _)
  exact Nat.le_of_mul_le_mul_right (h.trans hle) q.pos

theorem gross_strictMono (hq : q.Proper) : StrictMono (gross q m) := by
  refine strictMono_nat_of_lt_succ fun n => ?_
  have h : uncapped q n + 1 ≤ uncapped q (n + 1) := by
    by_contra hlt
    -- An amount that leaves `n + 1` leaves `n` when it is smaller by one
    have hle := (uncapped_le_iff hq).mp (show uncapped q (n + 1) ≤ uncapped q n by omega)
    have hn := le_uncapped hq n
    have hsmall : uncapped q n ≤ uncapped q n - 1 := by
      rw [uncapped_le_iff hq, Nat.mul_sub, Nat.mul_one]
      have hd := Nat.sub_le q.denominator q.numerator
      rw [Nat.add_mul] at hle
      omega
    have hzero : uncapped q n = 0 := by omega
    rw [hzero, Nat.mul_zero, Nat.add_mul] at hle
    have := q.pos
    omega
  unfold gross
  omega

theorem rest_gross (hq : q.Proper) (n : ℕ) : rest q m (gross q m n) = n := by
  refine le_antisymm ?_ ((gross_gc hq).le_u_l n)
  by_contra hlt
  have hle : gross q m (n + 1) ≤ gross q m n := (gross_gc hq).l_le (by omega)
  exact absurd (gross_strictMono hq (Nat.lt_succ_self n)) (Nat.not_lt.mpr hle)

/-- The amounts that leave `n` have a least one. -/
theorem isLeast_gross (hq : q.Proper) (n : ℕ) : IsLeast {a | rest q m a = n} (gross q m n) :=
  ⟨rest_gross hq n, fun _ ha => (gross_gc hq).l_le (le_of_eq (ha.symm : n = _))⟩

/-- Amounts that leave as much are close to each other. -/
theorem lt_gross_add (hq : q.Proper) (a : ℕ) :
    a < gross q m (rest q m a) + uncapped q 1 := by
  refine lt_of_lt_of_le (Nat.lt_of_not_le fun hle => ?_) (gross_succ_le hq _)
  exact absurd ((gross_gc hq).le_u hle) (Nat.not_succ_le_self _)

end Gross

end CeilingShare
