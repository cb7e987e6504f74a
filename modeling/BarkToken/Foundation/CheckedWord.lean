import Mathlib.Algebra.Ring.Defs
import Mathlib.Data.Nat.Cast.Basic
import Mathlib.Tactic.Ring

/-!
# Checked 64-bit arithmetic

`checked_add` and friends of the unsigned machine words, each with a rule that
says when it succeeds and what its value is as a natural number.
-/

namespace CheckedWord

def checkedAdd (a b : UInt64) : Option UInt64 :=
  if a.toNat + b.toNat < 2 ^ 64 then some (a + b) else none

def checkedSub (a b : UInt64) : Option UInt64 :=
  if b.toNat ≤ a.toNat then some (a - b) else none

def saturatingSub (a b : UInt64) : UInt64 := if b ≤ a then a - b else 0

def saturatingAdd (a b : UInt64) : UInt64 := (checkedAdd a b).getD (UInt64.ofNat (2 ^ 64 - 1))

/-- `u64::try_from` of a wider unsigned value. -/
def ofNat? (n : ℕ) : Option UInt64 := if n < 2 ^ 64 then some (UInt64.ofNat n) else none

/-- A value that has to fit into `w` bits. -/
def fits (w n : ℕ) : Option ℕ := if n < 2 ^ w then some n else none

/-- A value that has to fit into `w` bits with a sign. -/
def fitsInt (w : ℕ) (z : ℤ) : Option ℤ := if -2 ^ (w - 1) ≤ z ∧ z < 2 ^ (w - 1) then some z else none

/-- `checked_sub` of a wider unsigned value. -/
def checkedSubNat (m n : ℕ) : Option ℕ := if n ≤ m then some (m - n) else none

theorem fits_eq_some {w n m : ℕ} : fits w n = some m ↔ n < 2 ^ w ∧ n = m := by
  unfold fits
  split <;> simp_all

theorem checkedAdd_eq_some {a b c : UInt64} :
    checkedAdd a b = some c ↔ c.toNat = a.toNat + b.toNat := by
  have hc := c.toNat_lt
  simp only [checkedAdd]
  split
  case isTrue h =>
    rw [Option.some.injEq, ← UInt64.toNat_inj, UInt64.toNat_add, Nat.mod_eq_of_lt h]
    exact eq_comm
  case isFalse h =>
    simp only [reduceCtorEq, false_iff]
    omega

theorem checkedAdd_eq_none {a b : UInt64} :
    checkedAdd a b = none ↔ 2 ^ 64 ≤ a.toNat + b.toNat := by
  simp only [checkedAdd, ite_eq_right_iff, reduceCtorEq, imp_false, not_lt]

theorem checkedSub_eq_some {a b c : UInt64} :
    checkedSub a b = some c ↔ c.toNat + b.toNat = a.toNat := by
  have ha := a.toNat_lt
  simp only [checkedSub]
  split
  case isTrue h =>
    have hle : b ≤ a := UInt64.le_iff_toNat_le.mpr h
    rw [Option.some.injEq, ← UInt64.toNat_inj, UInt64.toNat_sub_of_le _ _ hle]
    omega
  case isFalse h =>
    simp only [reduceCtorEq, false_iff]
    omega

theorem checkedSub_eq_none {a b : UInt64} :
    checkedSub a b = none ↔ a.toNat < b.toNat := by
  simp only [checkedSub, ite_eq_right_iff, reduceCtorEq, imp_false, not_le]

theorem checkedSub_of_le {a b : UInt64} (h : b ≤ a) : ∃ c, checkedSub a b = some c :=
  ⟨a - b, if_pos (UInt64.le_iff_toNat_le.mp h)⟩

theorem ofNat?_eq_some {n : ℕ} {a : UInt64} : ofNat? n = some a ↔ a.toNat = n := by
  have ha := a.toNat_lt
  simp only [ofNat?]
  split
  case isTrue h =>
    rw [Option.some.injEq, ← UInt64.toNat_inj, UInt64.toNat_ofNat_of_lt' h]
    exact eq_comm
  case isFalse h =>
    simp only [reduceCtorEq, false_iff]
    omega

theorem ofNat?_of_lt {n : ℕ} (h : n < 2 ^ 64) : ofNat? n = some (UInt64.ofNat n) := if_pos h

theorem checkedAdd_eq_ofNat? (a b : UInt64) : checkedAdd a b = ofNat? (a.toNat + b.toNat) := by
  ext c
  rw [checkedAdd_eq_some, ofNat?_eq_some]

/-! ### Words in a commutative ring -/

/-- A machine word as an element of a ring. -/
def value (R : Type*) [NatCast R] (a : UInt64) : R := (a.toNat : R)

variable {R : Type*} [CommRing R]

@[simp] theorem value_zero : value R 0 = 0 := by simp [value]

/-- A sum without overflow is a sum in the ring. -/
theorem value_add {a b c : UInt64} (h : c.toNat = a.toNat + b.toNat) :
    value R c = value R a + value R b := by
  simp only [value, h, Nat.cast_add]

end CheckedWord
