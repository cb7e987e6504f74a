import Mathlib.Algebra.GroupWithZero.Nat

/-!
# Little-endian words

`w` bytes, least significant first, and the number below `256 ^ w` they stand
for.
-/

namespace LittleEndian

/-- The number a list of bytes stands for. -/
def toNat : List UInt8 → ℕ
  | [] => 0
  | x :: xs => x.toNat + 256 * toNat xs

/-- The low `w` bytes of a number. -/
def bytes : ℕ → ℕ → List UInt8
  | 0, _ => []
  | w + 1, n => UInt8.ofNat n :: bytes w (n / 256)

@[simp] theorem length_bytes (w n : ℕ) : (bytes w n).length = w := by
  induction w generalizing n with
  | zero => rfl
  | succ w ih => rw [bytes, List.length_cons, ih]

theorem toNat_lt (xs : List UInt8) : toNat xs < 256 ^ xs.length := by
  induction xs with
  | nil => exact Nat.one_pos
  | cons x xs ih =>
    have hx : x.toNat < 256 := x.toNat_lt
    rw [toNat, List.length_cons, Nat.pow_succ]
    omega

theorem toNat_bytes {w n : ℕ} (h : n < 256 ^ w) : toNat (bytes w n) = n := by
  induction w generalizing n with
  | zero =>
    rw [Nat.pow_zero] at h
    rw [bytes, toNat]
    omega
  | succ w ih =>
    have hdiv : n / 256 < 256 ^ w := by
      rw [Nat.pow_succ] at h
      omega
    have hlow : (UInt8.ofNat n).toNat = n % 256 := UInt8.toNat_ofNat'
    rw [bytes, toNat, ih hdiv, hlow]
    omega

theorem bytes_toNat (xs : List UInt8) : bytes xs.length (toNat xs) = xs := by
  induction xs with
  | nil => rfl
  | cons x xs ih =>
    have hx : x.toNat < 256 := x.toNat_lt
    have hlow : UInt8.ofNat (x.toNat + 256 * toNat xs) = x := by
      apply UInt8.toNat_inj.mp
      rw [UInt8.toNat_ofNat']
      omega
    have hdiv : (x.toNat + 256 * toNat xs) / 256 = toNat xs := by omega
    rw [List.length_cons, toNat, bytes, hlow, hdiv, ih]

end LittleEndian
