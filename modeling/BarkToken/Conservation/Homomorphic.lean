import BarkToken.Confidential.AccountInfo
import BarkToken.Conservation.Valuation
import Mathlib.Data.ZMod.Basic

/-!
# Ideal encryption

The syscalls add and subtract what the ciphertexts encrypt. Amounts are scalars of
the group, which is far larger than any sum of amounts, so that small natural
numbers can be told apart.
-/

namespace BarkToken
open Fallible CheckedWord

/-- The order of the ristretto group. -/
def groupOrder : ℕ := 2 ^ 252 + 27742317777372353535851937790883648493

/-- What a ciphertext encrypts. -/
abbrev Scalar : Type := ZMod groupOrder

instance : NeZero groupOrder := ⟨by decide⟩

section

variable {R : Type} [CommRing R]

/-- The ciphertext operations compute with the plaintexts. -/
structure Decryption.Homomorphic (D : Decryption R) (zk : ZkOps) : Prop where
  add : ∀ {p a b c}, zk.add a b = some c → D.decrypt p c = D.decrypt p a + D.decrypt p b
  subtract : ∀ {p a b c}, zk.subtract a b = some c → D.decrypt p c = D.decrypt p a - D.decrypt p b
  addWithLoHi : ∀ {p a lo hi c}, zk.addWithLoHi a lo hi = some c →
    D.decrypt p c = D.decrypt p a + (D.decrypt p lo + 2 ^ 16 * D.decrypt p hi)
  subtractWithLoHi : ∀ {p a lo hi c}, zk.subtractWithLoHi a lo hi = some c →
    D.decrypt p c = D.decrypt p a - (D.decrypt p lo + 2 ^ 16 * D.decrypt p hi)
  addTo : ∀ {p a n c}, zk.addTo a n = some c → D.decrypt p c = D.decrypt p a + value R n
  subtractFrom : ∀ {p a n c}, zk.subtractFrom a n = some c →
    D.decrypt p c = D.decrypt p a - value R n

end

/-! ### Small amounts -/

/-- The scalar is an integer from zero to `bound`. -/
def Encrypts (v : Scalar) (bound : ℕ) : Prop := ∃ n : ℕ, n ≤ bound ∧ v = n

section

variable {v w : Scalar} {a b : ℕ}

theorem Encrypts.mono (h : Encrypts v a) (hle : a ≤ b) : Encrypts v b := by
  obtain ⟨n, hn, hv⟩ := h
  exact ⟨n, hn.trans hle, hv⟩

theorem encrypts_zero : Encrypts 0 a := ⟨0, Nat.zero_le a, by simp⟩

theorem Encrypts.add (hv : Encrypts v a) (hw : Encrypts w b) : Encrypts (v + w) (a + b) := by
  obtain ⟨n, hn, rfl⟩ := hv
  obtain ⟨m, hm, rfl⟩ := hw
  exact ⟨n + m, Nat.add_le_add hn hm, by push_cast; rfl⟩

theorem val_natCast {n : ℕ} (h : n < groupOrder) : (n : Scalar).val = n := ZMod.val_natCast_of_lt h

/-- A difference is an amount as long as it does not go below zero. -/
theorem Encrypts.sub {u : Scalar} {c : ℕ} (hv : Encrypts v a) (hw : Encrypts w b)
    (hu : Encrypts u c) (ha : a < groupOrder) (hb : b < groupOrder) (hc : c < groupOrder)
    (hle : u.val ≤ v.val + w.val) : Encrypts (v + w - u) (a + b) := by
  obtain ⟨n, hn, rfl⟩ := hv
  obtain ⟨m, hm, rfl⟩ := hw
  obtain ⟨k, hk, rfl⟩ := hu
  rw [val_natCast (hk.trans_lt hc), val_natCast (hn.trans_lt ha), val_natCast (hm.trans_lt hb)] at hle
  refine ⟨n + m - k, (Nat.sub_le _ _).trans (Nat.add_le_add hn hm), ?_⟩
  rw [Nat.cast_sub hle]
  push_cast
  rfl

end

/-! ### The owner's keys -/

/-- Zeroes, which encode the identity twice, and whatever the ciphertext syscalls
return, which compress the points they have computed. -/
inductive ZkOps.Returns (zk : ZkOps) : ElGamalCiphertext → Prop
  | zeroed : Returns zk .zeroed
  | add {a b c} (h : zk.add a b = some c) : Returns zk c
  | subtract {a b c} (h : zk.subtract a b = some c) : Returns zk c
  | addWithLoHi {a lo hi c} (h : zk.addWithLoHi a lo hi = some c) : Returns zk c
  | subtractWithLoHi {a lo hi c} (h : zk.subtractWithLoHi a lo hi = some c) : Returns zk c
  | addTo {a n c} (h : zk.addTo a n = some c) : Returns zk c
  | subtractFrom {a n c} (h : zk.subtractFrom a n = some c) : Returns zk c

/-- `try_from` accepts what the syscalls return, and of what it accepts, `decrypt_u32` finds
every amount below `2^32` that is encrypted for `p`. -/
structure OwnerKeys.DecryptsFor (keys : OwnerKeys) (zk : ZkOps) (D : Decryption Scalar)
    (p : ElGamalPubkey) : Prop where
  wellFormed : ∀ {c}, zk.Returns c → keys.wellFormed c = true
  decryptU32 : ∀ {c} {n : UInt64}, keys.wellFormed c = true → n.toNat < 2 ^ 32 →
    D.decrypt p c = n.toNat → keys.decryptU32 c = some n

end BarkToken
