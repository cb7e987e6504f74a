import Mathlib.Algebra.GroupWithZero.Nat
import Mathlib.Data.Fintype.Basic
import Mathlib.Data.Fintype.EquivFin

/-!
# Keys and program ids

A public key is 32 bytes, read here as one little-endian word. The ids are the
base58 constants of `lib.rs:100`, `native_mint.rs:7` and of the runtime's own
programs and sysvars.
-/

namespace BarkToken

/-- `Pubkey`: byte `i` is bits `8 * i` to `8 * i + 7`. -/
structure Pubkey where
  bytes : BitVec 256
deriving DecidableEq

namespace Pubkey

instance : Inhabited Pubkey := ⟨⟨0⟩⟩

/-- `pubkey.as_ref()[i]`. -/
def byte (k : Pubkey) (i : ℕ) : ℕ := (k.bytes.toNat >>> (8 * i)) % 256

/-- Keys as bounded numbers; the ledger's totals range over them. -/
def equivFin : Pubkey ≃ Fin (2 ^ 256) where
  toFun k := k.bytes.toFin
  invFun n := ⟨⟨n⟩⟩
  left_inv _ := rfl
  right_inv _ := rfl

instance : Fintype Pubkey := Fintype.ofEquiv _ equivFin.symm

end Pubkey

/-- `crate::id()`, the token program, `TokenzQdBNbLqP5VEhdkAS6EPFLC1PHnBqCXEpPxuEb`. -/
def programId : Pubkey := ⟨0xfc8ba1d828f9bdfe270db9834dfc1ab6dacd6ce4bc5d4218de8f75eee1f6dd06#256⟩

/-- `native_mint::id()`, `9pan9bMn5HatX4EJdBwg9VgCa7Uz5HL8N1m5D3NdXejP`. -/
def nativeMint : Pubkey := ⟨0x5e5b3e5cd849dfc919fa90ad4a26bbc68a1ee976a4047caab8e65fde9ffc0d83#256⟩

/-- `system_program::id()`, the all-zero key. -/
def systemProgram : Pubkey := ⟨0#256⟩

/-- `incinerator::id()`. -/
def incinerator : Pubkey := ⟨0xe13800e1a69cf7cccd2e4dd4db00ffbf11c9bd796011348d72903300#256⟩

/-- `sysvar::rent::id()`. -/
def rentSysvar : Pubkey := ⟨0x8ad9dbe344fda19b08eeda587ff14a3d4cc98c21515c2c1917d5a706#256⟩

/-- `sysvar::instructions::id()`. -/
def instructionsSysvar : Pubkey := ⟨0x85fcbbadba57556218fc624c1c0c2fd5504d4da3566d17b1817d5a706#256⟩

/-- `zk_token_proof_program::id()`. -/
def zkTokenProofProgram : Pubkey := ⟨0xdfc79b5350be9793d5723d62c2a7ea2cb054a17fbc2c4d98dba6308#256⟩

/-- `spl_memo::id()` and `spl_memo::v1::id()`. -/
def memoPrograms : List Pubkey :=
  [⟨0x8d44054140a81fe481bb92bcddb5357c7c38da6071e8244d062129995a534a05#256⟩,
   ⟨0xa0f6eef43249887806a6d0abab1edf6d298a787256a514d682c85df850534a05#256⟩]

/-! ### Optional keys -/

/-- `OptionalNonZeroPubkey`: the all-zero key stands for `None`. -/
structure OptionalNonZeroPubkey where
  key : Pubkey
deriving DecidableEq, Inhabited

namespace OptionalNonZeroPubkey

/-- `Option::<Pubkey>::from`. -/
def toOption (k : OptionalNonZeroPubkey) : Option Pubkey :=
  if k.key = default then none else some k.key

end OptionalNonZeroPubkey

end BarkToken
