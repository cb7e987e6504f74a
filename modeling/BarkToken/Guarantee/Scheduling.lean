import BarkToken.Footprint.Process
import BarkToken.Program.Replay
import Mathlib.Data.Multiset.Basic

/-!
# Instructions in another order

The runtime executes instructions in parallel where none writes an account that
another one is given, and orders the others. An instruction reads and writes only what
its client function declares, so that every such order has the same outcome.
-/

namespace BarkToken
open Fallible Footprint

/-- An instruction of a schedule, with the environment it is executed in. With `fee`, its
client function is the one for a transfer with a fee and split proofs; in `extra` are the
accounts that its transfer hook asks for as writable. -/
structure Task where
  env : Env
  ix : TokenInstruction
  accounts : List AccountInfo
  fee : Bool
  extra : List Pubkey

namespace Task

/-- The accounts of the instruction that are marked as writable. -/
def writable (c : Task) : List AccountInfo := c.ix.mayWrite c.fee c.extra c.accounts

/-- The client function is the one that the mint asks for. -/
def Fits (c : Task) (l : Ledger) : Prop := c.ix.closesFeeProofs l c.accounts = true → c.fee = true

/-- Neither writes an account that the other one is given. -/
def Independent (c d : Task) : Prop :=
  (∀ a ∈ c.writable, ∀ b ∈ d.accounts, a.key ≠ b.key) ∧
    ∀ a ∈ d.writable, ∀ b ∈ c.accounts, a.key ≠ b.key

instance (c d : Task) : Decidable (c.Independent d) := inferInstanceAs (Decidable (_ ∧ _))

theorem Independent.symm {c d : Task} (h : c.Independent d) : d.Independent c := ⟨h.2, h.1⟩

section Pair

variable {x : Externals} {c d : Task} {l : Ledger}

end Pair

end Task

end BarkToken
