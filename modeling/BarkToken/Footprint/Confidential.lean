import BarkToken.Confidential.Fee
import BarkToken.Confidential.Transfer
import BarkToken.Footprint.Extension
import BarkToken.Program.Instruction

/-!
# Footprints of the confidential instructions (extension/confidential_transfer/processor.rs,
extension/confidential_transfer_fee/processor.rs)

A confidential transfer writes its two token accounts, and may write accounts behind
them: contexts that it closes with the account for their lamports, and what a transfer
hook asks for.
-/

namespace BarkToken
open Fallible Footprint

variable {R W : Set Pubkey} {s t l m : Ledger} {accounts : List AccountInfo} {env : Env}
  {zk : ZkOps} {extra : List Pubkey} {α : Type}

/-! ### Proof contexts -/

/-- The source and the destination, and, where split proofs are closed, their contexts,
of which there are five if the transfer has a fee, and the account for their lamports. -/
def confidentialTransferWritable (fee close : Bool) (accounts : List AccountInfo) :
    List AccountInfo :=
  accounts.take 1 ++ (accounts.drop 2).take 1 ++
    if close then (accounts.drop 3).take (if fee then 6 else 4) else []

end BarkToken
