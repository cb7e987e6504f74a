import BarkToken.Footprint.Common
import BarkToken.Processor.Lamports
import BarkToken.TransferFee.Processor

/-!
# Footprints of the base instructions (processor.rs, extension/transfer_fee/processor.rs)

Each handler reads its accounts, and writes those that the client function marks as
writable.
-/

namespace BarkToken
open Fallible Footprint

variable {R W : Set Pubkey} {s t l m : Ledger} {accounts : List AccountInfo} {env : Env}
  {extra : List Pubkey}

/-! ### Creating mints, accounts and multisigs -/

/-- Where the destination of a transfer is listed. -/
def transferDestination (expectedDecimals : Option UInt8) : ℕ :=
  if expectedDecimals.isSome then 2 else 1

/-- The source and the destination of a transfer. -/
def transferWritable (expectedDecimals : Option UInt8) (accounts : List AccountInfo) :
    List AccountInfo :=
  accounts.take 1 ++ (accounts.drop (transferDestination expectedDecimals)).take 1

/-- The accounts behind the authority of a transfer, which its hook is passed. -/
def transferHookAccounts (expectedDecimals : Option UInt8) (accounts : List AccountInfo) :
    List AccountInfo :=
  (accounts.drop (transferDestination expectedDecimals)).drop 2

/-- The destination, and the accounts behind the authority and its signers. -/
def withheldWritable (authority : ℕ) (numTokenAccounts : UInt8) (accounts : List AccountInfo) :
    List AccountInfo :=
  let accountInfos := accounts.drop (authority + 1)
  (accounts.drop 1).take 1 ++ accountInfos.drop (accountInfos.length - numTokenAccounts.toNat)

end BarkToken
