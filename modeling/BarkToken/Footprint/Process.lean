import BarkToken.Footprint.Confidential
import BarkToken.Program.Run

/-!
# The footprint of an instruction (instruction.rs, extension/*/instruction.rs)
-/

namespace BarkToken
open Fallible Footprint

namespace TokenInstruction

/-- The accounts that the client function of an instruction marks as writable; with `fee`,
that of a transfer with a fee whose split proofs are closed. -/
def writable (ix : TokenInstruction) (fee : Bool) (accounts : List AccountInfo) : List AccountInfo :=
  match ix with
  | getAccountDataSize _ => []
  | transfer _ => transferWritable none accounts
  | transferChecked _ decimals => transferWritable (some decimals) accounts
  | transferCheckedWithFee _ decimals _ => transferWritable (some decimals) accounts
  | mintTo _ _ => accounts.take 2
  | burn _ _ => accounts.take 2
  | closeAccount => accounts.take 2
  | reallocate _ => accounts.take 2
  | createNativeMint => accounts.take 2
  | withdrawExcessLamports => accounts.take 2
  | withdrawWithheldTokensFromMint => accounts.take 2
  | confidentialWithdrawFromMint _ _ => accounts.take 2
  | withdrawWithheldTokensFromAccounts n => withheldWritable 2 n accounts
  | confidentialWithdrawFromAccounts n _ _ => accounts.take 1 ++ withheldWritable 3 n accounts
  | harvestWithheldTokensToMint => accounts
  | confidentialHarvestToMint => accounts
  | initializeMember => accounts.take 1 ++ (accounts.drop 3).take 1
  | confidentialTransfer _ _ => confidentialTransferWritable fee false accounts
  | confidentialTransferWithSplitProofs _ _ close _ => confidentialTransferWritable fee close accounts
  | _ => accounts.take 1

/-- The accounts behind those of a transfer, which its hook may ask for. -/
def hookAccounts (ix : TokenInstruction) (accounts : List AccountInfo) : List AccountInfo :=
  match ix with
  | transfer _ => transferHookAccounts none accounts
  | transferChecked _ decimals => transferHookAccounts (some decimals) accounts
  | transferCheckedWithFee _ decimals _ => transferHookAccounts (some decimals) accounts
  | confidentialTransfer _ _ => accounts.drop 3
  | confidentialTransferWithSplitProofs _ _ _ _ => accounts.drop 3
  | _ => []

/-- Of these, the ones that the hook's own list marks as writable. -/
def hookWritable (ix : TokenInstruction) (extra : List Pubkey) (accounts : List AccountInfo) :
    List AccountInfo :=
  (ix.hookAccounts accounts).filter fun info => decide (info.key ∈ extra)

/-- Split proofs are closed, of which there are those of a fee, the mint having one. -/
def closesFeeProofs (ix : TokenInstruction) (l : Ledger) (accounts : List AccountInfo) : Bool :=
  match ix with
  | confidentialTransferWithSplitProofs _ _ close _ =>
    close && accounts[1]?.any fun mint => isFeeMint l mint.key
  | _ => false

end TokenInstruction

variable {R W : Set Pubkey} {s t l m : Ledger} {accounts : List AccountInfo} {env : Env}
  {extra : List Pubkey} {fee : Bool}

/-- What an instruction may write. -/
def TokenInstruction.mayWrite (ix : TokenInstruction) (fee : Bool) (extra : List Pubkey)
    (accounts : List AccountInfo) : List AccountInfo :=
  ix.writable fee accounts ++ ix.hookWritable extra accounts

end BarkToken
