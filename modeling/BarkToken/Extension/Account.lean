import BarkToken.Processor.Transfer

/-!
# Account settings (extension/memo_transfer/processor.rs, extension/cpi_guard/processor.rs)
-/

namespace BarkToken
open Fallible

/-- The extension where the account has it, else a new one, with the value `v`
written into it. -/
def setOrInitExtension (account : PodStateWithExtensions PodAccount) (t : ExtensionType)
    (v : t.Value) : Except Fault (PodStateWithExtensions PodAccount) :=
  match account.tlv.get t with
  | some _ => .ok (account.setExtension t v)
  | none => do
    let account ← account.initExtension t default true
    return account.setExtension t v

/-- `process_toggle_required_memo_transfers` (`memo_transfer/processor.rs:22-49`). -/
def processToggleRequiredMemoTransfers (enable : Bool) (accounts : List AccountInfo)
    (l : Ledger) : Except Fault Ledger := do
  let (tokenAccountInfo, accounts) ← nextAccountInfo accounts
  let (ownerInfo, signers) ← nextAccountInfo accounts
  let account ← (l tokenAccountInfo.key).data.unpackAccount
  validateOwner l account.base.owner ownerInfo signers
  let account ← setOrInitExtension account .memoTransfer ⟨enable⟩
  l.writeData tokenAccountInfo.key (.account account)

/-- `process_toggle_cpi_guard` (`cpi_guard/processor.rs:23-55`). -/
def processToggleCpiGuard (env : Env) (enable : Bool) (accounts : List AccountInfo)
    (l : Ledger) : Except Fault Ledger := do
  let (tokenAccountInfo, accounts) ← nextAccountInfo accounts
  let (ownerInfo, signers) ← nextAccountInfo accounts
  let account ← (l tokenAccountInfo.key).data.unpackAccount
  validateOwner l account.base.owner ownerInfo signers
  ensure (¬ env.inCpi) (TokenError.cpiGuardSettingsLocked : Fault)
  let account ← setOrInitExtension account .cpiGuard ⟨enable⟩
  l.writeData tokenAccountInfo.key (.account account)

end BarkToken
