import BarkToken.Processor.Supply

/-!
# Excess lamports, account sizes and reallocation (processor.rs:1297-1321, 1453-1525, reallocate.rs)
-/

namespace BarkToken
open Fallible CheckedWord

/-- Who may withdraw excess lamports (`processor.rs:1468-1505`). -/
def authorizeWithdrawExcess (l : Ledger) (sourceKey : Pubkey) (authorityInfo : AccountInfo)
    (signers : List AccountInfo) : Except Fault Unit :=
  match (l sourceKey).data.unpackAccount with
  | .ok account => do
    ensure (account.base.isNative = none) (TokenError.nativeNotSupported : Fault)
    validateOwner l account.base.owner authorityInfo signers
  | .error _ =>
    match (l sourceKey).data.unpackMint with
    | .ok mint => do
      let mintAuthority ← okOr mint.base.mintAuthority
        (TokenError.authorityTypeNotSupported : Fault)
      validateOwner l mintAuthority authorityInfo signers
    | .error _ =>
      if (l sourceKey).data.len = multisigLen then validateOwner l sourceKey authorityInfo signers
      else .error TokenError.invalidState

/-- `process_withdraw_excess_lamports` (`processor.rs:1456-1525`). -/
def processWithdrawExcessLamports (env : Env) (accounts : List AccountInfo) (l : Ledger) :
    Except Fault Ledger := do
  let (sourceInfo, accounts) ← nextAccountInfo accounts
  let (destinationInfo, accounts) ← nextAccountInfo accounts
  let (authorityInfo, signers) ← nextAccountInfo accounts
  authorizeWithdrawExcess l sourceInfo.key authorityInfo signers
  let sourceLamports := (l sourceInfo.key).lamports
  let transferAmount ← okOr
    (checkedSub sourceLamports (env.minimumBalance (l sourceInfo.key).data.len))
    (TokenError.notRentExempt : Fault)
  let newSourceLamports ← okOr (checkedSub sourceLamports transferAmount)
    (TokenError.overflow : Fault)
  let l ← l.writeLamports sourceInfo.key newSourceLamports
  let destinationLamports ← okOr (checkedAdd (l destinationInfo.key).lamports transferAmount)
    (TokenError.overflow : Fault)
  l.writeLamports destinationInfo.key destinationLamports

/-- `process_get_account_data_size` (`processor.rs:1298-1321`), which returns the
length as the instruction's return data. -/
def processGetAccountDataSize (newExtensionTypes : List ExtensionType)
    (accounts : List AccountInfo) (l : Ledger) : Except Fault ℕ := do
  ensure (∀ t ∈ newExtensionTypes, t.accountType = .account)
    (TokenError.extensionTypeMismatch : Fault)
  let (mintInfo, _) ← nextAccountInfo accounts
  let mint ← mapErr (l mintInfo.key).data.unpackMint fun _ => TokenError.invalidMint
  let accountExtensions ← getRequiredAccountExtensions (l mintInfo.key).owner mint
  ExtensionType.calculateAccountLen baseAccountLength (accountExtensions ++ newExtensionTypes)

/-- The lamports a grown account still lacks, taken from the payer
(`reallocate.rs:76-96`). -/
def topUpRent (l : Ledger) (payerInfo : AccountInfo) (k : Pubkey) (lamportsDiff : UInt64) :
    Except Fault Ledger :=
  if 0 < lamportsDiff then systemTransfer l payerInfo k lamportsDiff else .ok l

/-- The recorded reserve of a native account follows its new length
(`reallocate.rs:102-113`). -/
def syncReserve (l : Ledger) (k : Pubkey) (account : PodStateWithExtensions PodAccount)
    (newReserve : UInt64) : Except Fault Ledger :=
  if account.base.isNative.isSome then do
    let minimumLamports ← okOr (checkedAdd newReserve account.base.amount)
      (TokenError.overflow : Fault)
    ensure (minimumLamports ≤ (l k).lamports) (TokenError.invalidState : Fault)
    l.writeData k (.account
      { account with base := { account.base with isNative := some newReserve } })
  else .ok l

/-- `process_reallocate` (`reallocate.rs:24-116`). -/
def processReallocate (env : Env) (newExtensionTypes : List ExtensionType)
    (accounts : List AccountInfo) (l : Ledger) : Except Fault Ledger := do
  let (tokenAccountInfo, accounts) ← nextAccountInfo accounts
  let (payerInfo, accounts) ← nextAccountInfo accounts
  let (_, accounts) ← nextAccountInfo accounts
  let (authorityInfo, signers) ← nextAccountInfo accounts
  let account ← (l tokenAccountInfo.key).data.unpackAccount
  validateOwner l account.base.owner authorityInfo signers
  ensure (∀ t ∈ newExtensionTypes, t.accountType = .account) (TokenError.invalidState : Fault)
  let neededAccountLen ← ExtensionType.calculateAccountLen baseAccountLength
    (account.extensionTypes ++ newExtensionTypes)
  if neededAccountLen ≤ account.len then return l
  else do
    let account := { account with len := neededAccountLen }
    let l ← l.writeData tokenAccountInfo.key (.account account)
    let newReserve := env.minimumBalance neededAccountLen
    let nativeTokenAmount := if account.base.isNative.isSome then account.base.amount else 0
    let currentReserve ← okOr (checkedSub (l tokenAccountInfo.key).lamports nativeTokenAmount)
      (TokenError.overflow : Fault)
    let l ← topUpRent l payerInfo tokenAccountInfo.key (saturatingSub newReserve currentReserve)
    syncReserve l tokenAccountInfo.key account newReserve

end BarkToken
