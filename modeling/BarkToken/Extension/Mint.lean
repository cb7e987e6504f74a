import BarkToken.Processor.Authority

/-!
# Mint settings (extension/{default_account_state, interest_bearing_mint, transfer_hook,
metadata_pointer, group_pointer, group_member_pointer}/processor.rs)
-/

namespace BarkToken
open Fallible CheckedWord

/-! ### Default account state -/

/-- `check_valid_default_state`. -/
def checkValidDefaultState (state : AccountState) : Except Fault Unit :=
  ensure (state ≠ .uninitialized) (TokenError.invalidState : Fault)

/-- `process_initialize_default_account_state`
(`default_account_state/processor.rs:31-43`). -/
def processInitializeDefaultAccountState (state : AccountState) (accounts : List AccountInfo)
    (l : Ledger) : Except Fault Ledger := do
  checkValidDefaultState state
  initMintExtension .defaultAccountState (pure ⟨state⟩) true accounts l

/-- `process_update_default_account_state`
(`default_account_state/processor.rs:45-76`). -/
def processUpdateDefaultAccountState (state : AccountState) (accounts : List AccountInfo)
    (l : Ledger) : Except Fault Ledger := do
  checkValidDefaultState state
  let (mintInfo, accounts) ← nextAccountInfo accounts
  let (freezeAuthorityInfo, signers) ← nextAccountInfo accounts
  let mint ← (l mintInfo.key).data.unpackMint
  let freezeAuthority ← okOr mint.base.freezeAuthority (TokenError.noAuthorityExists : Fault)
  validateOwner l freezeAuthority freezeAuthorityInfo signers
  let _ ← mint.getExtension .defaultAccountState
  l.writeData mintInfo.key (.mint (mint.setExtension .defaultAccountState ⟨state⟩))

/-! ### Updates by the extension's own authority -/

/-- An extension of a mint, changed under the authority it stores: the shape of
`process_update` in the interest, hook and pointer processors. -/
def updateMintExtension (t : ExtensionType) (authority : t.Value → OptionalNonZeroPubkey)
    (update : t.Value → Except Fault t.Value) (accounts : List AccountInfo) (l : Ledger) :
    Except Fault Ledger := do
  let (mintInfo, accounts) ← nextAccountInfo accounts
  let (ownerInfo, signers) ← nextAccountInfo accounts
  let mint ← (l mintInfo.key).data.unpackMint
  let extension ← mint.getExtension t
  let owner ← okOr (authority extension).toOption (TokenError.noAuthorityExists : Fault)
  validateOwner l owner ownerInfo signers
  let extension ← update extension
  l.writeData mintInfo.key (.mint (mint.setExtension t extension))

/-! ### Interest -/

/-- `time_weighted_average_rate` (`interest_bearing_mint/mod.rs:128-147`), in
`i128`; the division rounds towards zero. -/
def InterestBearingConfig.timeWeightedAverageRate (c : InterestBearingConfig)
    (currentTimestamp : Int64) : Option Int16 := do
  let t₁ ← fitsInt 128 (c.lastUpdateTimestamp.toInt - c.initializationTimestamp.toInt)
  let t₂ ← fitsInt 128 (currentTimestamp.toInt - c.lastUpdateTimestamp.toInt)
  let totalTimespan ← fitsInt 128 (t₁ + t₂)
  let averageRate ← (
    if totalTimespan = 0 then some c.currentRate.toInt
    else do
      let earlier ← fitsInt 128 (c.preUpdateAverageRate.toInt * t₁)
      let later ← fitsInt 128 (c.currentRate.toInt * t₂)
      let sum ← fitsInt 128 (earlier + later)
      fitsInt 128 (sum.tdiv totalTimespan))
  (fitsInt 16 averageRate).map Int16.ofInt

/-- `process_initialize` (`interest_bearing_mint/processor.rs:27-49`). -/
def processInitializeInterestBearingMint (env : Env) (rateAuthority : OptionalNonZeroPubkey)
    (rate : Int16) (accounts : List AccountInfo) (l : Ledger) : Except Fault Ledger :=
  initMintExtension .interestBearingConfig
    (pure ⟨rateAuthority, env.unixTimestamp, rate, env.unixTimestamp, rate⟩) true accounts l

/-- `process_update_rate` (`interest_bearing_mint/processor.rs:51-86`). -/
def processUpdateRate (env : Env) (newRate : Int16) (accounts : List AccountInfo) (l : Ledger) :
    Except Fault Ledger :=
  updateMintExtension .interestBearingConfig InterestBearingConfig.rateAuthority
    (fun extension => do
      let averageRate ← okOr (extension.timeWeightedAverageRate env.unixTimestamp)
        (TokenError.overflow : Fault)
      return { extension with
        preUpdateAverageRate := averageRate
        lastUpdateTimestamp := env.unixTimestamp
        currentRate := newRate })
    accounts l

/-! ### Transfer hook -/

/-- A mint cannot name this program as its hook. -/
def checkHookProgramId (hookProgram : OptionalNonZeroPubkey) : Except Fault Unit :=
  ensure (hookProgram.toOption ≠ some programId) (ProgramError.incorrectProgramId : Fault)

/-- `process_initialize` (`transfer_hook/processor.rs:29-53`). -/
def processInitializeTransferHook (authority hookProgram : OptionalNonZeroPubkey)
    (accounts : List AccountInfo) (l : Ledger) : Except Fault Ledger :=
  initMintExtension .transferHook
    (do
      checkHookProgramId hookProgram
      ensure (¬ (hookProgram.toOption = none ∧ authority.toOption = none))
        (TokenError.invalidInstruction : Fault)
      return ⟨authority, hookProgram⟩)
    true accounts l

/-- `process_update` (`transfer_hook/processor.rs:55-88`). -/
def processUpdateTransferHook (hookProgram : OptionalNonZeroPubkey) (accounts : List AccountInfo)
    (l : Ledger) : Except Fault Ledger :=
  updateMintExtension .transferHook TransferHook.authority
    (fun extension => do
      checkHookProgramId hookProgram
      return { extension with programId := hookProgram })
    accounts l

/-! ### Pointers -/

/-- At least an authority or an address has to be provided. -/
def checkPointer (authority address : OptionalNonZeroPubkey) : Except Fault Unit :=
  ensure (¬ (authority.toOption = none ∧ address.toOption = none))
    (TokenError.invalidInstruction : Fault)

/-- `process_initialize` (`metadata_pointer/processor.rs:26-48`). -/
def processInitializeMetadataPointer (authority metadataAddress : OptionalNonZeroPubkey)
    (accounts : List AccountInfo) (l : Ledger) : Except Fault Ledger :=
  initMintExtension .metadataPointer
    (do
      checkPointer authority metadataAddress
      return ⟨authority, metadataAddress⟩)
    true accounts l

/-- `process_initialize` (`group_pointer/processor.rs:26-51`), which makes the
check before it looks at the buffer's space. -/
def processInitializeGroupPointer (authority groupAddress : OptionalNonZeroPubkey)
    (accounts : List AccountInfo) (l : Ledger) : Except Fault Ledger := do
  let (mintInfo, _) ← nextAccountInfo accounts
  let _ ← (l mintInfo.key).data.unpackUninitializedMint
  checkPointer authority groupAddress
  initMintExtension .groupPointer (pure ⟨authority, groupAddress⟩) true accounts l

/-- `process_initialize` (`group_member_pointer/processor.rs:26-51`). -/
def processInitializeGroupMemberPointer (authority memberAddress : OptionalNonZeroPubkey)
    (accounts : List AccountInfo) (l : Ledger) : Except Fault Ledger := do
  let (mintInfo, _) ← nextAccountInfo accounts
  let _ ← (l mintInfo.key).data.unpackUninitializedMint
  checkPointer authority memberAddress
  initMintExtension .groupMemberPointer (pure ⟨authority, memberAddress⟩) true accounts l

/-- `process_update` (`metadata_pointer/processor.rs:50-78`). -/
def processUpdateMetadataPointer (metadataAddress : OptionalNonZeroPubkey)
    (accounts : List AccountInfo) (l : Ledger) : Except Fault Ledger :=
  updateMintExtension .metadataPointer MetadataPointer.authority
    (fun extension => pure { extension with metadataAddress := metadataAddress }) accounts l

/-- `process_update` (`group_pointer/processor.rs:53-81`). -/
def processUpdateGroupPointer (groupAddress : OptionalNonZeroPubkey)
    (accounts : List AccountInfo) (l : Ledger) : Except Fault Ledger :=
  updateMintExtension .groupPointer GroupPointer.authority
    (fun extension => pure { extension with groupAddress := groupAddress }) accounts l

/-- `process_update` (`group_member_pointer/processor.rs:53-81`). -/
def processUpdateGroupMemberPointer (memberAddress : OptionalNonZeroPubkey)
    (accounts : List AccountInfo) (l : Ledger) : Except Fault Ledger :=
  updateMintExtension .groupMemberPointer GroupMemberPointer.authority
    (fun extension => pure { extension with memberAddress := memberAddress }) accounts l

end BarkToken
