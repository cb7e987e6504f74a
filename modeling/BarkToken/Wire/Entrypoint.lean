import BarkToken.Foundation.Transition
import BarkToken.Processor.UiAmount
import BarkToken.Program.Run
import BarkToken.Wire.Extension

/-!
# `Processor::process` from its input bytes (entrypoint.rs, processor.rs:1528-1789)

What is behind the tag is decoded further, and the handler is run. Runs of the
program are sequences of inputs, interleaved with steps of other programs.
-/

namespace BarkToken
namespace Wire
open Fallible Bytes

/-! ### The interfaces -/

/-- `TokenMetadataInstruction`. -/
inductive TokenMetadataInstruction where
  | initializeMetadata (name symbol uri : String)
  | updateField (field : MetadataField) (value : String)
  | removeKey (idempotent : Bool) (key : String)
  | updateAuthority (newAuthority : OptionalNonZeroPubkey)
  | emit (start stop : Option UInt64)
deriving DecidableEq

/-- `TokenGroupInstruction`. -/
inductive TokenGroupInstruction where
  | initializeGroup (updateAuthority : OptionalNonZeroPubkey) (maxSize : UInt32)
  | updateGroupMaxSize (maxSize : UInt32)
  | updateGroupAuthority (newAuthority : OptionalNonZeroPubkey)
  | initializeMember
deriving DecidableEq

/-- `TokenMetadataInstruction::unpack` and `TokenGroupInstruction::unpack`, which are
not part of the repository. -/
structure InterfaceDecoders where
  unpackMetadata : Bytes → Option TokenMetadataInstruction
  unpackGroup : Bytes → Option TokenGroupInstruction

/-! ### What an input asks for -/

inductive Request where
  | instruction (ix : BarkToken.TokenInstruction)
  /-- `GetAccountDataSize` and `Reallocate` where one of the types is `Uninitialized`. -/
  | getAccountDataSizeUninitialized (extensionTypes : List (Option ExtensionType))
  | reallocateUninitialized (extensionTypes : List (Option ExtensionType))
  | amountToUiAmount (amount : UInt64)
  | uiAmountToAmount (uiAmount : String)
  | emit (start stop : Option UInt64)

/-- `token_metadata::processor::process_instruction`, up to the handler. -/
def TokenMetadataInstruction.request : TokenMetadataInstruction → Request
  | initializeMetadata name symbol uri => .instruction (.initializeMetadata name symbol uri)
  | updateField field value => .instruction (.updateField field value)
  | removeKey idempotent key => .instruction (.removeKey idempotent key)
  | updateAuthority newAuthority => .instruction (.updateMetadataAuthority newAuthority)
  | emit start stop => .emit start stop

/-- `token_group::processor::process_instruction`, up to the handler. -/
def TokenGroupInstruction.request : TokenGroupInstruction → Request
  | initializeGroup updateAuthority maxSize =>
    .instruction (.initializeGroup updateAuthority maxSize)
  | updateGroupMaxSize maxSize => .instruction (.updateGroupMaxSize maxSize)
  | updateGroupAuthority newAuthority => .instruction (.updateGroupAuthority newAuthority)
  | initializeMember => .instruction .initializeMember

/-- The arms of `Processor::process`, with the bytes behind the tag. -/
def TokenInstruction.request (rest : Bytes) : TokenInstruction → Except Fault Request
  | initializeMint decimals mintAuthority freezeAuthority =>
    return .instruction (.initializeMint decimals mintAuthority freezeAuthority true)
  | initializeMint2 decimals mintAuthority freezeAuthority =>
    return .instruction (.initializeMint decimals mintAuthority freezeAuthority false)
  | initializeAccount => return .instruction .initializeAccount
  | initializeAccount2 owner => return .instruction (.initializeAccount2 owner)
  | initializeAccount3 owner => return .instruction (.initializeAccount3 owner)
  | initializeMultisig m => return .instruction (.initializeMultisig m true)
  | initializeMultisig2 m => return .instruction (.initializeMultisig m false)
  | transfer amount => return .instruction (.transfer amount)
  | approve amount => return .instruction (.approve amount none)
  | revoke => return .instruction .revoke
  | setAuthority authorityType newAuthority =>
    return .instruction (.setAuthority authorityType newAuthority)
  | mintTo amount => return .instruction (.mintTo amount none)
  | burn amount => return .instruction (.burn amount none)
  | closeAccount => return .instruction .closeAccount
  | freezeAccount => return .instruction (.toggleFreezeAccount true)
  | thawAccount => return .instruction (.toggleFreezeAccount false)
  | transferChecked amount decimals => return .instruction (.transferChecked amount decimals)
  | approveChecked amount decimals => return .instruction (.approve amount (some decimals))
  | mintToChecked amount decimals => return .instruction (.mintTo amount (some decimals))
  | burnChecked amount decimals => return .instruction (.burn amount (some decimals))
  | syncNative => return .instruction .syncNative
  | getAccountDataSize extensionTypes =>
    match extensionTypes.mapM id with
    | some types => return .instruction (.getAccountDataSize types)
    | none => return .getAccountDataSizeUninitialized extensionTypes
  | initializeMintCloseAuthority closeAuthority =>
    return .instruction (.initializeMintCloseAuthority closeAuthority)
  | transferFeeExtension => do return .instruction (← decodeTransferFee rest)
  | confidentialTransferExtension => do return .instruction (← decodeConfidentialTransfer rest)
  | defaultAccountStateExtension => do return .instruction (← decodeDefaultAccountState rest)
  | initializeImmutableOwner => return .instruction .initializeImmutableOwner
  | amountToUiAmount amount => return .amountToUiAmount amount
  | uiAmountToAmount uiAmount => return .uiAmountToAmount uiAmount
  | reallocate extensionTypes =>
    match extensionTypes.mapM id with
    | some types => return .instruction (.reallocate types)
    | none => return .reallocateUninitialized extensionTypes
  | memoTransferExtension => do return .instruction (← decodeMemoTransfer rest)
  | createNativeMint => return .instruction .createNativeMint
  | initializeNonTransferableMint => return .instruction .initializeNonTransferableMint
  | interestBearingMintExtension => do return .instruction (← decodeInterestBearingMint rest)
  | cpiGuardExtension => do return .instruction (← decodeCpiGuard rest)
  | initializePermanentDelegate delegate => return .instruction (.initializePermanentDelegate delegate)
  | transferHookExtension => do return .instruction (← decodeTransferHook rest)
  | confidentialTransferFeeExtension => do return .instruction (← decodeConfidentialTransferFee rest)
  | withdrawExcessLamports => return .instruction .withdrawExcessLamports
  | metadataPointerExtension => do return .instruction (← decodeMetadataPointer rest)
  | groupPointerExtension => do return .instruction (← decodeGroupPointer rest)
  | groupMemberPointerExtension => do return .instruction (← decodeGroupMemberPointer rest)

/-- The decoding of `Processor::process`: a tag of this program's, or one of the
interfaces. -/
def decodeInput (interfaces : InterfaceDecoders) (input : Bytes) : Except Fault Request :=
  match decodeInstructionType input with
  | .ok t => do
    let i ← t.decode input
    let rest ← slice input 1 input.length
    i.request rest
  | .error _ =>
    match interfaces.unpackMetadata input, interfaces.unpackGroup input with
    | some i, _ => return i.request
    | none, some i => return i.request
    | none, none => .error TokenError.invalidInstruction

/-- A request as the client functions write it, with `x` and `y` for what is true. -/
def Request.encodeWith (x y : UInt8) : Request → Option Bytes
  | .instruction ix => Wire.encodeWith x y ix
  | .getAccountDataSizeUninitialized extensionTypes =>
    if none ∈ extensionTypes then some (TokenInstruction.getAccountDataSize extensionTypes).pack
    else none
  | .reallocateUninitialized extensionTypes =>
    if none ∈ extensionTypes then some (TokenInstruction.reallocate extensionTypes).pack else none
  | .amountToUiAmount amount => some (TokenInstruction.amountToUiAmount amount).pack
  | .uiAmountToAmount uiAmount => some (TokenInstruction.uiAmountToAmount uiAmount).pack
  | .emit _ _ => none

/-- What the client functions write. -/
def Request.encode : Request → Option Bytes := encodeWith 1 1

/-! ### Handlers that write nothing -/

/-- `process_reallocate` where one of the types is `Uninitialized`, which no account
has (`reallocate.rs:24-58`). -/
def processReallocateUninitialized (accounts : List AccountInfo) (l : Ledger) :
    Except Fault Ledger := do
  let (tokenAccountInfo, accounts) ← nextAccountInfo accounts
  let (_, accounts) ← nextAccountInfo accounts
  let (_, accounts) ← nextAccountInfo accounts
  let (authorityInfo, signers) ← nextAccountInfo accounts
  let account ← (l tokenAccountInfo.key).data.unpackAccount
  validateOwner l account.base.owner authorityInfo signers
  .error TokenError.invalidState

/-- `process_emit` (`token_metadata/processor.rs:194-209`), which returns a slice of the
metadata's bytes. -/
def processEmit (accounts : List AccountInfo) (l : Ledger) : Except Fault TokenMetadata := do
  let (metadataInfo, _) ← nextAccountInfo accounts
  ensure ((l metadataInfo.key).owner = programId) (ProgramError.illegalOwner : Fault)
  let mint ← (l metadataInfo.key).data.unpackMint
  mint.getExtension .tokenMetadata

/-! ### Processing -/

/-- The program, with the code of other crates that it is linked with. -/
structure Program where
  x : Externals
  display : InterestDisplay
  interfaces : InterfaceDecoders

namespace Program

/-- The handler that a request is for. -/
def handle (p : Program) (env : Env) (accounts : List AccountInfo) (l : Ledger) :
    Request → Except Fault Ledger
  | .instruction ix => BarkToken.process p.x env ix accounts l
  | .getAccountDataSizeUninitialized _ => .error TokenError.extensionTypeMismatch
  | .reallocateUninitialized _ => processReallocateUninitialized accounts l
  | .amountToUiAmount amount => do
    let _ ← processAmountToUiAmount p.display env amount accounts l
    return l
  | .uiAmountToAmount uiAmount => do
    let _ ← processUiAmountToAmount p.display env uiAmount.toList accounts l
    return l
  | .emit _ _ => do
    let _ ← processEmit accounts l
    return l

/-- `Processor::process`. -/
def process (p : Program) (env : Env) (accounts : List AccountInfo) (input : Bytes) (l : Ledger) :
    Except Fault Ledger := do
  let request ← decodeInput p.interfaces input
  p.handle env accounts l request

/-- What the runtime keeps of it. -/
def execute (p : Program) (env : Env) (accounts : List AccountInfo) (input : Bytes) (l : Ledger) :
    Ledger :=
  match p.process env accounts input l with
  | .ok l' => l'
  | .error _ => l

end Program

/-- One event of a run on bytes. -/
inductive InputEvent where
  | input (env : Env) (accounts : List AccountInfo) (bytes : Bytes)
  | external

/-- What an event may do to the ledger. -/
def InputEvent.step (p : Program) (l : Ledger) (e : InputEvent) (l' : Ledger) : Prop :=
  match e with
  | .input env accounts bytes => l' = p.execute env accounts bytes l
  | .external => ForeignStep l l'

abbrev InputRun (p : Program) : Ledger → List InputEvent → Ledger → Prop :=
  Transition.Run (InputEvent.step p)

end Wire
end BarkToken
