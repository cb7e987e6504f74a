import BarkToken.State.Ledger

/-!
# Checks the handlers share (lib.rs:104-140, processor.rs:1791-1851)
-/

namespace BarkToken
open Fallible

/-- `check_program_account`. -/
def checkProgramAccount (owner : Pubkey) : Except Fault Unit :=
  ensure (owner = programId) (ProgramError.incorrectProgramId : Fault)

/-- `check_system_program_account`. -/
def checkSystemProgramAccount (owner : Pubkey) : Except Fault Unit :=
  ensure (owner = systemProgram) (ProgramError.incorrectProgramId : Fault)

/-- `check_zk_token_proof_program_account`. -/
def checkZkTokenProofProgramAccount (owner : Pubkey) : Except Fault Unit :=
  ensure (owner = zkTokenProofProgram) (ProgramError.incorrectProgramId : Fault)

/-- `info.data.borrow()` or `.borrow_mut()` while the data of the accounts
`held` is mutably borrowed: sharing one of them panics. -/
def borrowData (held : List Pubkey) (k : Pubkey) : Except Fault Unit :=
  ensure (k ∉ held) Fault.panic

/-- `Rent::from_account_info(next_account_info(iter)?)?` where the variant of the
instruction passes the sysvar, `Rent::get()?` where it does not. -/
def takeRent (rentSysvarAccount : Bool) (accounts : List AccountInfo) :
    Except Fault (List AccountInfo) :=
  if rentSysvarAccount then do
    let (rentInfo, accounts) ← nextAccountInfo accounts
    ensure (rentInfo.key = rentSysvar) (ProgramError.invalidArgument : Fault)
    return accounts
  else return accounts

/-! ### Authorities -/

/-- `matched` and `num_signers` of `validate_owner`. -/
structure MatchedSigners where
  matched : List ℕ
  numSigners : ℕ

/-- The inner pass: `signer` against the key at `position`. -/
def matchSigner (signer : AccountInfo) (s : MatchedSigners) (entry : Pubkey × ℕ) :
    Except Fault MatchedSigners :=
  if entry.1 = signer.key ∧ entry.2 ∉ s.matched then do
    ensure (signer.isSigner = true) (ProgramError.missingRequiredSignature : Fault)
    return ⟨entry.2 :: s.matched, s.numSigners + 1⟩
  else return s

/-- Both loops of `validate_owner` over the multisig's keys and the signers. -/
def countSigners (keys : List Pubkey) (signers : List AccountInfo) : Except Fault MatchedSigners :=
  loop (fun s signer => loop (matchSigner signer) keys.zipIdx s) signers ⟨[], 0⟩

/-- `Processor::validate_owner` (`processor.rs:1792-1829`). -/
def validateOwner (l : Ledger) (expectedOwner : Pubkey) (ownerInfo : AccountInfo)
    (signers : List AccountInfo) : Except Fault Unit := do
  ensure (expectedOwner = ownerInfo.key) (TokenError.ownerMismatch : Fault)
  if (l ownerInfo.key).owner = programId ∧ (l ownerInfo.key).data.len = multisigLen then do
    let multisig ← (l ownerInfo.key).data.readMultisig
    ensure (multisig.n.toNat ≤ 11) Fault.panic
    let count ← countSigners (multisig.signers.toList.take multisig.n.toNat) signers
    ensure (multisig.m.toNat ≤ count.numSigners) (ProgramError.missingRequiredSignature : Fault)
  else
    ensure (ownerInfo.isSigner = true) (ProgramError.missingRequiredSignature : Fault)

theorem validateOwner_key {l : Ledger} {key : Pubkey} {info : AccountInfo}
    {signers : List AccountInfo} (h : validateOwner l key info signers = .ok ()) :
    key = info.key := by
  rw [validateOwner, ensure_bind_eq_ok] at h
  exact h.1

/-! ### Account extensions that a mint asks for -/

/-- `get_required_init_account_extensions` (`extension/mod.rs:1267-1289`). -/
def ExtensionType.requiredInitAccountExtensions (mintTypes : List ExtensionType) :
    List ExtensionType :=
  mintTypes.flatMap fun
    | transferFeeConfig => [transferFeeAmount]
    | nonTransferable => [nonTransferableAccount, immutableOwner]
    | transferHook => [transferHookAccount]
    | _ => []

/-- `get_required_account_extensions_from_unpacked_mint` (`processor.rs:1840-1850`). -/
def getRequiredAccountExtensions (mintOwner : Pubkey) (mint : PodStateWithExtensions PodMint) :
    Except Fault (List ExtensionType) := do
  checkProgramAccount mintOwner
  return ExtensionType.requiredInitAccountExtensions mint.extensionTypes

/-- `try_get_total_tlv_len` (`extension/mod.rs:1191-1202`): duplicates count once. -/
def ExtensionType.totalTlvLen (types : List ExtensionType) : Except Fault ℕ :=
  loop (fun n t => do
    let valueLen ← okOr t.typeLen (ProgramError.invalidArgument : Fault)
    return n + Tlv.entryLen valueLen) types.eraseDups 0

/-- `try_calculate_account_len` (`extension/mod.rs:1207-1217`). -/
def ExtensionType.calculateAccountLen (sizeOf : ℕ) (types : List ExtensionType) :
    Except Fault ℕ :=
  if types = [] then .ok sizeOf
  else do
    let tlvLen ← totalTlvLen types
    return adjustLenForMultisig (tlvLen + baseAccountAndTypeLength)

end BarkToken
