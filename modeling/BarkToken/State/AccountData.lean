import BarkToken.Foundation.Fallible
import BarkToken.State.Error
import BarkToken.State.ProofContext

/-!
# Account data (pod.rs, extension/mod.rs)

The bytes of an account, by what the program's views make of them: a base
state followed by its extensions, a multisig, zeroes with extensions already
written, or data of another program.
-/

namespace BarkToken
open Fallible

/-! ### Base states -/

/-- `PodMint` (`pod.rs:22-41`). -/
structure PodMint where
  mintAuthority : Option Pubkey
  supply : UInt64
  decimals : UInt8
  isInitialized : Bool
  freezeAuthority : Option Pubkey
deriving DecidableEq, Inhabited

/-- `PodAccount` (`pod.rs:65-93`). -/
structure PodAccount where
  mint : Pubkey
  owner : Pubkey
  amount : UInt64
  delegate : Option Pubkey
  state : AccountState
  isNative : Option UInt64
  delegatedAmount : UInt64
  closeAuthority : Option Pubkey
deriving DecidableEq, Inhabited

/-- `PodMultisig` (`pod.rs:127-140`), with `MAX_SIGNERS` keys. -/
structure PodMultisig where
  m : UInt8
  n : UInt8
  isInitialized : Bool
  signers : Vector Pubkey 11
deriving DecidableEq

/-- All bytes zero. -/
def PodMultisig.zeroed : PodMultisig := ⟨0, 0, false, Vector.replicate _ default⟩

namespace PodAccount

/-- `is_frozen`. -/
def frozen (a : PodAccount) : Prop := a.state = .frozen

/-- `is_initialized`. -/
def initialized (a : PodAccount) : Prop := a.state ≠ .uninitialized

/-- `is_owned_by_system_program_or_incinerator`. -/
def ownedBySystemProgramOrIncinerator (a : PodAccount) : Prop :=
  a.owner = systemProgram ∨ a.owner = incinerator

instance (a : PodAccount) : Decidable a.frozen := inferInstanceAs (Decidable (_ = _))
instance (a : PodAccount) : Decidable a.initialized := inferInstanceAs (Decidable (_ ≠ _))
instance (a : PodAccount) : Decidable a.ownedBySystemProgramOrIncinerator :=
  inferInstanceAs (Decidable (_ ∨ _))

end PodAccount

/-! ### Lengths -/

/-- `Mint::LEN`. -/
def mintLen : ℕ := 82

/-- `BASE_ACCOUNT_LENGTH`, which is `Account::LEN`. -/
def baseAccountLength : ℕ := 165

/-- `BASE_ACCOUNT_AND_TYPE_LENGTH`. -/
def baseAccountAndTypeLength : ℕ := 166

/-- `Multisig::LEN`. -/
def multisigLen : ℕ := 355

/-- `adjust_len_for_multisig` (`extension/mod.rs:111-117`). -/
def adjustLenForMultisig (accountLen : ℕ) : ℕ :=
  if accountLen = multisigLen then accountLen + 2 else accountLen

/-! ### A base state with its extensions -/

/-- `PodStateWithExtensions<S>`: `len` is the length of the whole account. The
type argument of every `get_extension` and `alloc` in the program belongs to
the base state, and so do all entries, so no scan meets a foreign type. -/
structure PodStateWithExtensions (S : Type) where
  base : S
  len : ℕ
  tlv : Tlv
deriving DecidableEq

namespace PodStateWithExtensions

variable {S : Type}

/-- Bytes of the TLV buffer that no entry takes up. -/
def freeLen (s : PodStateWithExtensions S) : ℕ :=
  s.len - baseAccountAndTypeLength - s.tlv.usedLen

/-- `get_extension` and `get_extension_mut` (`extension/mod.rs:341-386`): with
no room for another type and length, the scan runs off the end of the buffer. -/
def getExtension (s : PodStateWithExtensions S) (t : ExtensionType) : Except Fault t.Value :=
  match s.tlv.get t with
  | some v => .ok v
  | none =>
    if s.freeLen < 4 then .error ProgramError.invalidAccountData
    else .error TokenError.extensionNotFound

/-- `get_extension::<V>().is_ok()`. -/
def hasExtension (s : PodStateWithExtensions S) (t : ExtensionType) : Prop :=
  (s.tlv.get t).isSome

instance (s : PodStateWithExtensions S) (t : ExtensionType) : Decidable (s.hasExtension t) :=
  inferInstanceAs (Decidable (_ = _))

/-- A write through the reference `get_extension_mut` returns. -/
def setExtension (s : PodStateWithExtensions S) (t : ExtensionType) (v : t.Value) :
    PodStateWithExtensions S := { s with tlv := s.tlv.put t v }

/-- `alloc`, and the write of the value into the entry it returns
(`extension/mod.rs:676-726`): `init_extension` and `init_variable_len_extension`. -/
def initExtension (s : PodStateWithExtensions S) (t : ExtensionType) (v : t.Value)
    (overwrite : Bool) : Except Fault (PodStateWithExtensions S) :=
  match s.tlv.get t with
  | none => do
    ensure (Tlv.entryLen (t.valueLen v) ≤ s.freeLen) (ProgramError.invalidAccountData : Fault)
    ensure (t.valueLen v < 65536) (ProgramError.accountDataTooSmall : Fault)
    return s.setExtension t v
  | some w => do
    ensure (overwrite = true) (TokenError.extensionAlreadyInitialized : Fault)
    ensure (t.valueLen w = t.valueLen v) (TokenError.invalidLengthForAlloc : Fault)
    return s.setExtension t v

/-- `get_extension_types`. -/
def extensionTypes (s : PodStateWithExtensions S) : List ExtensionType := s.tlv.tags

@[simp] theorem setExtension_base (s : PodStateWithExtensions S) (t v) :
    (s.setExtension t v).base = s.base := rfl
@[simp] theorem setExtension_len (s : PodStateWithExtensions S) (t v) :
    (s.setExtension t v).len = s.len := rfl
@[simp] theorem setExtension_tlv (s : PodStateWithExtensions S) (t v) :
    (s.setExtension t v).tlv = s.tlv.put t v := rfl

theorem getExtension_eq_ok {s : PodStateWithExtensions S} {t : ExtensionType} {v : t.Value} :
    s.getExtension t = .ok v ↔ s.tlv.get t = some v := by
  unfold getExtension
  cases s.tlv.get t with
  | none => simp only [reduceCtorEq, iff_false]; split <;> simp
  | some w => simp

/-- What a successful `init_extension` does, and when it may happen. -/
theorem initExtension_eq_ok {s s' : PodStateWithExtensions S} {t : ExtensionType} {v : t.Value}
    {overwrite : Bool} (h : s.initExtension t v overwrite = .ok s') :
    s' = s.setExtension t v ∧ (overwrite = false → s.tlv.get t = none) := by
  unfold initExtension at h
  split at h
  case h_1 hnone =>
    simp only [ensure_bind_eq_ok, pure_eq_ok] at h
    exact ⟨h.2.2.symm, fun _ => hnone⟩
  case h_2 w hsome =>
    simp only [ensure_bind_eq_ok, pure_eq_ok] at h
    refine ⟨h.2.2.symm, fun hf => ?_⟩
    simp [hf] at h

end PodStateWithExtensions

/-! ### Account data -/

inductive AccountData where
  /-- No base state, possibly with extensions initialised ahead of it. -/
  | zeroed (len : ℕ) (tlv : Tlv)
  | mint (s : PodStateWithExtensions PodMint)
  | account (s : PodStateWithExtensions PodAccount)
  | multisig (m : PodMultisig)
  /-- A `ProofContextState` of the proof program. -/
  | proofContext (len : ℕ) (c : ProofContext)
  /-- Bytes that none of the program's views accept. -/
  | foreign (len : ℕ)
deriving DecidableEq

namespace AccountData

/-- `data_len`. -/
def len : AccountData → ℕ
  | zeroed len _ => len
  | mint s => s.len
  | account s => s.len
  | multisig _ => multisigLen
  | proofContext len _ => len
  | foreign len => len

/-- `check_min_len_and_not_multisig` (`extension/mod.rs:258-264`). -/
def checkMinLenAndNotMultisig (len minimumLen : ℕ) : Except Fault Unit :=
  ensure (len ≠ multisigLen ∧ minimumLen ≤ len) (ProgramError.invalidAccountData : Fault)

/-- `type_and_tlv_indices` (`extension/mod.rs:300-320`): past the base state
there is either nothing, or an account type and at least one TLV byte. -/
def checkTypeAndTlv (len sizeOf : ℕ) : Except Fault Unit :=
  ensure (len = sizeOf ∨ baseAccountAndTypeLength < len) (ProgramError.invalidAccountData : Fault)

/-- `PodStateWithExtensions::<PodAccount>::unpack` (`extension/mod.rs:536-547`).
The state byte of a mint or of zeroed data is zero. -/
def unpackAccount (d : AccountData) : Except Fault (PodStateWithExtensions PodAccount) := do
  checkMinLenAndNotMultisig d.len baseAccountLength
  match d with
  | account s => do
    ensure s.base.initialized (ProgramError.uninitializedAccount : Fault)
    checkTypeAndTlv s.len baseAccountLength
    return s
  | mint _ => .error ProgramError.uninitializedAccount
  | zeroed _ _ => .error ProgramError.uninitializedAccount
  | _ => .error ProgramError.invalidAccountData

/-- `PodStateWithExtensions::<PodMint>::unpack`. Where a mint has its
initialised byte, a token account has byte 13 of its owner. -/
def unpackMint (d : AccountData) : Except Fault (PodStateWithExtensions PodMint) := do
  checkMinLenAndNotMultisig d.len mintLen
  match d with
  | mint s => do
    ensure (s.base.isInitialized = true) (ProgramError.uninitializedAccount : Fault)
    checkTypeAndTlv s.len mintLen
    return s
  | account s =>
    if s.base.owner.byte 13 = 0 then .error ProgramError.uninitializedAccount
    else .error ProgramError.invalidAccountData
  | zeroed _ _ => .error ProgramError.uninitializedAccount
  | _ => .error ProgramError.invalidAccountData

/-- `check_account_type_matches_extension_type` (`extension/mod.rs:788-798`). -/
def checkAccountTypeMatchesExtensionType (tlv : Tlv) (accountType : AccountType) :
    Except Fault Unit :=
  match tlv.head? with
  | some e => ensure (e.1.accountType = accountType) (TokenError.extensionBaseMismatch : Fault)
  | none => .ok ()

/-- `PodStateWithExtensionsMut::<PodAccount>::unpack_uninitialized`
(`extension/mod.rs:904-923`). -/
def unpackUninitializedAccount (d : AccountData) :
    Except Fault (PodStateWithExtensions PodAccount) := do
  checkMinLenAndNotMultisig d.len baseAccountLength
  match d with
  | account _ => .error TokenError.alreadyInUse
  | zeroed len tlv => do
    checkTypeAndTlv len baseAccountLength
    checkAccountTypeMatchesExtensionType tlv .account
    return ⟨default, len, tlv⟩
  | _ => .error ProgramError.invalidAccountData

/-- `PodStateWithExtensionsMut::<PodMint>::unpack_uninitialized`. -/
def unpackUninitializedMint (d : AccountData) : Except Fault (PodStateWithExtensions PodMint) := do
  checkMinLenAndNotMultisig d.len mintLen
  match d with
  | mint _ => .error TokenError.alreadyInUse
  | account s =>
    if s.base.owner.byte 13 = 0 then .error ProgramError.invalidAccountData
    else .error TokenError.alreadyInUse
  | zeroed len tlv => do
    checkTypeAndTlv len mintLen
    checkAccountTypeMatchesExtensionType tlv .mint
    return ⟨default, len, tlv⟩
  | _ => .error ProgramError.invalidAccountData

/-- `pod_from_bytes::<PodMultisig>`. -/
def readMultisig (d : AccountData) : Except Fault PodMultisig :=
  match d with
  | multisig m => .ok m
  | zeroed len _ => do
    ensure (len = multisigLen) (ProgramError.invalidArgument : Fault)
    return PodMultisig.zeroed
  | _ => .error ProgramError.invalidArgument

/-! ### What the views accept -/

theorem unpackAccount_eq_ok {d : AccountData} {s : PodStateWithExtensions PodAccount} :
    d.unpackAccount = .ok s ↔ d = account s ∧ s.base.initialized ∧ s.len ≠ multisigLen ∧
      (s.len = baseAccountLength ∨ baseAccountAndTypeLength < s.len) := by
  cases d with
  | account t =>
    simp only [unpackAccount, checkMinLenAndNotMultisig, checkTypeAndTlv, ensure_bind_eq_ok,
      pure_eq_ok]
    simp only [len, account.injEq, baseAccountLength, baseAccountAndTypeLength]
    constructor
    · rintro ⟨⟨hm, -⟩, hi, ht, rfl⟩
      exact ⟨rfl, hi, hm, ht⟩
    · rintro ⟨rfl, hi, hm, ht⟩
      exact ⟨⟨hm, by omega⟩, hi, ht, rfl⟩
  | _ => simp [unpackAccount, checkMinLenAndNotMultisig, ensure_bind_eq_ok]

theorem unpackMint_eq_ok {d : AccountData} {s : PodStateWithExtensions PodMint} :
    d.unpackMint = .ok s ↔ d = mint s ∧ s.base.isInitialized = true ∧ s.len ≠ multisigLen ∧
      (s.len = mintLen ∨ baseAccountAndTypeLength < s.len) := by
  cases d with
  | mint t =>
    simp only [unpackMint, checkMinLenAndNotMultisig, checkTypeAndTlv, ensure_bind_eq_ok,
      pure_eq_ok]
    simp only [len, mint.injEq, mintLen, baseAccountAndTypeLength]
    constructor
    · rintro ⟨⟨hm, -⟩, hi, ht, rfl⟩
      exact ⟨rfl, hi, hm, ht⟩
    · rintro ⟨rfl, hi, hm, ht⟩
      exact ⟨⟨hm, by omega⟩, hi, ht, rfl⟩
  | account t =>
    simp only [unpackMint, ensure_bind_eq_ok, checkMinLenAndNotMultisig, reduceCtorEq, false_and,
      iff_false, not_and]
    intro _
    split <;> simp
  | _ => simp [unpackMint, checkMinLenAndNotMultisig, ensure_bind_eq_ok]

theorem unpackUninitializedAccount_eq_ok {d : AccountData}
    {s : PodStateWithExtensions PodAccount} (h : d.unpackUninitializedAccount = .ok s) :
    d = zeroed s.len s.tlv ∧ s.base = default ∧
      ∀ e ∈ s.tlv.head?, e.1.accountType = .account := by
  cases d with
  | zeroed n tlv =>
    simp only [unpackUninitializedAccount, checkMinLenAndNotMultisig, checkTypeAndTlv,
      checkAccountTypeMatchesExtensionType, ensure_bind_eq_ok] at h
    obtain ⟨-, -, h⟩ := h
    obtain ⟨_, hhead, hret⟩ := bind_eq_ok.mp h
    obtain rfl := pure_eq_ok.mp hret
    refine ⟨rfl, rfl, fun e he => ?_⟩
    rw [Option.mem_def.mp he] at hhead
    exact ensure_eq_ok.mp hhead
  | _ => simp [unpackUninitializedAccount, checkMinLenAndNotMultisig, ensure_bind_eq_ok] at h

theorem unpackUninitializedAccount_len {d : AccountData}
    {s : PodStateWithExtensions PodAccount} (h : d.unpackUninitializedAccount = .ok s) :
    s.len ≠ multisigLen ∧ (s.len = baseAccountLength ∨ baseAccountAndTypeLength < s.len) := by
  obtain ⟨rfl, -, -⟩ := unpackUninitializedAccount_eq_ok h
  simp only [unpackUninitializedAccount, checkMinLenAndNotMultisig, checkTypeAndTlv,
    ensure_bind_eq_ok] at h
  exact ⟨h.1.1, h.2.1⟩

theorem unpackUninitializedMint_eq_ok {d : AccountData} {s : PodStateWithExtensions PodMint}
    (h : d.unpackUninitializedMint = .ok s) :
    d = zeroed s.len s.tlv ∧ s.base = default ∧
      ∀ e ∈ s.tlv.head?, e.1.accountType = .mint := by
  cases d with
  | zeroed n tlv =>
    simp only [unpackUninitializedMint, checkMinLenAndNotMultisig, checkTypeAndTlv,
      checkAccountTypeMatchesExtensionType, ensure_bind_eq_ok] at h
    obtain ⟨-, -, h⟩ := h
    obtain ⟨_, hhead, hret⟩ := bind_eq_ok.mp h
    obtain rfl := pure_eq_ok.mp hret
    refine ⟨rfl, rfl, fun e he => ?_⟩
    rw [Option.mem_def.mp he] at hhead
    exact ensure_eq_ok.mp hhead
  | account t =>
    simp only [unpackUninitializedMint, checkMinLenAndNotMultisig, ensure_bind_eq_ok] at h
    obtain ⟨-, h⟩ := h
    split at h <;> simp at h
  | _ => simp [unpackUninitializedMint, checkMinLenAndNotMultisig, ensure_bind_eq_ok] at h

theorem unpackUninitializedMint_len {d : AccountData} {s : PodStateWithExtensions PodMint}
    (h : d.unpackUninitializedMint = .ok s) : s.len ≠ multisigLen ∧ mintLen ≤ s.len := by
  obtain ⟨rfl, -, -⟩ := unpackUninitializedMint_eq_ok h
  simp only [unpackUninitializedMint, checkMinLenAndNotMultisig, ensure_bind_eq_ok] at h
  exact h.1

end AccountData

end BarkToken
