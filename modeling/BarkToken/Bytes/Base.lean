import BarkToken.Foundation.LittleEndian
import BarkToken.Bytes.Tlv

/-!
# The two decodings of a base state (state.rs:51-200, pod.rs:22-256)

`Pack` copies the fields out and refuses what is no option, boolean or state.
`Pod` reinterprets the bytes in place and accepts all of them.
-/

namespace BarkToken
open Fallible

namespace Bytes

/-! ### Fields at fixed offsets -/

/-- `n` bytes at offset `i`. -/
def field (b : Bytes) (i n : ℕ) : Bytes := (b.drop i).take n

/-- A `Pubkey` at offset `i`. -/
def key (b : Bytes) (i : ℕ) : Pubkey := ⟨BitVec.ofNat 256 (LittleEndian.toNat (field b i 32))⟩

/-- A little-endian `u64` at offset `i`. -/
def u64 (b : Bytes) (i : ℕ) : UInt64 := UInt64.ofNat (LittleEndian.toNat (field b i 8))

/-- The byte at offset `i`. -/
def byte (b : Bytes) (i : ℕ) : UInt8 := b.getD i 0

/-! ### Pod -/

/-- `PodCOption<T>` (`pod.rs:154-160`): the tag is four bytes of any value. -/
structure PodCOption (α : Type) where
  option : Bytes
  value : α
deriving DecidableEq

namespace PodCOption

/-- `PodCOption::NONE`. -/
def NONE : Bytes := [0, 0, 0, 0]

/-- `PodCOption::SOME`. -/
def SOME : Bytes := [1, 0, 0, 0]

variable {α : Type}

/-- `is_some`. -/
def isSome (p : PodCOption α) : Prop := p.option = SOME

/-- `is_none`. -/
def isNone (p : PodCOption α) : Prop := p.option = NONE

/-- A tag of 0 or 1. -/
def Canonical (p : PodCOption α) : Prop := p.isNone ∨ p.isSome

/-- `p` and a `COption` agree: the same case, and the same value under it. -/
def Agrees (p : PodCOption α) : Option α → Prop
  | none => p.isNone
  | some v => p.isSome ∧ p.value = v

end PodCOption

/-- `PodMint`, field by field (`pod.rs:22-41`). -/
structure MintView where
  mintAuthority : PodCOption Pubkey
  supply : UInt64
  decimals : UInt8
  isInitialized : UInt8
  freezeAuthority : PodCOption Pubkey
deriving DecidableEq

/-- `PodAccount`, field by field (`pod.rs:65-93`). -/
structure AccountView where
  mint : Pubkey
  owner : Pubkey
  amount : UInt64
  delegate : PodCOption Pubkey
  state : UInt8
  isNative : PodCOption UInt64
  delegatedAmount : UInt64
  closeAuthority : PodCOption Pubkey
deriving DecidableEq

def podKey (b : Bytes) (i : ℕ) : PodCOption Pubkey := ⟨field b i 4, key b (i + 4)⟩

def podU64 (b : Bytes) (i : ℕ) : PodCOption UInt64 := ⟨field b i 4, u64 b (i + 4)⟩

/-- `pod_from_bytes::<PodMint>`, of 82 bytes. -/
def podMint (b : Bytes) : MintView where
  mintAuthority := podKey b 0
  supply := u64 b 36
  decimals := byte b 44
  isInitialized := byte b 45
  freezeAuthority := podKey b 46

/-- `pod_from_bytes::<PodAccount>`, of 165 bytes. -/
def podAccount (b : Bytes) : AccountView where
  mint := key b 0
  owner := key b 32
  amount := u64 b 64
  delegate := podKey b 72
  state := byte b 108
  isNative := podU64 b 109
  delegatedAmount := u64 b 121
  closeAuthority := podKey b 129

/-- The Pod type of a base state. -/
abbrev Pod : BaseState → Type
  | .mint => MintView
  | .account => AccountView

/-- `pod_from_bytes::<S>`. -/
def podFromBytes : (S : BaseState) → Bytes → Pod S
  | .mint, b => podMint b
  | .account, b => podAccount b

/-- `IsInitialized`: any nonzero byte counts. -/
def isInitialized : (S : BaseState) → Pod S → Prop
  | .mint, p => p.isInitialized ≠ 0
  | .account, p => p.state ≠ 0

instance (S : BaseState) (p : Pod S) : Decidable (isInitialized S p) :=
  match S, p with
  | .mint, _ => inferInstanceAs (Decidable (_ ≠ _))
  | .account, _ => inferInstanceAs (Decidable (_ ≠ _))

/-! ### Pack -/

/-- `unpack_coption_key` and `unpack_coption_u64` (`state.rs:288-315`). -/
def unpackCOption {α : Type} (p : PodCOption α) : Except Fault (Option α) :=
  if p.option = PodCOption.NONE then .ok none
  else if p.option = PodCOption.SOME then .ok (some p.value)
  else .error ProgramError.invalidAccountData

/-- `match is_initialized { [0] => false, [1] => true, _ => .. }`. -/
def unpackBool (x : UInt8) : Except Fault Bool :=
  if x = 0 then .ok false
  else if x = 1 then .ok true
  else .error ProgramError.invalidAccountData

/-- `AccountState::try_from_primitive`. -/
def unpackState (x : UInt8) : Except Fault AccountState :=
  if x = 0 then .ok .uninitialized
  else if x = 1 then .ok .initialized
  else if x = 2 then .ok .frozen
  else .error ProgramError.invalidAccountData

/-- `Mint::unpack_from_slice` (`state.rs:53-74`). -/
def unpackMint (b : Bytes) : Except Fault PodMint := do
  let mintAuthority ← unpackCOption (podKey b 0)
  let isInitialized ← unpackBool (byte b 45)
  let freezeAuthority ← unpackCOption (podKey b 46)
  return {
    mintAuthority
    supply := u64 b 36
    decimals := byte b 44
    isInitialized
    freezeAuthority }

/-- `Account::unpack_from_slice` (`state.rs:150-166`). -/
def unpackAccount (b : Bytes) : Except Fault PodAccount := do
  let delegate ← unpackCOption (podKey b 72)
  let state ← unpackState (byte b 108)
  let isNative ← unpackCOption (podU64 b 109)
  let closeAuthority ← unpackCOption (podKey b 129)
  return {
    mint := key b 0
    owner := key b 32
    amount := u64 b 64
    delegate
    state
    isNative
    delegatedAmount := u64 b 121
    closeAuthority }

/-- `Multisig::unpack_from_slice` (`state.rs:239-257`). -/
def unpackMultisig (b : Bytes) : Except Fault PodMultisig := do
  let isInitialized ← unpackBool (byte b 2)
  return {
    m := byte b 0
    n := byte b 1
    isInitialized
    signers := Vector.ofFn fun i => key b (3 + 32 * i) }

/-- The `Pack` type of a base state: `Mint` and `Account`. -/
abbrev Packed : BaseState → Type
  | .mint => PodMint
  | .account => PodAccount

/-- `S::unpack_from_slice`. -/
def unpackFromSlice : (S : BaseState) → Bytes → Except Fault (Packed S)
  | .mint, b => unpackMint b
  | .account, b => unpackAccount b

/-- `IsInitialized` of `Mint` and `Account`. -/
def packedInitialized : (S : BaseState) → Packed S → Prop
  | .mint, m => m.isInitialized = true
  | .account, a => a.state ≠ .uninitialized

instance (S : BaseState) (p : Packed S) : Decidable (packedInitialized S p) :=
  match S, p with
  | .mint, _ => inferInstanceAs (Decidable (_ = _))
  | .account, _ => inferInstanceAs (Decidable (_ ≠ _))

/-- `Pack::unpack_unchecked`. -/
def unpackUnchecked (S : BaseState) (b : Bytes) : Except Fault (Packed S) := do
  ensure (b.length = S.sizeOf) (ProgramError.invalidAccountData : Fault)
  unpackFromSlice S b

/-- `Pack::unpack`. -/
def packUnpack (S : BaseState) (b : Bytes) : Except Fault (Packed S) := do
  let value ← unpackUnchecked S b
  ensure (packedInitialized S value) (ProgramError.uninitializedAccount : Fault)
  return value

/-! ### Packing -/

def keyBytes (k : Pubkey) : Bytes := LittleEndian.bytes 32 k.bytes.toNat

def u64Bytes (n : UInt64) : Bytes := LittleEndian.bytes 8 n.toNat

/-- `pack_coption_key` and `pack_coption_u64` (`state.rs:275-310`): the body
keeps its old bytes under `None`. -/
def packCOption {α : Type} (valueBytes : α → Bytes) (src : Option α) (dst : Bytes) : Bytes :=
  match src with
  | some v => PodCOption.SOME ++ valueBytes v
  | none => PodCOption.NONE ++ dst.drop 4

/-- `bool as u8`. -/
def boolByte (x : Bool) : UInt8 := if x then 1 else 0

/-- `AccountState as u8`. -/
def stateByte : AccountState → UInt8
  | .uninitialized => 0
  | .initialized => 1
  | .frozen => 2

/-- `Mint::pack_into_slice` (`state.rs:75-98`), over the 82 bytes `dst`. -/
def packMint (m : PodMint) (dst : Bytes) : Bytes :=
  packCOption keyBytes m.mintAuthority (field dst 0 36) ++ (u64Bytes m.supply ++
    (m.decimals :: boolByte m.isInitialized ::
      packCOption keyBytes m.freezeAuthority (field dst 46 36)))

/-- `Account::pack_into_slice` (`state.rs:167-199`), over the 165 bytes `dst`. -/
def packAccount (a : PodAccount) (dst : Bytes) : Bytes :=
  keyBytes a.mint ++ (keyBytes a.owner ++ (u64Bytes a.amount ++
    (packCOption keyBytes a.delegate (field dst 72 36) ++ (stateByte a.state ::
      (packCOption u64Bytes a.isNative (field dst 109 12) ++ (u64Bytes a.delegatedAmount ++
        packCOption keyBytes a.closeAuthority (field dst 129 36)))))))

/-- `Multisig::pack_into_slice` (`state.rs:258-269`), over the 355 bytes `dst`. -/
def packMultisig (m : PodMultisig) (_dst : Bytes) : Bytes :=
  m.m :: m.n :: boolByte m.isInitialized :: m.signers.toList.flatMap keyBytes

end Bytes
end BarkToken
