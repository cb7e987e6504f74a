import BarkToken.Guarantee.AccountKinds
import BarkToken.Bytes.Fields

/-!
# The quick account check (state.rs:317-328, generic_token_account.rs)

Callers that need the owner or the mint only read them from the bytes, behind a check
of length, account type and state. The parser asks for more: account data with an
account type and no byte behind it is refused.
-/

namespace BarkToken
open Fallible

namespace Bytes

/-! ### The trait -/

namespace GenericTokenAccount

/-- `ACCOUNT_INITIALIZED_INDEX`. -/
def accountInitializedIndex : ℕ := 108

/-- `is_initialized_account`: no such byte counts as an uninitialised account. -/
def isInitializedAccount (accountData : Bytes) : Prop :=
  (accountData[accountInitializedIndex]?).getD (stateByte .uninitialized) ≠
    stateByte .uninitialized

instance (b : Bytes) : Decidable (isInitializedAccount b) := inferInstanceAs (Decidable (_ ≠ _))

/-- `Account::valid_account_data`. -/
def validAccountData (accountData : Bytes) : Prop :=
  accountData.length = 165 ∧ isInitializedAccount accountData ∨
    accountData.length > 165 ∧ accountData.length ≠ multisigLen ∧
      AccountType.account.toU8 = byte accountData 165 ∧ isInitializedAccount accountData

instance (b : Bytes) : Decidable (validAccountData b) := inferInstanceAs (Decidable (_ ∨ _))

/-- `unpack_pubkey_unchecked`. -/
def unpackPubkeyUnchecked (accountData : Bytes) (offset : ℕ) : Except Fault Pubkey := do
  let bytes ← okOr (Buffer.slice accountData offset (offset + 32)) Fault.panic
  return key bytes 0

/-- `unpack_account_owner_unchecked`. -/
def unpackAccountOwnerUnchecked (accountData : Bytes) : Except Fault Pubkey :=
  unpackPubkeyUnchecked accountData 32

/-- `unpack_account_mint_unchecked`. -/
def unpackAccountMintUnchecked (accountData : Bytes) : Except Fault Pubkey :=
  unpackPubkeyUnchecked accountData 0

/-- `unpack_account_owner`. -/
def unpackAccountOwner (accountData : Bytes) : Except Fault (Option Pubkey) :=
  if validAccountData accountData then some <$> unpackAccountOwnerUnchecked accountData
  else .ok none

/-- `unpack_account_mint`. -/
def unpackAccountMint (accountData : Bytes) : Except Fault (Option Pubkey) :=
  if validAccountData accountData then some <$> unpackAccountMintUnchecked accountData
  else .ok none

end GenericTokenAccount

open GenericTokenAccount

/-- The quick check and the parser take `b` for the same account, or for none. -/
structure QuickCheckAgrees (b : Bytes) : Prop where
  valid : validAccountData b ↔ ∃ p, unpack .account b = .ok p
  owner : ∀ p, unpack .account b = .ok p → unpackAccountOwner b = .ok (some p.base.owner)
  mint : ∀ p, unpack .account b = .ok p → unpackAccountMint b = .ok (some p.base.mint)

/-! ### What the parser accepts -/

variable {b : Bytes}

/-- An account by its bytes: bare, or followed by its account type and more. -/
theorem isKind_account_iff : IsKind .account b ↔ byte b 108 ≠ 0 ∧ b.length ≠ multisigLen ∧
    (b.length = 165 ∨ 166 < b.length ∧ byte b 165 = AccountType.account.toU8) := by
  constructor
  · intro h
    refine ⟨h.initialized, fun hlen => (kindsDisjoint b).multisig hlen _ h, ?_⟩
    rcases h.tagged with hlen | htag
    · exact .inl hlen
    · exact .inr ⟨htag.long, htag.accountType⟩
  · rintro ⟨hinit, hmultisig, hlen | ⟨hlen, htype⟩⟩
    · have hshaped : PodStateMut.Shaped .account AccountType.account ⟨b, [], [], []⟩ :=
        ⟨hlen, .inl ⟨rfl, rfl, rfl⟩⟩
      exact isKind_iff.mpr ⟨_, unpackMut_eq_ok.mpr
        ⟨hshaped, PodStateMut.data_bare b, hmultisig, hinit⟩⟩
    · have hsplit : b.take 165 ++ AccountType.account.toU8 :: b.drop 166 = b := by
        have hlong : 165 < b.length := by omega
        have hget : b[165] = AccountType.account.toU8 := by
          rw [← htype, byte, List.getD_eq_getElem?_getD, List.getElem?_eq_getElem hlong]
          rfl
        rw [← hget, ← List.drop_eq_getElem_cons hlong, List.take_append_drop]
      have hbehind : b.drop 166 ≠ [] := by
        apply List.ne_nil_of_length_pos
        rw [List.length_drop]
        omega
      have hshaped : PodStateMut.Shaped .account AccountType.account
          ⟨b.take 165, [], [AccountType.account.toU8], b.drop 166⟩ :=
        ⟨List.length_take_of_le (by omega), .inr ⟨rfl, rfl, hbehind⟩⟩
      refine isKind_iff.mpr ⟨_, unpackMut_eq_ok.mpr ⟨hshaped, ?_, hmultisig, ?_⟩⟩
      · exact (PodStateMut.data_extended (S := .account) _ _ _).trans hsplit
      · change byte (b.take 165) 108 ≠ 0
        rw [byte_take (by decide)]
        exact hinit

/-! ### What the quick check accepts -/

theorem isInitializedAccount_iff : GenericTokenAccount.isInitializedAccount b ↔ byte b 108 ≠ 0 := by
  rw [GenericTokenAccount.isInitializedAccount, byte, List.getD_eq_getElem?_getD]
  rfl

theorem validAccountData_iff : validAccountData b ↔ byte b 108 ≠ 0 ∧ b.length ≠ multisigLen ∧
    (b.length = 165 ∨ 165 < b.length ∧ byte b 165 = AccountType.account.toU8) := by
  rw [validAccountData, isInitializedAccount_iff]
  constructor
  · rintro (⟨hlen, hinit⟩ | ⟨hlen, hmultisig, htype, hinit⟩)
    · exact ⟨hinit, hlen.trans_ne (by decide), .inl hlen⟩
    · exact ⟨hinit, hmultisig, .inr ⟨hlen, htype.symm⟩⟩
  · rintro ⟨hinit, hmultisig, hlen | ⟨hlen, htype⟩⟩
    · exact .inl ⟨hlen, hinit⟩
    · exact .inr ⟨hlen, hmultisig, htype.symm, hinit⟩

/-- A key of the base state, read from the whole account data. -/
theorem unpackPubkeyUnchecked_eq_ok {i : ℕ} (h : i + 32 ≤ b.length) :
    unpackPubkeyUnchecked b i = .ok (key b i) := by
  have hslice : Buffer.slice b i (i + 32) = some (field b i 32) := by
    rw [Buffer.slice, if_pos ⟨by omega, h⟩, Nat.add_sub_cancel_left]
    rfl
  rw [unpackPubkeyUnchecked, hslice]
  exact congrArg Except.ok (keyField.value_field h)

theorem key_take {n i : ℕ} (h : i + 32 ≤ n) : key (b.take n) i = key b i := by
  rw [key, key, field, field, List.drop_take, List.take_take, Nat.min_eq_left (by omega)]

/-! ### Where they agree -/

/-- The keys of a valid account are those the parser shows. -/
theorem keys_of_unpack {p : PodState .account} (h : unpack .account b = .ok p) :
    165 ≤ b.length ∧ p.base.owner = key b 32 ∧ p.base.mint = key b 0 := by
  obtain ⟨s, hs, rfl⟩ := unpack_eq_ok.mp h
  obtain ⟨hshaped, rfl, -, -⟩ := unpackMut_eq_ok.mp hs
  have hbase : s.base = s.data.take 165 := (take_data hshaped).symm
  have hlen : s.base.length = 165 := hshaped.base
  refine ⟨?_, ?_, ?_⟩
  · rw [← hlen, hbase]
    exact List.length_take_le' _ _
  · change key s.base 32 = _
    rw [hbase, key_take (by decide)]
  · change key s.base 0 = _
    rw [hbase, key_take (by decide)]

/-- The quick check and the parser agree, except on an initialised account that ends
with its account type. -/
theorem quickCheck_agrees_iff (b : Bytes) : QuickCheckAgrees b ↔
    ¬ (b.length = 166 ∧ byte b 108 ≠ 0 ∧ byte b 165 = AccountType.account.toU8) := by
  have hvalid : (validAccountData b ↔ ∃ p, unpack .account b = .ok p) ↔
      ¬ (b.length = 166 ∧ byte b 108 ≠ 0 ∧ byte b 165 = AccountType.account.toU8) := by
    have hparsed : (∃ p, unpack .account b = .ok p) ↔ IsKind .account b := Iff.rfl
    rw [hparsed, isKind_account_iff, validAccountData_iff]
    have hmultisig : multisigLen = 355 := rfl
    constructor
    · rintro hiff ⟨hlen, hinit, htype⟩
      obtain ⟨-, -, h | h⟩ := hiff.mp ⟨hinit, by omega, .inr ⟨by omega, htype⟩⟩ <;> omega
    · intro hne
      refine ⟨?_, ?_⟩
      · rintro ⟨hinit, hlen, h | ⟨hlong, htype⟩⟩
        · exact ⟨hinit, hlen, .inl h⟩
        · have hne166 : b.length ≠ 166 := fun h => hne ⟨h, hinit, htype⟩
          exact ⟨hinit, hlen, .inr ⟨by omega, htype⟩⟩
      · rintro ⟨hinit, hlen, h | ⟨hlong, htype⟩⟩
        · exact ⟨hinit, hlen, .inl h⟩
        · exact ⟨hinit, hlen, .inr ⟨by omega, htype⟩⟩
  constructor
  · intro h
    exact hvalid.mp h.valid
  · intro h
    have hagree := hvalid.mpr h
    refine ⟨hagree, fun p hp => ?_, fun p hp => ?_⟩
    · obtain ⟨hlen, howner, -⟩ := keys_of_unpack hp
      rw [unpackAccountOwner, if_pos (hagree.mpr ⟨p, hp⟩), unpackAccountOwnerUnchecked,
        unpackPubkeyUnchecked_eq_ok (by omega), howner]
      rfl
    · obtain ⟨hlen, -, hmint⟩ := keys_of_unpack hp
      rw [unpackAccountMint, if_pos (hagree.mpr ⟨p, hp⟩), unpackAccountMintUnchecked,
        unpackPubkeyUnchecked_eq_ok (by omega), hmint]
      rfl

/-- 166 bytes: an initialised state and the account type. -/
def typeOnlyAccount : Bytes := List.replicate 108 0 ++ 1 :: (List.replicate 56 0 ++ [2])

theorem typeOnlyAccount_disagrees : ¬ QuickCheckAgrees typeOnlyAccount := by
  intro h
  have hvalid : validAccountData typeOnlyAccount := by decide +kernel
  obtain ⟨p, hp⟩ := h.valid.mp hvalid
  obtain ⟨-, -, hlen | ⟨hlen, -⟩⟩ := isKind_account_iff.mp ⟨p, hp⟩
  · exact absurd hlen (by decide +kernel)
  · exact absurd hlen (by decide +kernel)

end Bytes
end BarkToken
