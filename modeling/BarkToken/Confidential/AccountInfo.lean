import BarkToken.Confidential.Account

/-!
# What the owner computes off chain (extension/confidential_transfer/account_info.rs:58-145)
-/

namespace BarkToken
open Fallible CheckedWord

/-- An owner's ElGamal secret key and AES key, by what they make of ciphertexts. -/
structure OwnerKeys where
  /-- `ElGamalCiphertext::try_from` succeeds. -/
  wellFormed : ElGamalCiphertext → Bool
  /-- `ElGamalSecretKey::decrypt_u32`. -/
  decryptU32 : ElGamalCiphertext → Option UInt64
  /-- `AeCiphertext::try_from` succeeds. -/
  wellFormedAe : AeCiphertext → Bool
  /-- `AeKey::decrypt`. -/
  aeDecrypt : AeCiphertext → Option UInt64
  /-- `AeKey::encrypt`. -/
  aeEncrypt : UInt64 → AeCiphertext

/-- `ApplyPendingBalanceAccountInfo`, a snapshot of the account. -/
structure ApplyPendingBalanceAccountInfo where
  pendingBalanceCreditCounter : UInt64
  pendingBalanceLo : ElGamalCiphertext
  pendingBalanceHi : ElGamalCiphertext
  decryptableAvailableBalance : AeCiphertext
deriving DecidableEq

namespace ApplyPendingBalanceAccountInfo

/-- `ApplyPendingBalanceAccountInfo::new`. -/
def new (account : ConfidentialTransferAccount) : ApplyPendingBalanceAccountInfo :=
  ⟨account.pendingBalanceCreditCounter, account.pendingBalanceLo, account.pendingBalanceHi,
    account.decryptableAvailableBalance⟩

/-- The shape of `decrypted_pending_balance_lo` and `decrypted_pending_balance_hi`. -/
def decryptPending (keys : OwnerKeys) (c : ElGamalCiphertext) : Except Fault UInt64 := do
  ensure (keys.wellFormed c = true) (TokenError.malformedCiphertext : Fault)
  okOr (keys.decryptU32 c) (TokenError.accountDecryption : Fault)

/-- `decrypted_pending_balance_lo`. -/
def decryptedPendingBalanceLo (i : ApplyPendingBalanceAccountInfo) (keys : OwnerKeys) :
    Except Fault UInt64 := decryptPending keys i.pendingBalanceLo

/-- `decrypted_pending_balance_hi`. -/
def decryptedPendingBalanceHi (i : ApplyPendingBalanceAccountInfo) (keys : OwnerKeys) :
    Except Fault UInt64 := decryptPending keys i.pendingBalanceHi

/-- `decrypted_available_balance`. -/
def decryptedAvailableBalance (i : ApplyPendingBalanceAccountInfo) (keys : OwnerKeys) :
    Except Fault UInt64 := do
  ensure (keys.wellFormedAe i.decryptableAvailableBalance = true)
    (TokenError.malformedCiphertext : Fault)
  okOr (keys.aeDecrypt i.decryptableAvailableBalance) (TokenError.accountDecryption : Fault)

/-- `combine_balances` (`account_info.rs:370-374`); a shift by 16 is always defined,
and drops what does not fit. -/
def combineBalances (balanceLo balanceHi : UInt64) : Option UInt64 :=
  checkedAdd (balanceHi <<< 16) balanceLo

/-- `new_decryptable_available_balance`. -/
def newDecryptableAvailableBalance (i : ApplyPendingBalanceAccountInfo) (keys : OwnerKeys) :
    Except Fault AeCiphertext := do
  let decryptedPendingBalanceLo ← i.decryptedPendingBalanceLo keys
  let decryptedPendingBalanceHi ← i.decryptedPendingBalanceHi keys
  let pendingBalance ← okOr (combineBalances decryptedPendingBalanceLo decryptedPendingBalanceHi)
    (TokenError.accountDecryption : Fault)
  let currentAvailableBalance ← i.decryptedAvailableBalance keys
  let newDecryptedAvailableBalance ← okOr (checkedAdd currentAvailableBalance pendingBalance)
    Fault.panic
  return keys.aeEncrypt newDecryptedAvailableBalance

end ApplyPendingBalanceAccountInfo

end BarkToken
