import BarkToken.State.Ledger

/-!
# Code of other crates

The encryption syscalls and the group and metadata interfaces that the program
is linked with. Their code is not part of the repository, so the model takes
them as given functions.
-/

namespace BarkToken

/-- A 32-byte curve scalar. -/
structure PodScalar where
  bytes : BitVec 256
deriving DecidableEq

/-- `solana_zk_token_sdk::zk_token_elgamal::ops` and `curve25519::ristretto`.
Every operation may refuse malformed points. -/
structure ZkOps where
  /-- `ops::add`. -/
  add : ElGamalCiphertext → ElGamalCiphertext → Option ElGamalCiphertext
  /-- `ops::subtract`. -/
  subtract : ElGamalCiphertext → ElGamalCiphertext → Option ElGamalCiphertext
  /-- `ops::add_with_lo_hi`: adds `lo + 2^16 * hi`. -/
  addWithLoHi : ElGamalCiphertext → ElGamalCiphertext → ElGamalCiphertext →
    Option ElGamalCiphertext
  /-- `ops::subtract_with_lo_hi`. -/
  subtractWithLoHi : ElGamalCiphertext → ElGamalCiphertext → ElGamalCiphertext →
    Option ElGamalCiphertext
  /-- `ops::add_to`: adds a plain amount. -/
  addTo : ElGamalCiphertext → UInt64 → Option ElGamalCiphertext
  /-- `ops::subtract_from`. -/
  subtractFrom : ElGamalCiphertext → UInt64 → Option ElGamalCiphertext
  /-- `multiply_ristretto`. -/
  multiplyRistretto : PodScalar → CompressedRistretto → Option CompressedRistretto
  /-- `add_ristretto`. -/
  addRistretto : CompressedRistretto → CompressedRistretto → Option CompressedRistretto
  /-- `subtract_ristretto`. -/
  subtractRistretto : CompressedRistretto → CompressedRistretto → Option CompressedRistretto

/-- `Field` of the metadata interface. -/
inductive MetadataField where
  | name
  | symbol
  | uri
  | key (k : String)
deriving DecidableEq

structure Externals where
  zk : ZkOps
  /-- `TokenGroup::increment_size`: the group, and the new size. -/
  incrementSize : TokenGroup → Except Fault (TokenGroup × UInt32)
  /-- `TokenGroup::update_max_size`. -/
  updateMaxSize : TokenGroup → UInt32 → Except Fault TokenGroup
  /-- `TokenMetadata::update`. -/
  updateMetadata : TokenMetadata → MetadataField → String → TokenMetadata
  /-- `TokenMetadata::remove_key`, and whether the key was there. -/
  removeKey : TokenMetadata → String → TokenMetadata × Bool

end BarkToken
