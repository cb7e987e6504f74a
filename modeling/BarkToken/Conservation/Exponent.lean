import BarkToken.Conservation.Homomorphic
import BarkToken.Program.Replay

/-!
# Ciphertexts by their logarithms

An encryption to compute with: a point is given by its logarithm to the generator,
so that the syscalls are sums modulo the order of the group.
-/

namespace BarkToken
open Fallible CheckedWord Transition

/-! ### The operations -/

/-- The point with logarithm `n`. -/
def logPoint (n : ℕ) : CompressedRistretto := ⟨BitVec.ofNat 256 (n % groupOrder)⟩

def CompressedRistretto.log (p : CompressedRistretto) : ℕ := p.bytes.toNat % groupOrder

/-- An amount encrypted without randomness. -/
def logCiphertext (n : ℕ) : ElGamalCiphertext := ⟨logPoint n, logPoint 0⟩

namespace ElGamalCiphertext

/-- `a + n * b`, componentwise. -/
def plus (a : ElGamalCiphertext) (n : ℕ) (b : ElGamalCiphertext) : ElGamalCiphertext :=
  ⟨logPoint (a.commitment.log + n * b.commitment.log), logPoint (a.handle.log + n * b.handle.log)⟩

/-- `a - n * b`, componentwise. -/
def minus (a : ElGamalCiphertext) (n : ℕ) (b : ElGamalCiphertext) : ElGamalCiphertext :=
  ⟨logPoint (a.commitment.log + n * (groupOrder - b.commitment.log)),
    logPoint (a.handle.log + n * (groupOrder - b.handle.log))⟩

end ElGamalCiphertext

def logOps : ZkOps where
  add a b := some (a.plus 1 b)
  subtract a b := some (a.minus 1 b)
  addWithLoHi a lo hi := some ((a.plus 1 lo).plus 65536 hi)
  subtractWithLoHi a lo hi := some ((a.minus 1 lo).minus 65536 hi)
  addTo a n := some (a.plus 1 (logCiphertext n.toNat))
  subtractFrom a n := some (a.minus 1 (logCiphertext n.toNat))
  multiplyRistretto n p := some (logPoint (n.bytes.toNat * p.log))
  addRistretto p q := some (logPoint (p.log + q.log))
  subtractRistretto p q := some (logPoint (p.log + (groupOrder - q.log)))

/-- Code of other crates, with ciphertexts by their logarithms. -/
def Externals.logs : Externals := { Externals.refusing with zk := logOps }

/-! ### What they decrypt to -/

@[simp] theorem logPoint_log (n : ℕ) : ((logPoint n).log : Scalar) = n := by
  have hlt : n % groupOrder < 2 ^ 256 := (Nat.mod_lt _ (by decide)).trans (by decide)
  rw [logPoint, CompressedRistretto.log, BitVec.toNat_ofNat, Nat.mod_eq_of_lt hlt, Nat.mod_mod,
    ZMod.natCast_mod]

/-- The secret key behind `p` is its logarithm. -/
def logDecryption : Decryption Scalar where
  decrypt p c := c.commitment.log - p.point.log * c.handle.log
  zeroed p := by
    have hzero : (ElGamalCiphertext.zeroed).commitment.log = 0 := rfl
    have hzero' : (ElGamalCiphertext.zeroed).handle.log = 0 := rfl
    rw [hzero, hzero']
    simp

theorem natCast_order_sub (n : ℕ) (h : n ≤ groupOrder) : ((groupOrder - n : ℕ) : Scalar) = -n := by
  rw [Nat.cast_sub h, CharP.cast_eq_zero, zero_sub]

theorem CompressedRistretto.log_le (p : CompressedRistretto) : p.log ≤ groupOrder :=
  (Nat.mod_lt _ (by decide)).le

theorem decrypt_plus (p : ElGamalPubkey) (a b : ElGamalCiphertext) (n : ℕ) :
    logDecryption.decrypt p (a.plus n b) =
      logDecryption.decrypt p a + n * logDecryption.decrypt p b := by
  simp only [logDecryption, ElGamalCiphertext.plus, logPoint_log]
  push_cast
  ring

theorem decrypt_minus (p : ElGamalPubkey) (a b : ElGamalCiphertext) (n : ℕ) :
    logDecryption.decrypt p (a.minus n b) =
      logDecryption.decrypt p a - n * logDecryption.decrypt p b := by
  simp only [logDecryption, ElGamalCiphertext.minus, logPoint_log]
  push_cast [natCast_order_sub _ (CompressedRistretto.log_le _)]
  ring

theorem decrypt_logCiphertext (p : ElGamalPubkey) (n : ℕ) :
    logDecryption.decrypt p (logCiphertext n) = n := by
  simp [logDecryption, logCiphertext]

theorem logDecryption_homomorphic : logDecryption.Homomorphic logOps where
  add h := by
    obtain rfl := Option.some.inj h
    rw [decrypt_plus, Nat.cast_one, one_mul]
  subtract h := by
    obtain rfl := Option.some.inj h
    rw [decrypt_minus, Nat.cast_one, one_mul]
  addWithLoHi h := by
    obtain rfl := Option.some.inj h
    rw [decrypt_plus, decrypt_plus]
    push_cast
    ring
  subtractWithLoHi h := by
    obtain rfl := Option.some.inj h
    rw [decrypt_minus, decrypt_minus]
    push_cast
    ring
  addTo h := by
    obtain rfl := Option.some.inj h
    rw [decrypt_plus, decrypt_logCiphertext, Nat.cast_one, one_mul, value]
  subtractFrom h := by
    obtain rfl := Option.some.inj h
    rw [decrypt_minus, decrypt_logCiphertext, Nat.cast_one, one_mul, value]

/-! ### Keys -/

/-- What `c` encrypts for `p`, as a number below the order. -/
def ElGamalCiphertext.plaintextLog (c : ElGamalCiphertext) (p : ElGamalPubkey) : ℕ :=
  (c.commitment.log + p.point.log * (groupOrder - c.handle.log)) % groupOrder

/-- The encoding of a point is canonical. -/
def CompressedRistretto.wellFormed (p : CompressedRistretto) : Bool := p.bytes.toNat < groupOrder

/-- The keys behind `p`: both points have to be canonical, and amounts of up to 32
bits are found. -/
def logKeys (p : ElGamalPubkey) : OwnerKeys where
  wellFormed c := c.commitment.wellFormed && c.handle.wellFormed
  decryptU32 c := if c.plaintextLog p < 2 ^ 32 then some (UInt64.ofNat (c.plaintextLog p)) else none
  wellFormedAe _ := true
  aeDecrypt c := some ⟨c.bytes.setWidth 64⟩
  aeEncrypt n := ⟨n.toBitVec.setWidth 288⟩

theorem plaintextLog_cast (p : ElGamalPubkey) (c : ElGamalCiphertext) :
    (c.plaintextLog p : Scalar) = logDecryption.decrypt p c := by
  rw [ElGamalCiphertext.plaintextLog, ZMod.natCast_mod]
  push_cast [natCast_order_sub _ (CompressedRistretto.log_le _)]
  simp only [logDecryption]
  ring

theorem plaintextLog_lt (p : ElGamalPubkey) (c : ElGamalCiphertext) :
    c.plaintextLog p < groupOrder := Nat.mod_lt _ (by decide)

theorem logPoint_wellFormed (n : ℕ) : (logPoint n).wellFormed = true := by
  have hmod : n % groupOrder < groupOrder := Nat.mod_lt _ (by decide)
  have hlt : n % groupOrder < 2 ^ 256 := hmod.trans (by decide)
  rw [CompressedRistretto.wellFormed, logPoint, BitVec.toNat_ofNat, Nat.mod_eq_of_lt hlt]
  exact decide_eq_true hmod

theorem logKeys_decryptsFor (p : ElGamalPubkey) :
    (logKeys p).DecryptsFor logOps logDecryption p where
  wellFormed := by
    intro c h
    have hpoints : ∃ n m, c = ⟨logPoint n, logPoint m⟩ := by
      cases h with
      | zeroed => exact ⟨0, 0, rfl⟩
      | add h | subtract h | addWithLoHi h | subtractWithLoHi h | addTo h | subtractFrom h =>
        obtain rfl := Option.some.inj h
        exact ⟨_, _, rfl⟩
    obtain ⟨n, m, rfl⟩ := hpoints
    simp only [logKeys, logPoint_wellFormed, Bool.and_self]
  decryptU32 := by
    intro c n _ hn h
    have hbound : n.toNat < groupOrder := hn.trans (by decide)
    have hlog : c.plaintextLog p = n.toNat := by
      rw [← plaintextLog_cast] at h
      have hval := congrArg ZMod.val h
      rwa [val_natCast (plaintextLog_lt p c), val_natCast hbound] at hval
    simp only [logKeys, hlog, if_pos hn, UInt64.ofNat_toNat]

/-! ### A mint with two confidential accounts -/

/-- An environment whose sibling instructions carry one proof. -/
def Env.withProof (p : ProofContext) : Env := { Env.plain 0 with siblingProof := fun _ => some p }

def confidentialLedger : Ledger :=
  .ofList [(⟨1⟩, ⟨1, programId, .zeroed 480 []⟩), (⟨2⟩, ⟨1, programId, .zeroed 545 []⟩),
    (⟨3⟩, ⟨1, programId, .zeroed 545 []⟩)]

/-- The public keys of the two accounts. -/
def sourceKey : ElGamalPubkey := ⟨⟨21⟩⟩
def destinationKey : ElGamalPubkey := ⟨⟨31⟩⟩

def aeZero : AeCiphertext := default

/-- The mint charges a fee of one token, and the first of its accounts has `amount`
tokens available confidentially. -/
def confidentialCalls (amount : UInt64) : List (Env × TokenInstruction × List AccountInfo) :=
  [(.plain 0, .initializeTransferFeeConfig none none 1 1, [⟨⟨1⟩, false⟩]),
   (.plain 0, .initializeConfidentialTransferMint ⟨⟨0⟩⟩ true ⟨⟨⟨0⟩⟩⟩, [⟨⟨1⟩, false⟩]),
   (.plain 0, .initializeConfidentialTransferFeeConfig ⟨⟨0⟩⟩ ⟨⟨41⟩⟩, [⟨⟨1⟩, false⟩]),
   (.plain 0, .initializeMint 2 ⟨5⟩ none false, [⟨⟨1⟩, false⟩]),
   (.plain 0, .initializeAccount3 ⟨7⟩, [⟨⟨2⟩, false⟩, ⟨⟨1⟩, false⟩]),
   (.plain 0, .initializeAccount3 ⟨8⟩, [⟨⟨3⟩, false⟩, ⟨⟨1⟩, false⟩]),
   (.plain 0, .mintTo amount none, [⟨⟨1⟩, false⟩, ⟨⟨2⟩, false⟩, ⟨⟨5⟩, true⟩]),
   (.withProof (.pubkeyValidity ⟨sourceKey⟩), .configureAccount aeZero 65536 1,
     [⟨⟨2⟩, false⟩, ⟨⟨1⟩, false⟩, ⟨instructionsSysvar, false⟩, ⟨⟨7⟩, true⟩]),
   (.withProof (.pubkeyValidity ⟨destinationKey⟩), .configureAccount aeZero 65536 1,
     [⟨⟨3⟩, false⟩, ⟨⟨1⟩, false⟩, ⟨instructionsSysvar, false⟩, ⟨⟨8⟩, true⟩]),
   (.plain 0, .deposit amount 2, [⟨⟨2⟩, false⟩, ⟨⟨1⟩, false⟩, ⟨⟨7⟩, true⟩]),
   (.plain 0, .applyPendingBalance 1 aeZero, [⟨⟨2⟩, false⟩, ⟨⟨7⟩, true⟩])]

/-- All of an amount goes from the first account to the second, less a fee of one. -/
def wholeTransfer (amount : ℕ) : TransferWithFeeProofContext where
  ciphertextLo := ⟨logPoint (amount % 65536), logPoint 0, logPoint 0, logPoint 0⟩
  ciphertextHi := ⟨logPoint (amount / 65536), logPoint 0, logPoint 0, logPoint 0⟩
  transferWithFeePubkeys := ⟨sourceKey, destinationKey, ⟨⟨0⟩⟩, ⟨⟨41⟩⟩⟩
  newSourceCiphertext := logCiphertext 0
  feeCiphertextLo := ⟨logPoint 1, logPoint 0, logPoint 0⟩
  feeCiphertextHi := ⟨logPoint 0, logPoint 0, logPoint 0⟩
  feeParameters := ⟨1, 1⟩

def wholeTransferCall (amount : ℕ) : Env × TokenInstruction × List AccountInfo :=
  (.withProof (.transferWithFee (wholeTransfer amount)), .confidentialTransfer aeZero 1,
    [⟨⟨2⟩, false⟩, ⟨⟨1⟩, false⟩, ⟨⟨3⟩, false⟩, ⟨instructionsSysvar, false⟩, ⟨⟨7⟩, true⟩])

/-- The confidential extension of an account, for evaluation. -/
def Ledger.confidentialAt (l : Ledger) (k : Pubkey) : Option ConfidentialTransferAccount :=
  match (l k).data with
  | .account s => s.tlv.get .confidentialTransferAccount
  | _ => none

theorem Ledger.confidentialAt_eq_some {l : Ledger} {k : Pubkey} {e : ConfidentialTransferAccount}
    (h : l.confidentialAt k = some e) :
    ∃ s, (l k).data = .account s ∧ s.tlv.get .confidentialTransferAccount = some e := by
  unfold Ledger.confidentialAt at h
  split at h
  case h_1 s hdata => exact ⟨s, hdata, h⟩
  case h_2 => simp at h

theorem confidentialLedger_genesis : Genesis confidentialLedger := .ofList (by decide) (by decide)

theorem confidentialCalls_ix (amount : UInt64) :
    ∀ c ∈ confidentialCalls amount, ∀ data, ¬ IsConfidentialTransfer c.2.1 data := by
  intro c hc data h
  simp only [confidentialCalls, List.mem_cons, List.not_mem_nil, or_false] at hc
  rcases hc with rfl | rfl | rfl | rfl | rfl | rfl | rfl | rfl | rfl | rfl | rfl <;> cases h

/-- A proof at an offset is the one that the environment carries. -/
theorem verifyProof_withProof {α : Type} {select : ProofContext → Option α} {n : ℕ}
    {p : ProofContext} {l : Ledger} {offset : Int64} {infos rest : List AccountInfo} {a : α}
    (hoffset : offset ≠ 0) (h : verifyProof select n (.withProof p) l offset infos = .ok (a, rest)) :
    select p = some a := by
  obtain ⟨info, -, hread⟩ := verifyProof_eq_ok h
  simp only [proofContextAt, if_neg hoffset, siblingProofContext, bind_eq_ok, exists_unit,
    okOr_eq_ok] at hread
  obtain ⟨-, p', hp', ha⟩ := hread
  obtain rfl := Option.some.inj hp'
  exact ha

/-- The transfer executes the context it is given, with the fee parameters of that
context. -/
theorem wholeTransferCall_executes {amount : ℕ} {l : Ledger} {p : TransferParts}
    {fee : Option FeeParts} (h : (Call.mk .logs (wholeTransferCall amount).1
      (wholeTransferCall amount).2.1 (wholeTransferCall amount).2.2 l).Executes p fee) :
    p = (TransferWithFeeProofContextInfo.ofContext (wholeTransfer amount)).parts ∧
      fee = some (TransferWithFeeProofContextInfo.ofContext (wholeTransfer amount)).feeParts ∧
      ∃ m config, (l ⟨1⟩).data.unpackMint = .ok m ∧ m.tlv.get .transferFeeConfig = some config ∧
        (config.getEpochFee 0).transferFeeBasisPoints = 1 ∧ (config.getEpochFee 0).maximumFee = 1 := by
  have hoffset : (1 : Int8).toInt64 ≠ 0 := by decide
  cases h with
  | transfer hix haccounts hverified hcontext =>
    cases hix
    unfold verifyTransferProof at hverified
    rw [if_neg (fun hsplit => hoffset hsplit.1)] at hverified
    simp only [bind_eq_ok, Prod.exists] at hverified
    obtain ⟨t, rest, ht, -⟩ := hverified
    have hselect : ProofContext.transfer? (.transferWithFee (wholeTransfer amount)) = some t :=
      verifyProof_withProof hoffset ht
    exact absurd hselect (by simp [ProofContext.transfer?])
  | @transferWithFee data source mint destination rest m config v a hix haccounts hm hconfig hverified
      hcontext =>
    cases hix
    obtain ⟨rfl, rfl, rfl, rfl⟩ : _ = source ∧ _ = mint ∧ _ = destination ∧ _ = rest := by
      simpa [wholeTransferCall] using haccounts
    unfold verifyTransferWithFeeProof at hverified
    rw [if_neg (fun hsplit => hoffset hsplit.1)] at hverified
    simp only [bind_eq_ok, Prod.exists, exists_unit, ensure_eq_ok, pure_eq_ok] at hverified
    obtain ⟨t, rest, ht, ⟨hrate, hmax⟩, rfl⟩ := hverified
    have hselect : ProofContext.transferWithFee? (.transferWithFee (wholeTransfer amount)) = some t :=
      verifyProof_withProof hoffset ht
    obtain rfl := Option.some.inj hselect
    obtain rfl := Option.some.inj hcontext
    exact ⟨rfl, rfl, m, config, hm, hconfig, hrate, hmax⟩

end BarkToken
