import BarkToken.Foundation.BinaryRounding
import BarkToken.Processor.Transfer
import BarkToken.TransferFee.Share

/-!
# The fee that the client declares (main.ts:310-357, processor.rs:335-378)

The client rounds the share down and hands it on as a double; the program rounds it up.
They agree where nothing is rounded, or where the cap is reached.
-/

namespace BarkToken
open Fallible CheckedWord BinaryRounding

namespace Client

/-! ### The client -/

/-- The constants of `config` that set a transfer, whole numbers all of them. -/
structure Config where
  transferAmount : ℕ
  feeBasisPoints : ℕ
  maxFee : ℕ

/-- What the script finds when it transfers. -/
structure Session where
  sourceTokenAccount : Option Pubkey
  destinationTokenAccount : Option Pubkey
  /-- The lamports that `getAccountInfo(sourceTokenAccount)` reports. -/
  sourceAccountInfo : Option ℕ
  /-- `mintTo` has returned a signature. -/
  minted : Bool

/-- The arguments of `transferCheckedWithFee`. -/
structure TransferCheckedWithFee where
  source : Pubkey
  destination : Pubkey
  amount : ℕ
  decimals : ℕ
  fee : ℕ

/-- `Number(x)`: a double has 53 significant bits. -/
def number (x : ℕ) : ℕ := round 53 x

/-- `feeCharged`, from the division of `bigint`s (`main.ts:340-341`). -/
def feeCharged (config : Config) : ℕ :=
  let fee := config.transferAmount * config.feeBasisPoints / 10000
  if config.maxFee < fee then number config.maxFee else number fee

/-- `transferBarkWithFee`: the transfer it sends, if any. -/
def transferBarkWithFee (config : Config) (s : Session) : Option TransferCheckedWithFee := do
  let source ← s.sourceTokenAccount
  let destination ← s.destinationTokenAccount
  let sourceAccountBalance := s.sourceAccountInfo.getD 0
  if sourceAccountBalance < config.transferAmount then none
  else if s.minted = false then none
  else some {
    source
    destination
    amount := config.transferAmount
    decimals := 3
    fee := feeCharged config }

end Client

open Client

/-! ### The fee that the program expects -/

/-- The client is set up with the terms of the mint. -/
def TransferFee.clientConfig (p : TransferFee) (amount : UInt64) : Config where
  transferAmount := amount.toNat
  feeBasisPoints := p.transferFeeBasisPoints.toNat
  maxFee := p.maximumFee.toNat

/-- The mint of the transfer charges `p` in this epoch. -/
def ChargesNow (env : Env) (l : Ledger) (accounts : List AccountInfo) (p : TransferFee) : Prop :=
  ∃ mintInfo mint config, accounts[1]? = some mintInfo ∧
    (l mintInfo.key).data.unpackMint = .ok mint ∧
    mint.tlv.get .transferFeeConfig = some config ∧ config.getEpochFee env.epoch = p

/-- The client declares the fee that the program computes, so that the program's
comparison of the two makes no difference. -/
structure FeeDeclared (p : TransferFee) (amount : UInt64) : Prop where
  declared : ∀ s t, transferBarkWithFee (p.clientConfig amount) s = some t →
    ∃ fee, p.calculateFee amount = some fee ∧ t.fee = fee.toNat
  accepted : ∀ s t, transferBarkWithFee (p.clientConfig amount) s = some t →
    ∀ (fee : UInt64) (env : Env) (l : Ledger) (accounts : List AccountInfo), fee.toNat = t.fee →
      ChargesNow env l accounts p →
      processTransfer env amount (some (.ofNat t.decimals)) (some fee) accounts l =
        processTransfer env amount (some (.ofNat t.decimals)) none accounts l

/-- Where the client's fee is right: the share is whole or the cap is reached, and the
fee is a double; or the double nearest to the share happens to be the next number. -/
def Client.Config.DeclaresFee (c : Config) : Prop :=
  ((10000 ∣ c.transferAmount * c.feeBasisPoints ∨
      c.maxFee ≤ c.transferAmount * c.feeBasisPoints / 10000) ∧
    Exact 53 (min (c.transferAmount * c.feeBasisPoints / 10000) c.maxFee)) ∨
  (¬ 10000 ∣ c.transferAmount * c.feeBasisPoints ∧
    c.transferAmount * c.feeBasisPoints / 10000 < c.maxFee ∧
    2 ^ 53 ≤ c.transferAmount * c.feeBasisPoints / 10000 ∧
    spacing 53 (c.transferAmount * c.feeBasisPoints / 10000) ∣
      c.transferAmount * c.feeBasisPoints / 10000 + 1 ∧
    4 ∣ c.transferAmount * c.feeBasisPoints / 10000 + 1)

/-! ### Rounding -/

theorem ceilDiv_of_dvd {n d : ℕ} (hd : 0 < d) (h : d ∣ n) : n ⌈/⌉ d = n / d := by
  obtain ⟨k, rfl⟩ := h
  rw [Nat.mul_div_cancel_left k hd]
  exact smul_ceilDiv hd k

theorem ceilDiv_of_not_dvd {n d : ℕ} (hd : 0 < d) (h : ¬ d ∣ n) : n ⌈/⌉ d = n / d + 1 := by
  cases n with
  | zero => exact absurd (Nat.dvd_zero d) h
  | succ n =>
    have hshift : n + 1 + d - 1 = n + d := by omega
    rw [Nat.ceilDiv_eq_add_pred_div, hshift, Nat.add_div_right n hd, Nat.succ_div_of_not_dvd h]

/-- The client and the program differ by the two roundings only. -/
theorem feeCharged_eq_iff (c : Config) :
    feeCharged c = min (c.transferAmount * c.feeBasisPoints ⌈/⌉ 10000) c.maxFee ↔ c.DeclaresFee := by
  obtain ⟨n, hn⟩ : ∃ n, n = c.transferAmount * c.feeBasisPoints := ⟨_, rfl⟩
  obtain ⟨share, hshare⟩ : ∃ share, share = n / 10000 := ⟨_, rfl⟩
  have hcharged : feeCharged c = number (min share c.maxFee) := by
    rw [feeCharged, ← hn, ← hshare]
    split
    case isTrue h => rw [min_eq_right h.le]
    case isFalse h => rw [min_eq_left (Nat.le_of_not_lt h)]
  have hexact : ∀ x, number x = x ↔ Exact 53 x := fun x => round_eq_self_iff
  rw [Config.DeclaresFee, ← hn, ← hshare, hcharged]
  by_cases hdvd : 10000 ∣ n
  · rw [ceilDiv_of_dvd (by decide) hdvd, ← hshare, hexact]
    simp only [hdvd, true_or, true_and, not_true, false_and, or_false]
  · rw [ceilDiv_of_not_dvd (by decide) hdvd, ← hshare]
    simp only [hdvd, false_or, not_false_eq_true, true_and]
    rcases Nat.lt_or_ge share c.maxFee with hlt | hge
    · rw [min_eq_left hlt.le, min_eq_left hlt, number, round_eq_succ_iff]
      simp only [hlt, true_and, Nat.not_le.mpr hlt, false_and, false_or]
    · rw [min_eq_right hge, min_eq_right (hge.trans (Nat.le_succ share)), hexact]
      simp only [hge, true_and, Nat.not_lt.mpr hge, false_and, or_false]

/-! ### The comparison -/

theorem feeCharged_of_transfer {config : Config} {s : Session} {t : TransferCheckedWithFee}
    (h : transferBarkWithFee config s = some t) : t.fee = feeCharged config := by
  simp only [transferBarkWithFee, Option.bind_eq_bind, Option.bind_eq_some_iff] at h
  obtain ⟨source, -, destination, -, h⟩ := h
  split at h
  case isTrue => cases h
  case isFalse =>
    split at h
    case isTrue => cases h
    case isFalse =>
      cases h
      rfl

/-- Where the declared fee is the computed one, a transfer that declares it is the
transfer that declares none. -/
theorem processTransfer_of_fee {p : TransferFee} {amount fee : UInt64}
    (hfee : p.calculateFee amount = some fee) (decimals : UInt8) {env : Env} {l : Ledger}
    {accounts : List AccountInfo} (h : ChargesNow env l accounts p) :
    processTransfer env amount (some decimals) (some fee) accounts l =
      processTransfer env amount (some decimals) none accounts l := by
  obtain ⟨mintInfo, mint, config, hmint, hunpack, hconfig, rfl⟩ := h
  have hnow : mintFee env mint amount = .ok fee := by
    rw [mintFee, hconfig]
    exact okOr_eq_ok.mpr hfee
  obtain ⟨sourceInfo, rest, rfl⟩ : ∃ sourceInfo rest, accounts = sourceInfo :: mintInfo :: rest := by
    cases accounts with
    | nil => cases hmint
    | cons sourceInfo accounts =>
      cases accounts with
      | nil => cases hmint
      | cons info rest =>
        cases hmint
        exact ⟨sourceInfo, rest, rfl⟩
  have hterms : ∀ source terms, transferTerms env l sourceInfo.key source (some (mintInfo, decimals))
      amount = .ok terms → terms.fee = fee := by
    intro source terms h
    simp only [transferTerms, hunpack, ok_bind, hnow, ensure_bind_eq_ok, pure_eq_ok] at h
    obtain ⟨-, -, -, rfl⟩ := h
    rfl
  simp only [processTransfer, takeExpectedMint, nextAccountInfo, ok_bind, pure_bind]
  refine bind_congr_ok fun _ _ => bind_congr_ok fun _ _ => bind_congr_ok fun source _ => ?_
  refine bind_congr_ok fun _ _ => bind_congr_ok fun _ _ => bind_congr_ok fun _ _ => ?_
  refine bind_congr_ok fun terms h => ?_
  have hdeclared : (∀ f ∈ some fee, f = terms.fee) ↔ ∀ f ∈ (none : Option UInt64), f = terms.fee := by
    rw [hterms source terms h]
    simp only [Option.mem_def, Option.some.injEq, forall_eq', reduceCtorEq, false_imp_iff, implies_true]
  simp only [hdeclared]

/-- The client declares the fee of the program exactly where it rounds to the same number. -/
theorem feeDeclared_iff {p : TransferFee} (hp : p.RateBounded) (amount : UInt64) :
    FeeDeclared p amount ↔ (p.clientConfig amount).DeclaresFee := by
  have hfee : ∀ fee : UInt64, p.calculateFee amount = some fee ↔ fee.toNat =
      min (amount.toNat * p.transferFeeBasisPoints.toNat ⌈/⌉ 10000) p.maximumFee.toNat :=
    fun fee => p.calculateFee_eq_some_iff hp amount
  have hiff := feeCharged_eq_iff (p.clientConfig amount)
  constructor
  · intro h
    -- a script that goes through to the transfer
    have hsent := h.declared ⟨some default, some default, some amount.toNat, true⟩ _
      (if_neg (Nat.lt_irrefl amount.toNat))
    obtain ⟨fee, hcomputed, heq⟩ := hsent
    exact hiff.mp (heq.trans ((hfee fee).mp hcomputed))
  · intro h
    have hcharged := hiff.mpr h
    obtain ⟨fee, hcomputed⟩ : ∃ fee, p.calculateFee amount = some fee := ⟨_, p.calculateFee_eq hp amount⟩
    have hsame : ∀ s t, transferBarkWithFee (p.clientConfig amount) s = some t → t.fee = fee.toNat := by
      intro s t ht
      rw [feeCharged_of_transfer ht, hcharged, (hfee fee).mp hcomputed]
      rfl
    refine ⟨fun s t ht => ⟨fee, hcomputed, hsame s t ht⟩, fun s t ht fee' env l accounts hfee' hnow => ?_⟩
    obtain rfl : fee' = fee := UInt64.toNat_inj.mp (hfee'.trans (hsame s t ht))
    exact processTransfer_of_fee hcomputed _ hnow

/-- The amount, rate and cap of `config`. -/
theorem feeDeclared_configured : FeeDeclared ⟨0, 1000, 500⟩ 10000 := by
  have hp : (⟨0, 1000, 500⟩ : TransferFee).RateBounded := by decide
  have hshare : Exact 53 (min (10000 * 500 / 10000) 1000) := by decide +kernel
  exact (feeDeclared_iff hp 10000).mpr (.inl ⟨.inl (by decide), hshare⟩)

/-- A fee of one that the client rounds down to none. -/
theorem feeDeclared_one_fails : ¬ FeeDeclared ⟨0, 1000, 1⟩ 1 := by
  intro h
  obtain ⟨fee, hcomputed, hfee⟩ := h.declared ⟨some default, some default, some 1, true⟩ _ rfl
  have hone : TransferFee.calculateFee ⟨0, 1000, 1⟩ 1 = some 1 := by decide +kernel
  obtain rfl : 1 = fee := Option.some.inj (hone.symm.trans hcomputed)
  exact absurd hfee (by decide +kernel)

end BarkToken
