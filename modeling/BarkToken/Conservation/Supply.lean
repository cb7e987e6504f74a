import BarkToken.Conservation.Fees
import BarkToken.Invariant.Mints
import Mathlib.Algebra.BigOperators.Ring.Finset

/-!
# The supply of a mint

Counted in the open, a mint's supply is what its accounts hold and withhold,
together with what the mint itself withholds. A closed mint leaves nothing
behind.
-/

namespace BarkToken
open Fallible CheckedWord AccountData

/-- The amount of a live token account of `M`. -/
def amountOf (M : Pubkey) (r : AccountRecord) : ℕ :=
  if r.owner = programId then
    match r.data with
    | .account s => if s.base.mint = M then s.base.amount.toNat else 0
    | _ => 0
  else 0

/-- The fees that a live token account of `M` withholds. -/
def withheldOf (M : Pubkey) (r : AccountRecord) : ℕ :=
  if r.owner = programId then
    match r.data with
    | .account s => if s.base.mint = M then (withheldAmount s).toNat else 0
    | _ => 0
  else 0

/-- What a live mint has issued and does not withhold. -/
def issuedOf (r : AccountRecord) : ℤ :=
  if r.owner = programId then
    match r.data with
    | .mint m => m.base.supply.toNat - (mintWithheldAmount m).toNat
    | _ => 0
  else 0

/-- All tokens of `M` are accounted for. -/
structure SupplyAccounted (M : Pubkey) (l : Ledger) : Prop where
  supply : ∀ m, MintAt l M m → m.base.supply.toNat =
    ∑ k, amountOf M (l k) + ∑ k, withheldOf M (l k) + (mintWithheldAmount m).toNat
  closed : (¬ ∃ m, MintAt l M m) → ∀ k s, AccountAt l k s → s.base.mint = M →
    s.base.amount = 0 ∧ withheldAmount s = 0

section Blind

variable {M k : Pubkey} {l l' : Ledger} {r : AccountRecord}
  {s : PodStateWithExtensions PodAccount} {m : PodStateWithExtensions PodMint}

theorem amountOf_of_account (h : AccountAt l k s) (hmint : s.base.mint = M) :
    amountOf M (l k) = s.base.amount.toNat := by
  simp only [amountOf, h.owner, h.data, hmint, if_true]

theorem withheldOf_of_account (h : AccountAt l k s) (hmint : s.base.mint = M) :
    withheldOf M (l k) = (withheldAmount s).toNat := by
  simp only [withheldOf, h.owner, h.data, hmint, if_true]

theorem issuedOf_of_mint (h : MintAt l k m) :
    issuedOf (l k) = m.base.supply.toNat - (mintWithheldAmount m).toNat := by
  simp only [issuedOf, h.owner, h.data, if_true]

theorem issuedOf_of_not_mint (h : ¬ ∃ m, MintAt l k m) : issuedOf (l k) = 0 := by
  unfold issuedOf
  split
  case isTrue howner =>
    split
    case h_1 m hdata => exact absurd ⟨m, howner, hdata⟩ h
    case h_2 => rfl
  case isFalse => rfl

/-- The public part of what an account holds. -/
theorem held_blind {W : ElGamalPubkey} :
    held (.blind ℤ) W s = (s.base.amount.toNat : ℤ) + (withheldAmount s).toNat := by
  have hconfidential : (Decryption.blind ℤ).confidential s.tlv = 0 := by
    unfold Decryption.confidential
    split
    · simp only [Decryption.balance, Decryption.blind, mul_zero, add_zero]
    · rfl
  have hwithheld : (Decryption.blind ℤ).withheld W s.tlv = 0 := by
    unfold Decryption.withheld
    split <;> rfl
  rw [held, hconfidential, hwithheld, add_zero, add_zero]
  rfl

/-- The public part of what a mint has issued. -/
theorem issued_blind {W : ElGamalPubkey} :
    issued (.blind ℤ) W m = (m.base.supply.toNat : ℤ) - (mintWithheldAmount m).toNat := by
  have hconfidential : (Decryption.blind ℤ).mintWithheld W m.tlv = 0 := by
    unfold Decryption.mintWithheld
    split <;> rfl
  rw [issued, hconfidential, sub_zero]
  rfl

/-- Counted in the open, accounts contribute what they hold, the mint what it has
issued. -/
theorem contribution_blind {W : ElGamalPubkey} :
    contribution (.blind ℤ) W M k r =
      ((amountOf M r : ℤ) + withheldOf M r) - if k = M then issuedOf r else 0 := by
  by_cases howner : r.owner = programId
  case neg =>
    simp only [contribution, amountOf, withheldOf, issuedOf, howner, if_false, ite_self,
      Nat.cast_zero, add_zero, sub_zero]
  simp only [contribution, amountOf, withheldOf, issuedOf, howner, if_true]
  cases r.data with
  | account s =>
    by_cases hmint : s.base.mint = M
    · subst hmint
      simp only [share_self, held_blind, if_true, ite_self, sub_zero]
    · simp only [share_of_ne hmint, hmint, if_false, Nat.cast_zero, ite_self, add_zero, sub_zero]
  | mint m =>
    by_cases hk : k = M
    · subst hk
      simp only [share_self, issued_blind, if_true, Nat.cast_zero, add_zero, zero_sub]
    · simp only [share_of_ne hk, hk, if_false, Nat.cast_zero, neg_zero, add_zero, sub_zero]
  | _ => simp only [Nat.cast_zero, ite_self, add_zero, sub_zero]

/-- The public imbalance of a mint, term by term. -/
theorem imbalance_blind {W : ElGamalPubkey} :
    imbalance (.blind ℤ) W M l =
      ((∑ k, amountOf M (l k) : ℕ) : ℤ) + (∑ k, withheldOf M (l k) : ℕ) - issuedOf (l M) := by
  simp only [imbalance, KeyedSum.total, contribution_blind]
  rw [Finset.sum_sub_distrib, Finset.sum_add_distrib, Finset.sum_ite_eq', if_pos (Finset.mem_univ M),
    Nat.cast_sum, Nat.cast_sum]

/-- A balanced mint has its supply accounted for; where there is no mint, nothing
can be left. -/
theorem supplyAccounted_of_imbalance {W : ElGamalPubkey} (h : imbalance (.blind ℤ) W M l = 0) :
    SupplyAccounted M l := by
  rw [imbalance_blind] at h
  refine ⟨fun m hm => ?_, fun hnone k s hs hmint => ?_⟩
  · rw [issuedOf_of_mint hm] at h
    omega
  · rw [issuedOf_of_not_mint hnone] at h
    have hamounts : ∑ j, amountOf M (l j) = 0 := by omega
    have hwithhelds : ∑ j, withheldOf M (l j) = 0 := by omega
    have hamount := (Finset.sum_eq_zero_iff.mp hamounts) k (Finset.mem_univ k)
    have hwithheld := (Finset.sum_eq_zero_iff.mp hwithhelds) k (Finset.mem_univ k)
    rw [amountOf_of_account hs hmint] at hamount
    rw [withheldOf_of_account hs hmint] at hwithheld
    exact ⟨UInt64.toNat_inj.mp hamount, UInt64.toNat_inj.mp hwithheld⟩

/-! ### Runs -/

/-- Closing a mint without supply removes nothing: no account holds anything of
it, and it withholds nothing. -/
theorem Call.process_closesMint {W : ElGamalPubkey} {c : Call} (h : c.process = .ok l')
    (hclose : c.ClosesMint M) (hzero : imbalance (.blind ℤ) W M c.ledger = 0) :
    imbalance (.blind ℤ) W M l' = 0 := by
  obtain ⟨x, env, ix, accounts, l⟩ := c
  obtain ⟨⟨rfl, hkey⟩, m, hm⟩ := hclose
  obtain ⟨source, destination, authorityInfo, signers, rfl, hclosed⟩ := processCloseAccount_eq_ok h
  have hsource : source.key = M := Option.some.inj hkey
  rw [hsource] at hclosed
  obtain ⟨-, -, -, -, -, hsupply⟩ := hclosed.of_mint hm.data
  have hsupply : m.base.supply.toNat = 0 := by
    rw [hsupply]
    rfl
  rw [hclosed.imbalance_eq, contribution_of_mint hm.owner hm.data, share_self, issued_blind]
  rw [imbalance_blind, issuedOf_of_mint hm] at hzero
  dsimp only at hzero ⊢
  rw [imbalance_blind, issuedOf_of_mint hm]
  omega

/-- Instructions that are not confidential, interleaved with other programs. -/
abbrev PublicRun (x : Externals) : Ledger → List Event → Ledger → Prop :=
  RunWhere x fun c => c.ix.isConfidential = false

/-- Public runs keep every mint but the native one balanced. -/
theorem PublicRun.imbalance_eq_zero {W : ElGamalPubkey} {x : Externals} {l₀ : Ledger}
    {events : List Event} (hM : M ≠ nativeMint) (hgen : Genesis l₀)
    (hrun : PublicRun x l₀ events l) :
    WellFormedLedger l ∧ imbalance (.blind ℤ) W M l = 0 := by
  refine RunWhere.invariant
    (fun l => WellFormedLedger l ∧ imbalance (.blind ℤ) W M l = 0)
    (fun c l' _ hpublic hinv hok => ⟨Call.process_wellFormed hinv.1 hok, ?_⟩)
    (fun l l' hinv hf => ⟨hf.wellFormed hinv.1, hf.imbalance_eq.trans hinv.2⟩) hrun
    ⟨hgen.wellFormed, KeyedSum.total_eq_zero fun k => ?_⟩
  · by_cases hclose : c.ClosesMint M
    · exact Call.process_closesMint hok hclose hinv.2
    · exact (Call.process_imbalance hinv.1 hM hpublic hclose hok).trans hinv.2
  · by_cases howner : (l₀ k).owner = programId
    · obtain ⟨len, hdata⟩ := hgen.zeroed k howner
      exact contribution_of_zeroed hdata
    · exact contribution_of_foreign howner

theorem PublicRun.supplyAccounted {x : Externals} {l₀ : Ledger} {events : List Event}
    (hM : M ≠ nativeMint) (hgen : Genesis l₀) (hrun : PublicRun x l₀ events l) :
    SupplyAccounted M l :=
  supplyAccounted_of_imbalance (PublicRun.imbalance_eq_zero (W := default) hM hgen hrun).2

end Blind

end BarkToken
