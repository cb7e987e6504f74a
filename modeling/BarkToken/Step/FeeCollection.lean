import BarkToken.Step.Fee

/-!
# The loops that collect withheld fees (transfer_fee/processor.rs:160-275)

Harvesting and withdrawing skip the accounts that hold no fees of the mint, and
take those of every other account once, however often and in whichever order it is
listed.
-/

namespace BarkToken
open Fallible CheckedWord AccountData

/-! ### What is collected -/

namespace AccountRecord

/-- The initialised account of the mint `M` that this program owns here, if it has
room for fees, with the fees in it. -/
def feeAccount (M : Pubkey) (r : AccountRecord) :
    Option (PodStateWithExtensions PodAccount × UInt64) :=
  match r.data.unpackAccount with
  | .ok s =>
    if s.base.mint = M ∧ r.owner = programId then
      (s.tlv.get .transferFeeAmount).map fun v => (s, v.withheldAmount)
    else none
  | .error _ => none

def fees (M : Pubkey) (r : AccountRecord) : ℕ := ((r.feeAccount M).map fun a => a.2.toNat).getD 0

def withoutFees (M : Pubkey) (r : AccountRecord) : AccountRecord :=
  match r.feeAccount M with
  | some (s, _) => { r with data := .account (s.setExtension .transferFeeAmount ⟨0⟩) }
  | none => r

variable {M : Pubkey} {r : AccountRecord} {s : PodStateWithExtensions PodAccount} {n : UInt64}

theorem feeAccount_eq_some : r.feeAccount M = some (s, n) ↔ r.data.unpackAccount = .ok s ∧
    s.base.mint = M ∧ r.owner = programId ∧ s.tlv.get .transferFeeAmount = some ⟨n⟩ := by
  unfold feeAccount
  cases hs : r.data.unpackAccount with
  | error e => simp
  | ok t =>
    simp only [Option.ite_none_right_eq_some, Option.map_eq_some_iff, Prod.mk.injEq, Except.ok.injEq]
    constructor
    · rintro ⟨⟨hmint, howner⟩, ⟨v⟩, hv, rfl, rfl⟩
      exact ⟨rfl, hmint, howner, hv⟩
    · rintro ⟨rfl, hmint, howner, hv⟩
      exact ⟨⟨hmint, howner⟩, ⟨n⟩, hv, rfl, rfl⟩

theorem fees_of_some (h : r.feeAccount M = some (s, n)) : r.fees M = n.toNat := by
  rw [fees, h]
  rfl

theorem fees_of_none (h : r.feeAccount M = none) : r.fees M = 0 := by
  rw [fees, h]
  rfl

theorem withoutFees_of_some (h : r.feeAccount M = some (s, n)) :
    r.withoutFees M = { r with data := .account (s.setExtension .transferFeeAmount ⟨0⟩) } := by
  rw [withoutFees, h]

theorem withoutFees_of_none (h : r.feeAccount M = none) : r.withoutFees M = r := by
  rw [withoutFees, h]

/-- Once the fees are taken, there are none. -/
theorem feeAccount_withoutFees (h : r.feeAccount M = some (s, n)) :
    (r.withoutFees M).feeAccount M = some (s.setExtension .transferFeeAmount ⟨0⟩, 0) := by
  rw [withoutFees_of_some h]
  obtain ⟨hs, hmint, howner, -⟩ := feeAccount_eq_some.mp h
  obtain ⟨-, hrest⟩ := unpackAccount_eq_ok.mp hs
  exact feeAccount_eq_some.mpr ⟨unpackAccount_eq_ok.mpr ⟨rfl, hrest⟩, hmint, howner, by simp⟩

theorem fees_withoutFees (M : Pubkey) (r : AccountRecord) : (r.withoutFees M).fees M = 0 := by
  cases h : r.feeAccount M with
  | none => rw [withoutFees_of_none h, fees_of_none h]
  | some p => rw [fees_of_some (feeAccount_withoutFees h), UInt64.toNat_zero]

theorem withoutFees_withoutFees (M : Pubkey) (r : AccountRecord) :
    (r.withoutFees M).withoutFees M = r.withoutFees M := by
  cases h : r.feeAccount M with
  | none => rw [withoutFees_of_none h, withoutFees_of_none h]
  | some p =>
    rw [withoutFees_of_some (feeAccount_withoutFees h), withoutFees_of_some h]
    simp [PodStateWithExtensions.setExtension]

end AccountRecord

namespace Ledger

/-- The fees for `M` are taken out of the accounts at `K`. -/
def withoutFees (M : Pubkey) (K : Finset Pubkey) (l : Ledger) : Ledger := fun k =>
  if k ∈ K then (l k).withoutFees M else l k

variable {l : Ledger} {M k : Pubkey} {K : Finset Pubkey}

theorem withoutFees_of_mem (h : k ∈ K) : l.withoutFees M K k = (l k).withoutFees M := if_pos h

theorem withoutFees_of_not_mem (h : k ∉ K) : l.withoutFees M K k = l k := if_neg h

theorem withoutFees_empty : l.withoutFees M ∅ = l := funext fun _ => if_neg (by simp)

theorem withoutFees_insert (k : Pubkey) :
    (l.withoutFees M {k}).withoutFees M K = l.withoutFees M (insert k K) := by
  funext j
  by_cases hk : j = k
  · subst hk
    rw [withoutFees_of_mem (Finset.mem_insert_self _ _)]
    by_cases hmem : j ∈ K
    · rw [withoutFees_of_mem hmem, withoutFees_of_mem (Finset.mem_singleton_self _),
        AccountRecord.withoutFees_withoutFees]
    · rw [withoutFees_of_not_mem hmem, withoutFees_of_mem (Finset.mem_singleton_self _)]
  · have hne : j ∉ ({k} : Finset Pubkey) := by simpa using hk
    by_cases hmem : j ∈ K
    · rw [withoutFees_of_mem hmem, withoutFees_of_not_mem hne,
        withoutFees_of_mem (Finset.mem_insert_of_mem hmem)]
    · rw [withoutFees_of_not_mem hmem, withoutFees_of_not_mem hne,
        withoutFees_of_not_mem (by simp [hk, hmem])]

/-- Fees that are taken once count once. -/
theorem sum_fees_insert (k : Pubkey) :
    ((l k).fees M + ∑ j ∈ K, (l.withoutFees M {k} j).fees M) = ∑ j ∈ insert k K, (l j).fees M := by
  have hrest (j : Pubkey) (hj : j ∈ K.erase k) :
      (l.withoutFees M {k} j).fees M = (l j).fees M := by
    rw [withoutFees_of_not_mem (by simpa using Finset.ne_of_mem_erase hj)]
  have hzero : (l.withoutFees M {k} k).fees M = 0 := by
    rw [withoutFees_of_mem (Finset.mem_singleton_self _), AccountRecord.fees_withoutFees]
  rw [← Finset.insert_erase (Finset.mem_insert_self k K), Finset.sum_insert (Finset.notMem_erase _ _),
    Finset.erase_insert_eq_erase, ← Finset.sum_congr rfl hrest]
  by_cases hmem : k ∈ K
  · rw [← Finset.add_sum_erase K _ hmem, hzero, Nat.zero_add]
  · rw [Finset.erase_eq_of_notMem hmem]

theorem setData_withoutFees {s : PodStateWithExtensions PodAccount} {n : UInt64}
    (h : (l k).feeAccount M = some (s, n)) :
    l.setData k (.account (s.setExtension .transferFeeAmount ⟨0⟩)) = l.withoutFees M {k} := by
  funext j
  by_cases hk : j = k
  · subst hk
    rw [setData_self, withoutFees_of_mem (Finset.mem_singleton_self _),
      AccountRecord.withoutFees_of_some h]
  · rw [setData_of_ne hk, withoutFees_of_not_mem (by simpa using hk)]

theorem withoutFees_of_none (h : (l k).feeAccount M = none) : l.withoutFees M {k} = l := by
  funext j
  by_cases hk : j = k
  · subst hk
    rw [withoutFees_of_mem (Finset.mem_singleton_self _), AccountRecord.withoutFees_of_none h]
  · rw [withoutFees_of_not_mem (by simpa using hk)]

theorem withoutFees_owner (k : Pubkey) : (l.withoutFees M K k).owner = (l k).owner := by
  by_cases h : k ∈ K
  · rw [withoutFees_of_mem h, AccountRecord.withoutFees]
    split <;> rfl
  · rw [withoutFees_of_not_mem h]

theorem withoutFees_eq_self (h : ∀ k ∈ K, (l k).withoutFees M = l k) : l.withoutFees M K = l := by
  funext k
  by_cases hk : k ∈ K
  · rw [withoutFees_of_mem hk, h k hk]
  · rw [withoutFees_of_not_mem hk]

/-- Taking the fees of `k` as well makes no difference to a ledger that has other
data written to it at `k`. -/
theorem setData_withoutFees_erase {d : AccountData} :
    (l.withoutFees M (K.erase k)).setData k d = (l.withoutFees M K).setData k d := by
  funext j
  by_cases hj : j = k
  · subst hj
    rw [setData_self, setData_self, withoutFees_of_not_mem (Finset.notMem_erase _ _)]
    by_cases hmem : j ∈ K
    · rw [withoutFees_of_mem hmem, AccountRecord.withoutFees]
      split <;> rfl
    · rw [withoutFees_of_not_mem hmem]
  · rw [setData_of_ne hj, setData_of_ne hj]
    by_cases hmem : j ∈ K
    · rw [withoutFees_of_mem hmem, withoutFees_of_mem (Finset.mem_erase.mpr ⟨hj, hmem⟩)]
    · rw [withoutFees_of_not_mem hmem,
        withoutFees_of_not_mem (fun h => hmem (Finset.mem_of_mem_erase h))]

end Ledger

/-! ### One account -/

theorem harvestFromAccount_of_some {l : Ledger} {M k : Pubkey}
    {s : PodStateWithExtensions PodAccount} {n : UInt64} (h : (l k).feeAccount M = some (s, n)) :
    harvestFromAccount l M k = .ok (n, l.withoutFees M {k}) := by
  rw [← Ledger.setData_withoutFees h]
  obtain ⟨hs, hmint, howner, hget⟩ := AccountRecord.feeAccount_eq_some.mp h
  simp only [harvestFromAccount, bind_eq_ok, exists_unit, mapErr_eq_ok, ensure_eq_ok,
    checkProgramAccount_eq_ok, pure_eq_ok, Prod.mk.injEq]
  exact ⟨s, hs, hmint, howner, ⟨n⟩, PodStateWithExtensions.getExtension_eq_ok.mpr hget, _,
    Ledger.writeData_eq_ok.mpr ⟨Or.inl howner, rfl⟩, rfl, rfl⟩

theorem harvestFromAccount_of_none {l : Ledger} {M k : Pubkey} (h : (l k).feeAccount M = none) :
    ∃ e, harvestFromAccount l M k = .error e := by
  cases hok : harvestFromAccount l M k with
  | error e => exact ⟨e, rfl⟩
  | ok p =>
    simp only [harvestFromAccount, bind_eq_ok, exists_unit, mapErr_eq_ok, ensure_eq_ok,
      checkProgramAccount_eq_ok, pure_eq_ok] at hok
    obtain ⟨s, hs, hmint, howner, v, hv, -⟩ := hok
    have hsome := AccountRecord.feeAccount_eq_some.mpr
      ⟨hs, hmint, howner, PodStateWithExtensions.getExtension_eq_ok.mp hv⟩
    exact absurd (h.symm.trans hsome) (by simp)

/-! ### The loops -/

/-- One pass of the harvest takes the fees of one account. -/
theorem harvestToMint_iff {M : Pubkey} {info : AccountInfo} {n n' : UInt64} {l l' : Ledger} :
    harvestToMint M (n, l) info = .ok (n', l') ↔ info.key ≠ M ∧
      n'.toNat = n.toNat + (l info.key).fees M ∧ l' = l.withoutFees M {info.key} := by
  simp only [harvestToMint, bind_eq_ok, exists_unit, borrowData_eq_ok, List.mem_singleton]
  refine and_congr_right fun _ => ?_
  cases h : (l info.key).feeAccount M with
  | none =>
    obtain ⟨e, he⟩ := harvestFromAccount_of_none h
    rw [he, AccountRecord.fees_of_none h, Ledger.withoutFees_of_none h, Nat.add_zero]
    simp only [pure_eq_ok, Prod.mk.injEq, UInt64.toNat_inj]
    exact and_congr eq_comm eq_comm
  | some p =>
    obtain ⟨s, a⟩ := p
    rw [harvestFromAccount_of_some h, AccountRecord.fees_of_some h]
    simp only [bind_eq_ok, okOr_eq_ok, pure_eq_ok, Prod.mk.injEq]
    constructor
    · rintro ⟨total, htotal, rfl, rfl⟩
      exact ⟨checkedAdd_eq_some.mp htotal, rfl⟩
    · rintro ⟨htotal, rfl⟩
      exact ⟨n', checkedAdd_eq_some.mpr htotal, rfl, rfl⟩

/-- A sum that stays below a word is one. -/
theorem exists_toNat_of_le {n : ℕ} {w : UInt64} (h : n ≤ w.toNat) : ∃ v : UInt64, v.toNat = n := by
  have hlt : w.toNat < UInt64.size := w.toNat_lt
  exact ⟨UInt64.ofNat n, UInt64.toNat_ofNat_of_lt (by omega)⟩

/-- The keys of a list of accounts. -/
def keySet (infos : List AccountInfo) : Finset Pubkey := (infos.map AccountInfo.key).toFinset

theorem keySet_cons (info : AccountInfo) (infos : List AccountInfo) :
    keySet (info :: infos) = insert info.key (keySet infos) := by
  rw [keySet, List.map_cons, List.toFinset_cons, keySet]

/-- The whole harvest depends on the set of its keys only. -/
theorem harvestLoop_iff {M : Pubkey} {infos : List AccountInfo} {n n' : UInt64} {l l' : Ledger} :
    loop (harvestToMint M) infos (n, l) = .ok (n', l') ↔ M ∉ keySet infos ∧
      n'.toNat = n.toNat + ∑ k ∈ keySet infos, (l k).fees M ∧
      l' = l.withoutFees M (keySet infos) := by
  induction infos generalizing n l with
  | nil =>
    simp only [loop_nil, Except.ok.injEq, Prod.mk.injEq, keySet, List.map_nil, List.toFinset_nil,
      Finset.notMem_empty, not_false_eq_true, true_and, Finset.sum_empty, Nat.add_zero,
      Ledger.withoutFees_empty, UInt64.toNat_inj]
    exact and_congr eq_comm eq_comm
  | cons info infos ih =>
    rw [keySet_cons, ← Ledger.sum_fees_insert, ← Ledger.withoutFees_insert, Finset.mem_insert, not_or]
    constructor
    · intro h
      obtain ⟨⟨n₁, l₁⟩, hpass, hrest⟩ := loop_cons_eq_ok.mp h
      obtain ⟨hne, hn₁, rfl⟩ := harvestToMint_iff.mp hpass
      obtain ⟨hmem, hn', rfl⟩ := ih.mp hrest
      exact ⟨⟨Ne.symm hne, hmem⟩, by omega, rfl⟩
    · rintro ⟨⟨hne, hmem⟩, hn', rfl⟩
      -- The partial sums stay below the total, so none of them overflows.
      obtain ⟨n₁, hn₁⟩ := exists_toNat_of_le (w := n') (n := n.toNat + (l info.key).fees M) (by omega)
      exact loop_cons_eq_ok.mpr ⟨(n₁, l.withoutFees M {info.key}),
        harvestToMint_iff.mpr ⟨Ne.symm hne, hn₁, rfl⟩, ih.mpr ⟨hmem, by omega, rfl⟩⟩

/-- What the destination `D` of a withdrawal from the accounts at `K` has collected:
its own fees if it is listed, and those of the other accounts. -/
structure FeesCollected (M D : Pubkey) (K : Finset Pubkey) (d d' : PodStateWithExtensions PodAccount)
    (l l' : Ledger) : Prop where
  mint : M ∉ K
  own : D ∈ K → d.hasExtension .transferFeeAmount
  amount : d'.base.amount.toNat = d.base.amount.toNat +
    (if D ∈ K then (withheldAmount d).toNat else 0) + ∑ k ∈ K.erase D, (l k).fees M
  account : d' = { (if D ∈ K then d.setExtension .transferFeeAmount ⟨0⟩ else d) with
    base := { d.base with amount := d'.base.amount } }
  ledger : l' = l.withoutFees M (K.erase D)

theorem selfHarvest_iff {d d' : PodStateWithExtensions PodAccount} :
    selfHarvest d = .ok d' ↔ d.hasExtension .transferFeeAmount ∧
      d'.base.amount.toNat = d.base.amount.toNat + (withheldAmount d).toNat ∧
      d' = { d.setExtension .transferFeeAmount ⟨0⟩ with
        base := { d.base with amount := d'.base.amount } } := by
  simp only [selfHarvest, bind_eq_ok, mapErr_eq_ok, okOr_eq_ok, pure_eq_ok]
  constructor
  · rintro ⟨v, hv, n, hn, rfl⟩
    have hget := PodStateWithExtensions.getExtension_eq_ok.mp hv
    refine ⟨Option.isSome_of_eq_some hget, ?_, rfl⟩
    rw [withheldAmount, hget]
    exact checkedAdd_eq_some.mp hn
  · rintro ⟨hsome, hn, hd'⟩
    obtain ⟨v, hget⟩ := Option.isSome_iff_exists.mp hsome
    rw [withheldAmount, hget] at hn
    exact ⟨v, PodStateWithExtensions.getExtension_eq_ok.mpr hget, d'.base.amount,
      checkedAdd_eq_some.mpr hn, hd'.symm⟩

/-- One pass over an account other than the destination. -/
theorem withdrawFromAccount_iff {M D : Pubkey} {info : AccountInfo}
    {d d' : PodStateWithExtensions PodAccount} {l l' : Ledger} (hne : info.key ≠ D) :
    withdrawFromAccount M D (d, l) info = .ok (d', l') ↔ info.key ≠ M ∧
      d'.base.amount.toNat = d.base.amount.toNat + (l info.key).fees M ∧
      d' = { d with base := { d.base with amount := d'.base.amount } } ∧
      l' = l.withoutFees M {info.key} := by
  simp only [withdrawFromAccount, if_neg hne, bind_eq_ok, exists_unit, borrowData_eq_ok,
    List.mem_singleton]
  refine and_congr_right fun _ => ?_
  cases h : (l info.key).feeAccount M with
  | none =>
    obtain ⟨e, he⟩ := harvestFromAccount_of_none h
    rw [he, AccountRecord.fees_of_none h, Ledger.withoutFees_of_none h, Nat.add_zero]
    simp only [pure_eq_ok, Prod.mk.injEq, UInt64.toNat_inj]
    constructor
    · rintro ⟨rfl, rfl⟩
      exact ⟨rfl, rfl, rfl⟩
    · rintro ⟨hn, hd', rfl⟩
      exact ⟨by rw [hd', hn], rfl⟩
  | some p =>
    obtain ⟨s, a⟩ := p
    rw [harvestFromAccount_of_some h, AccountRecord.fees_of_some h]
    simp only [bind_eq_ok, okOr_eq_ok, pure_eq_ok, Prod.mk.injEq]
    constructor
    · rintro ⟨n, hn, rfl, rfl⟩
      exact ⟨checkedAdd_eq_some.mp hn, rfl, rfl⟩
    · rintro ⟨hn, hd', rfl⟩
      exact ⟨d'.base.amount, checkedAdd_eq_some.mpr hn, hd'.symm, rfl⟩

namespace FeesCollected

variable {M D k : Pubkey} {K : Finset Pubkey} {d d' : PodStateWithExtensions PodAccount}
  {l l' : Ledger}

theorem empty_iff : FeesCollected M D ∅ d d' l l' ↔ d' = d ∧ l' = l := by
  constructor
  · rintro ⟨-, -, hn, hd', hl'⟩
    simp only [Finset.notMem_empty, if_false, Finset.erase_empty, Finset.sum_empty, Nat.add_zero,
      UInt64.toNat_inj] at hn hd' hl'
    exact ⟨by rw [hd', hn], hl'.trans Ledger.withoutFees_empty⟩
  · rintro ⟨rfl, rfl⟩
    exact ⟨by simp, by simp, by simp, by simp, by simp [Ledger.withoutFees_empty]⟩

/-- The destination listed once more: its own fees are taken at once. -/
theorem insert_self_iff (hne : D ≠ M) : FeesCollected M D (insert D K) d d' l l' ↔
    ∃ d₁, selfHarvest d = .ok d₁ ∧ FeesCollected M D K d₁ d' l l' := by
  have hzero (d : PodStateWithExtensions PodAccount) (base : PodAccount) : withheldAmount
      { d.setExtension .transferFeeAmount ⟨0⟩ with base := base } = 0 := by simp [withheldAmount]
  constructor
  · rintro ⟨hmint, hown, hn, hd', hl'⟩
    rw [if_pos (Finset.mem_insert_self _ _), Finset.erase_insert_eq_erase] at hn
    rw [if_pos (Finset.mem_insert_self _ _)] at hd'
    obtain ⟨n₁, hn₁⟩ := exists_toNat_of_le (w := d'.base.amount)
      (n := d.base.amount.toNat + (withheldAmount d).toNat) (by omega)
    refine ⟨{ d.setExtension .transferFeeAmount ⟨0⟩ with base := { d.base with amount := n₁ } },
      selfHarvest_iff.mpr ⟨hown (Finset.mem_insert_self _ _), hn₁, rfl⟩, ?_⟩
    refine ⟨fun h => hmint (Finset.mem_insert_of_mem h),
      fun _ => by simp [PodStateWithExtensions.hasExtension], ?_, ?_, ?_⟩
    · rw [hzero, UInt64.toNat_zero, ite_self, Nat.add_zero]
      exact hn.trans (by rw [hn₁])
    · rw [hd']
      split <;> simp [PodStateWithExtensions.setExtension]
    · rw [hl', Finset.erase_insert_eq_erase]
  · rintro ⟨d₁, hself, hmint, hown, hn, hd', hl'⟩
    obtain ⟨hsome, hn₁, hd₁⟩ := selfHarvest_iff.mp hself
    have hwithheld : withheldAmount d₁ = 0 := by rw [hd₁, hzero]
    rw [hwithheld, UInt64.toNat_zero, ite_self, Nat.add_zero] at hn
    refine ⟨by simp [Ne.symm hne, hmint], fun _ => hsome, ?_, ?_, ?_⟩
    · rw [if_pos (Finset.mem_insert_self _ _), Finset.erase_insert_eq_erase, hn, hn₁]
    · rw [if_pos (Finset.mem_insert_self _ _), hd', hd₁]
      split <;> simp [PodStateWithExtensions.setExtension]
    · rw [hl', Finset.erase_insert_eq_erase]

/-- Another account listed once more: its fees are taken at once. -/
theorem insert_iff (hne : k ≠ D) : FeesCollected M D (insert k K) d d' l l' ↔
    ∃ d₁, (k ≠ M ∧ d₁.base.amount.toNat = d.base.amount.toNat + (l k).fees M ∧
      d₁ = { d with base := { d.base with amount := d₁.base.amount } }) ∧
      FeesCollected M D K d₁ d' (l.withoutFees M {k}) l' := by
  have hmem : D ∈ insert k K ↔ D ∈ K := by simp [Ne.symm hne]
  have herase : (insert k K).erase D = insert k (K.erase D) := Finset.erase_insert_of_ne hne
  constructor
  · rintro ⟨hmint, hown, hn, hd', hl'⟩
    simp only [hmem] at hown hn hd'
    rw [herase, ← Ledger.sum_fees_insert] at hn
    rw [herase, ← Ledger.withoutFees_insert] at hl'
    obtain ⟨n₁, hn₁⟩ := exists_toNat_of_le (w := d'.base.amount)
      (n := d.base.amount.toNat + (l k).fees M) (by omega)
    refine ⟨{ d with base := { d.base with amount := n₁ } },
      ⟨fun e => hmint (e ▸ Finset.mem_insert_self _ _), hn₁, rfl⟩,
      fun h => hmint (Finset.mem_insert_of_mem h), hown, ?_, ?_, hl'⟩
    · rw [hn]
      dsimp only [withheldAmount]
      rw [hn₁]
      omega
    · rw [hd']
      split <;> rfl
  · rintro ⟨d₁, ⟨hkey, hn₁, hd₁⟩, hmint, hown, hn, hd', hl'⟩
    have hwithheld : withheldAmount d₁ = withheldAmount d := by rw [hd₁]; rfl
    refine ⟨by simp [Ne.symm hkey, hmint], ?_, ?_, ?_, ?_⟩
    · rw [hmem]
      rw [hd₁] at hown
      exact hown
    · simp only [hmem]
      rw [herase, ← Ledger.sum_fees_insert, hn, hn₁, hwithheld]
      omega
    · simp only [hmem]
      rw [hd', hd₁]
      split <;> rfl
    · rw [hl', herase, ← Ledger.withoutFees_insert]

end FeesCollected

/-- The whole withdrawal depends on the set of its keys only. -/
theorem withdrawLoop_iff {M D : Pubkey} (hne : D ≠ M) {infos : List AccountInfo}
    {d d' : PodStateWithExtensions PodAccount} {l l' : Ledger} :
    loop (withdrawFromAccount M D) infos (d, l) = .ok (d', l') ↔
      FeesCollected M D (keySet infos) d d' l l' := by
  induction infos generalizing d l with
  | nil =>
    rw [keySet, List.map_nil, List.toFinset_nil, FeesCollected.empty_iff]
    simp only [loop_nil, Except.ok.injEq, Prod.mk.injEq]
    exact and_congr eq_comm eq_comm
  | cons info infos ih =>
    rw [keySet_cons, loop_cons_eq_ok, Prod.exists]
    by_cases hself : info.key = D
    · subst hself
      rw [FeesCollected.insert_self_iff hne]
      refine exists_congr fun d₁ => ?_
      simp only [withdrawFromAccount, if_pos, bind_eq_ok, pure_eq_ok, Prod.mk.injEq, ih]
      constructor
      · rintro ⟨l₁, ⟨d₂, hself, rfl, rfl⟩, hrest⟩
        exact ⟨hself, hrest⟩
      · rintro ⟨hself, hrest⟩
        exact ⟨l, ⟨d₁, hself, rfl, rfl⟩, hrest⟩
    · rw [FeesCollected.insert_iff hself]
      refine exists_congr fun d₁ => ?_
      simp only [withdrawFromAccount_iff hself, ih]
      constructor
      · rintro ⟨l₁, ⟨hkey, hn, hd₁, rfl⟩, hrest⟩
        exact ⟨⟨hkey, hn, hd₁⟩, hrest⟩
      · rintro ⟨⟨hkey, hn, hd₁⟩, hrest⟩
        exact ⟨_, ⟨hkey, hn, hd₁, rfl⟩, hrest⟩

end BarkToken
