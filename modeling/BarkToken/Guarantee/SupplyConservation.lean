import BarkToken.Conservation.Supply
import BarkToken.Guarantee.FeeArithmetic
import BarkToken.Processor.Overflow
import BarkToken.Program.Replay

/-!
# The supply of a mint, and the credits it bounds

Every token of a mint is held or withheld by one of its accounts or by the mint.
So all that its accounts hold fits into a machine word, and no credit can overflow.
-/

namespace BarkToken
open Fallible CheckedWord AccountData

/-! ### A transfer up to its credit -/

section Transfer

variable {env : Env} {amount : UInt64} {decimals : Option UInt8} {fee : Option UInt64}
  {accounts : List AccountInfo} {l : Ledger}

/-- What has been checked of a due transfer: two live accounts of one mint, an amount
that the source has, and the fee of that mint. -/
structure DueTransfer.Checked (p : DueTransfer) (env : Env) (amount : UInt64) (l : Ledger)
    (s : PodStateWithExtensions PodAccount) : Prop where
  ne : p.sourceInfo.key ≠ p.destinationInfo.key
  source : AccountAt l p.sourceInfo.key s
  destination : AccountAt l p.destinationInfo.key p.destination
  mint : s.base.mint = p.destination.base.mint
  enough : amount ≤ s.base.amount
  fee : p.terms.fee = 0 ∨ ∃ m, (l s.base.mint).data.unpackMint = .ok m ∧
    mintFee env m amount = .ok p.terms.fee

theorem dueTransfer_eq_ok {p : DueTransfer}
    (h : dueTransfer env amount decimals fee accounts l = .ok (some p)) :
    ∃ s, p.Checked env amount l s := by
  simp only [dueTransfer, bind_eq_ok, Prod.exists, exists_unit, nextAccountInfo_eq_ok,
    checkProgramAccount_eq_ok, ensure_eq_ok] at h
  obtain ⟨sourceInfo, rest, -, mint, rest', -, destinationInfo, rest'', -, authorityInfo, signers, -,
    s, hs, -, hamount, -, terms, hterms, -, base, -, hsourceOwner, hdestinationOwner, h⟩ := h
  split at h
  case isTrue => simp [pure_eq_ok] at h
  case isFalse hself =>
    simp only [bind_eq_ok, exists_unit, ensure_eq_ok, okOr_eq_ok, pure_eq_ok, Option.some.injEq] at h
    obtain ⟨d, hd, -, hmint, -, -, sourceAmount, -, rfl⟩ := h
    refine ⟨s, by simpa using hself, ⟨hsourceOwner, (unpackAccount_eq_ok.mp hs).1⟩,
      ⟨hdestinationOwner, (unpackAccount_eq_ok.mp hd).1⟩, hmint, hamount, ?_⟩
    rcases transferTerms_eq_ok hterms with ⟨-, rfl⟩ | ⟨-, -, m, -, -, hm, hfee, -, -⟩
    · exact Or.inl rfl
    · exact Or.inr ⟨m, hm, hfee⟩

/-- A credit fails to fit only where the amounts do. -/
theorem creditDestination_avoids {d : PodStateWithExtensions PodAccount} {fee : UInt64}
    (hfee : fee ≤ amount) (hamount : d.base.amount.toNat + amount.toNat < 2 ^ 64)
    (hwithheld : (withheldAmount d).toNat + fee.toNat < 2 ^ 64) :
    Avoids overflow (creditDestination d amount fee) := by
  obtain ⟨credited, hcredited⟩ := checkedSub_of_le hfee
  have hsum := checkedSub_eq_some.mp hcredited
  have hadd : checkedAdd d.base.amount credited = some (d.base.amount + credited) :=
    if_pos (by omega)
  refine .bind (.of_eq_ok (okOr_eq_ok.mpr hcredited)) fun a ha => ?_
  obtain rfl := Option.some.inj (hcredited.symm.trans (okOr_eq_ok.mp ha))
  refine .bind (.of_eq_ok (okOr_eq_ok.mpr hadd)) fun _ _ => .ite (fun _ => ?_) fun _ => .pure _
  dsimp only
  split
  case h_1 v hv =>
    rw [withheldAmount, hv] at hwithheld
    have hfits : checkedAdd v.withheldAmount fee = some (v.withheldAmount + fee) := if_pos hwithheld
    exact .bind (.of_eq_ok (okOr_eq_ok.mpr hfits)) fun _ _ => .pure _
  case h_2 => exact .error (by decide)

end Transfer

/-! ### What the accounts of a mint hold together -/

/-- The tokens that an account holds or withholds. -/
def tokens (s : PodStateWithExtensions PodAccount) : ℤ :=
  s.base.amount.toNat + (withheldAmount s).toNat

@[inherit_doc tokens]
def tokensOf (M : Pubkey) (r : AccountRecord) : ℤ := amountOf M r + withheldOf M r

def holdings (M : Pubkey) (l : Ledger) : ℤ := KeyedSum.total (fun (_ : Pubkey) r => tokensOf M r) l

section Holdings

variable {M k j : Pubkey} {l l' : Ledger} {s : PodStateWithExtensions PodAccount}

theorem tokensOf_nonneg (M : Pubkey) (r : AccountRecord) : 0 ≤ tokensOf M r := by
  unfold tokensOf
  omega

theorem tokensOf_account (h : AccountAt l k s) (hmint : s.base.mint = M) :
    tokensOf M (l k) = tokens s := by
  rw [tokensOf, amountOf_of_account h hmint, withheldOf_of_account h hmint, tokens]

theorem tokensOf_eq_zero (h : ∀ s, AccountAt l k s → s.base.mint ≠ M) : tokensOf M (l k) = 0 := by
  unfold tokensOf amountOf withheldOf
  split
  case isTrue howner =>
    split
    case h_1 s hdata =>
      rw [if_neg (h s ⟨howner, hdata⟩), if_neg (h s ⟨howner, hdata⟩)]
      rfl
    case h_2 => rfl
  case isFalse => rfl

theorem holdings_nonneg : 0 ≤ holdings M l := by
  unfold holdings KeyedSum.total
  exact Finset.sum_nonneg fun k _ => tokensOf_nonneg M (l k)

theorem sum_tokensOf_le (ks : Finset Pubkey) : ∑ k ∈ ks, tokensOf M (l k) ≤ holdings M l :=
  KeyedSum.sum_le_total (c := fun (_ : Pubkey) r => tokensOf M r) (fun k => tokensOf_nonneg M (l k)) ks

theorem tokensOf_le (k : Pubkey) : tokensOf M (l k) ≤ holdings M l := by
  have hle := sum_tokensOf_le (M := M) (l := l) {k}
  rwa [Finset.sum_singleton] at hle

theorem tokensOf_pair_le (hjk : j ≠ k) : tokensOf M (l j) + tokensOf M (l k) ≤ holdings M l := by
  have hle := sum_tokensOf_le (M := M) (l := l) {j, k}
  rwa [Finset.sum_pair hjk] at hle

theorem imbalance_eq_holdings {W : ElGamalPubkey} :
    imbalance (.blind ℤ) W M l = holdings M l - issuedOf (l M) := by
  simp only [imbalance, holdings, KeyedSum.total, contribution_blind, tokensOf]
  rw [Finset.sum_sub_distrib, Finset.sum_ite_eq', if_pos (Finset.mem_univ M)]

/-- Nothing is issued that does not fit into a word. -/
theorem issuedOf_lt (r : AccountRecord) : issuedOf r < 2 ^ 64 := by
  have hzero : (0 : ℤ) < 2 ^ 64 := by positivity
  have hword (a b : UInt64) : (a.toNat : ℤ) - b.toNat < 2 ^ 64 := by
    have ha := a.toNat_lt
    omega
  unfold issuedOf
  split
  case isTrue =>
    split
    case h_1 m _ => exact hword m.base.supply (mintWithheldAmount m)
    case h_2 => exact hzero
  case isFalse => exact hzero

theorem Harvested.holdings_eq {amount : UInt64} (h : Harvested l l' M k s amount) (hne : k ≠ M) :
    holdings M l' + amount.toNat = holdings M l := by
  have himbalance := h.imbalance_eq (D := .blind ℤ) (W := default) (M := M)
  rw [imbalance_eq_holdings, imbalance_eq_holdings, h.of_ne (Ne.symm hne), share_self] at himbalance
  simp only [value] at himbalance
  omega

/-- The accounts of a balanced mint hold no more than was issued. -/
theorem holdings_lt {W : ElGamalPubkey} (h : imbalance (.blind ℤ) W M l = 0) :
    holdings M l < 2 ^ 64 := by
  rw [imbalance_eq_holdings, sub_eq_zero] at h
  exact h ▸ issuedOf_lt _

/-! ### The credits of the loops -/

theorem unpackAccount_avoids (d : AccountData) : Avoids overflow d.unpackAccount := by
  refine .bind (.ensure (by decide)) fun _ _ => ?_
  cases d with
  | account s => exact .bind (.ensure (by decide)) fun _ _ => .bind (.ensure (by decide)) fun _ _ => .pure s
  | mint s => exact .error (by decide)
  | zeroed len tlv => exact .error (by decide)
  | multisig m => exact .error (by decide)
  | proofContext len c => exact .error (by decide)
  | foreign len => exact .error (by decide)

/-- A harvest that has added up what it took so far. -/
theorem harvestToMint_avoids {n : UInt64} (h : holdings M l + n.toNat < 2 ^ 64) (info : AccountInfo) :
    Avoids overflow (harvestToMint M (n, l) info) := by
  refine .bind (.ensure (by decide)) fun _ hborrow => ?_
  have hne := borrowData_eq_ok.mp hborrow
  rw [List.mem_singleton] at hne
  split
  case h_1 amount l' hharvest =>
    obtain ⟨s, hs⟩ := harvestFromAccount_eq_ok hharvest
    have hsum : holdings M l' + amount.toNat = holdings M l := hs.holdings_eq hne
    have hnonneg : 0 ≤ holdings M l' := holdings_nonneg
    have hfits : checkedAdd n amount = some (n + amount) := if_pos (by omega)
    exact .bind (.of_eq_ok (okOr_eq_ok.mpr hfits)) fun _ _ => .pure _
  case h_2 => exact .pure _

theorem harvestLoop_avoids {n : UInt64} (h : holdings M l + n.toNat < 2 ^ 64)
    (infos : List AccountInfo) : Avoids overflow (loop (harvestToMint M) infos (n, l)) := by
  refine .loop_invariant (fun t : UInt64 × Ledger => holdings M t.2 + t.1.toNat < 2 ^ 64) ?_
    (fun t info ht => harvestToMint_avoids ht info) infos (n, l) h
  rintro ⟨n, l⟩ info ⟨n', l'⟩ hinv hpass
  obtain ⟨hne, ⟨rfl, rfl⟩ | ⟨s, amount, hharvested, hn⟩⟩ := harvestToMint_eq_ok hpass
  · exact hinv
  · have hsum := hharvested.holdings_eq hne
    dsimp only at hinv hsum hn ⊢
    omega

/-- A withdrawal that has collected some of the fees: what the destination `D` gained
is missing elsewhere. -/
structure Collecting (M D : Pubkey) (l₀ : Ledger) (d₀ : PodStateWithExtensions PodAccount)
    (t : PodStateWithExtensions PodAccount × Ledger) : Prop where
  destination : t.2 D = l₀ D
  sum : holdings M t.2 + tokens t.1 = holdings M l₀ + tokens d₀

section Withdraw

variable {D : Pubkey} {l₀ : Ledger} {d₀ : PodStateWithExtensions PodAccount}
  {t : PodStateWithExtensions PodAccount × Ledger} {info : AccountInfo}

theorem Collecting.step {t' : PodStateWithExtensions PodAccount × Ledger}
    (h : Collecting M D l₀ d₀ t) (hpass : withdrawFromAccount M D t info = .ok t') :
    Collecting M D l₀ d₀ t' := by
  obtain ⟨d, l⟩ := t
  obtain ⟨d', l'⟩ := t'
  have hsum := h.sum
  rcases withdrawFromAccount_eq_ok hpass with ⟨rfl, hself⟩ | ⟨rfl, rfl⟩ |
    ⟨s, amount, newAmount, hmint, hne, hharvested, rfl, hnew⟩
  · obtain ⟨-, hwithheld, hamount⟩ := selfHarvest_eq_ok hself
    have hsame : tokens d' = tokens d := by
      rw [tokens, tokens, hwithheld, hamount]
      simp
    exact ⟨h.destination, by dsimp only at hsum ⊢; rw [hsame, hsum]⟩
  · exact h
  · have hholdings := hharvested.holdings_eq hmint
    refine ⟨(hharvested.of_ne (Ne.symm hne)).trans h.destination, ?_⟩
    have htokens : tokens { d with base := { d.base with amount := newAmount } } =
        tokens d + amount.toNat := by
      simp only [tokens, hnew, withheldAmount]
      omega
    dsimp only at hsum ⊢
    rw [htokens]
    omega

/-- What the destination has and what it can still collect was there at the start. -/
theorem withdrawFromAccount_avoids (hd : AccountAt l₀ D d₀) (hmint : d₀.base.mint = M)
    (hlt : holdings M l₀ < 2 ^ 64) (h : Collecting M D l₀ d₀ t) (info : AccountInfo) :
    Avoids overflow (withdrawFromAccount M D t info) := by
  obtain ⟨d, l⟩ := t
  have hsum : holdings M l + tokens d = holdings M l₀ + tokens d₀ := h.sum
  have hold : tokensOf M (l D) = tokens d₀ := by
    rw [show l D = l₀ D from h.destination]
    exact tokensOf_account hd hmint
  refine .ite (fun _ => ?_) fun hne => ?_
  · refine .bind ?_ fun _ _ => .pure _
    refine .bind (.mapErr fun _ => by decide) fun v hv => ?_
    have hget := PodStateWithExtensions.getExtension_eq_ok.mp (mapErr_eq_ok.mp hv)
    have hle := tokensOf_le (M := M) (l := l) D
    have htokens : tokens d = d.base.amount.toNat + v.withheldAmount.toNat := by
      rw [tokens, withheldAmount, hget]
      rfl
    have hfits : checkedAdd d.base.amount v.withheldAmount =
        some (d.base.amount + v.withheldAmount) := if_pos (by omega)
    exact .bind (.of_eq_ok (okOr_eq_ok.mpr hfits)) fun _ _ => .pure _
  · refine .bind (.ensure (by decide)) fun _ _ => ?_
    split
    case h_1 amount l' hharvest =>
      obtain ⟨s, hs⟩ := harvestFromAccount_eq_ok hharvest
      have hle := tokensOf_pair_le (M := M) (l := l) hne
      have hsource : tokensOf M (l info.key) = s.base.amount.toNat + amount.toNat := by
        rw [tokensOf_account ⟨hs.owner, hs.data⟩ hs.mint, tokens, withheldAmount, hs.withheld]
        rfl
      have hamount : (d.base.amount.toNat : ℤ) ≤ tokens d := by
        unfold tokens
        omega
      have hfits : checkedAdd d.base.amount amount = some (d.base.amount + amount) :=
        if_pos (by omega)
      exact .bind (.of_eq_ok (okOr_eq_ok.mpr hfits)) fun _ _ => .pure _
    case h_2 => exact .pure _

theorem withdrawLoop_avoids (hd : AccountAt l₀ D d₀) (hmint : d₀.base.mint = M)
    (hlt : holdings M l₀ < 2 ^ 64) (infos : List AccountInfo) :
    Avoids overflow (loop (withdrawFromAccount M D) infos (d₀, l₀)) :=
  .loop_invariant (Collecting M D l₀ d₀) (fun _ _ _ h hpass => h.step hpass)
    (fun _ info h => withdrawFromAccount_avoids hd hmint hlt h info) infos (d₀, l₀) ⟨rfl, rfl⟩

end Withdraw

end Holdings

/-! ### Balanced ledgers -/

/-- A ledger of a public run: every mint but the native one is balanced. -/
structure Balanced (l : Ledger) : Prop where
  wellFormed : WellFormedLedger l
  native : MintPresent nativeMint l
  balanced : ∀ M, M ≠ nativeMint → imbalance (.blind ℤ) default M l = 0

theorem PublicRun.balanced {x : Externals} {l₀ l : Ledger} {events : List Event}
    (hgen : Genesis l₀) (hrun : PublicRun x l₀ events l) : Balanced l where
  wellFormed := Reachable.wellFormed ⟨l₀, events, hgen, hrun.ledgerRun⟩
  native := Reachable.nativeMintPresent ⟨l₀, events, hgen, hrun.ledgerRun⟩
  balanced _ hM := (PublicRun.imbalance_eq_zero hM hgen hrun).2

/-- The destination of a withdrawal is an account of this program. -/
def PaysOwnAccount (l : Ledger) (accounts : List AccountInfo) : Prop :=
  ∀ info, accounts[1]? = some info → (l info.key).owner = programId

namespace Balanced

variable {l : Ledger} {M : Pubkey} {env : Env} {amount : UInt64} {decimals : Option UInt8}
  {fee : Option UInt64} {accounts : List AccountInfo}

/-- What has the data of a mint with fees has accounts that, with the fees it
withholds itself, hold what fits into a word. -/
theorem holdings_add_withheld_lt (h : Balanced l) {m : PodStateWithExtensions PodMint}
    {v : TransferFeeConfig} (hm : (l M).data.unpackMint = .ok m)
    (hv : m.tlv.get .transferFeeConfig = some v) :
    holdings M l + v.withheldAmount.toNat < 2 ^ 64 := by
  have hword := v.withheldAmount.toNat_lt
  by_cases howner : (l M).owner = programId
  · have hM : M ≠ nativeMint := h.wellFormed.coherent.fixed.ne_of_get hm hv howner
    have hmint : MintAt l M m := ⟨howner, (unpackMint_eq_ok.mp hm).1⟩
    have hbalanced := h.balanced M hM
    rw [imbalance_eq_holdings, issuedOf_of_mint hmint, mintWithheldAmount, hv] at hbalanced
    have hsupply := m.base.supply.toNat_lt
    simp only [Option.map_some, Option.getD_some] at hbalanced
    omega
  · -- there is no mint, so its accounts hold nothing
    have hnone : ¬ ∃ m, MintAt l M m := by
      rintro ⟨m, hm⟩
      exact howner hm.owner
    have hzero : holdings M l = 0 := by
      by_cases hM : M = nativeMint
      · exact KeyedSum.total_eq_zero fun k => tokensOf_eq_zero fun s hs hmint =>
          hnone (hM ▸ h.native k s hs (hmint.trans hM))
      · have hbalanced := h.balanced M hM
        rw [imbalance_eq_holdings, issuedOf_of_not_mint hnone, sub_zero] at hbalanced
        exact hbalanced
    omega

/-- The fee of a due transfer is part of its amount, and the native mint asks for none. -/
theorem fee_le (h : Balanced l) {p : DueTransfer} {s : PodStateWithExtensions PodAccount}
    (hp : p.Checked env amount l s) :
    p.terms.fee ≤ amount ∧ (s.base.mint = nativeMint → p.terms.fee = 0) := by
  rcases hp.fee with hzero | ⟨m, hm, hfee⟩
  · exact ⟨hzero ▸ UInt64.zero_le, fun _ => hzero⟩
  by_cases howner : (l s.base.mint).owner = programId
  · have hwell := (h.wellFormed s.base.mint).of_mint howner (unpackMint_eq_ok.mp hm).1
    refine ⟨?_, fun hnative => ?_⟩
    · obtain ⟨f, hf, hle⟩ := mintFee_le hwell env amount
      obtain rfl := Except.ok.inj (hfee.symm.trans hf)
      exact hle
    · rw [mintFee, (hwell.native hnative).2.2] at hfee
      exact (Except.ok.inj hfee).symm
  · -- the accounts of a closed mint have nothing to transfer
    have hnone : ¬ ∃ m, MintAt l s.base.mint m := by
      rintro ⟨m, hm⟩
      exact howner hm.owner
    have hM : s.base.mint ≠ nativeMint := fun hM => by
      obtain ⟨m, hm⟩ := h.native _ s hp.source hM
      exact howner (hM ▸ hm.owner)
    have hclosed := (supplyAccounted_of_imbalance (h.balanced _ hM)).closed hnone _ s hp.source rfl
    have hzero : amount = 0 := UInt64.le_antisymm (hclosed.1 ▸ hp.enough) UInt64.zero_le
    have hnofee : p.terms.fee = 0 := by
      rw [hzero, mintFee] at hfee
      split at hfee
      case h_1 config _ =>
        rw [TransferFeeConfig.calculateEpochFee, TransferFee.calculateFee_zero] at hfee
        exact (Except.ok.inj hfee).symm
      case h_2 => exact (Except.ok.inj hfee).symm
    exact ⟨hnofee ▸ UInt64.zero_le, fun _ => hnofee⟩

/-- The accounts of a due transfer hold at most what fits into a word; those of the
native mint, if the lamports behind them do. -/
theorem pair_lt (h : Balanced l) {p : DueTransfer} {s : PodStateWithExtensions PodAccount}
    (hp : p.Checked env amount l s)
    (hM : p.destination.base.mint ≠ nativeMint ∨ l.totalLamports < 2 ^ 64) :
    p.destination.base.amount.toNat + amount.toNat < 2 ^ 64 ∧
      (withheldAmount p.destination).toNat + p.terms.fee.toNat < 2 ^ 64 := by
  have henough := UInt64.le_iff_toNat_le.mp hp.enough
  obtain ⟨hfee, hnofee⟩ := h.fee_le hp
  have hfee := UInt64.le_iff_toNat_le.mp hfee
  by_cases hnative : s.base.mint = nativeMint
  · have hlamports : l.totalLamports < 2 ^ 64 :=
      hM.resolve_left fun hne => hne (hp.mint ▸ hnative)
    have hpair := (KeyedSum.sum_le_total (c := fun (_ : Pubkey) (r : AccountRecord) =>
      (r.lamports.toNat : ℤ)) (s := l) (fun _ => by omega)
        {p.sourceInfo.key, p.destinationInfo.key}).trans_lt hlamports
    rw [Finset.sum_pair hp.ne] at hpair
    obtain ⟨reserve, hreserve⟩ := Option.isSome_iff_exists.mp
      ((hp.source.wellFormed h.wellFormed).native.mpr hnative)
    obtain ⟨reserve', hreserve'⟩ := Option.isSome_iff_exists.mp
      ((hp.destination.wellFormed h.wellFormed).native.mpr (hp.mint ▸ hnative))
    have hsource := (hp.source.wellFormed h.wellFormed).backed reserve hreserve
    have hdestination := (hp.destination.wellFormed h.wellFormed).backed reserve' hreserve'
    rw [hnofee hnative, UInt64.toNat_zero]
    have hword := (withheldAmount p.destination).toNat_lt
    exact ⟨by omega, hword⟩
  · have hpair := (tokensOf_pair_le (M := s.base.mint) (l := l) hp.ne).trans_lt
      (holdings_lt (h.balanced _ hnative))
    rw [tokensOf_account hp.source rfl, tokensOf_account hp.destination hp.mint.symm, tokens,
      tokens] at hpair
    omega

theorem dueTransfer_avoids (h : Balanced l) {p : DueTransfer}
    (hdue : dueTransfer env amount decimals fee accounts l = .ok (some p))
    (hM : p.destination.base.mint ≠ nativeMint ∨ l.totalLamports < 2 ^ 64) :
    Avoids overflow (creditDestination p.destination amount p.terms.fee) := by
  obtain ⟨s, hp⟩ := dueTransfer_eq_ok hdue
  obtain ⟨hamount, hwithheld⟩ := h.pair_lt hp hM
  exact creditDestination_avoids (h.fee_le hp).1 hamount hwithheld

theorem processHarvestWithheldTokensToMint_avoids (h : Balanced l) (accounts : List AccountInfo) :
    Avoids overflow (processHarvestWithheldTokensToMint accounts l) := by
  refine .bind (nextAccountInfo_avoids _) fun a _ => ?_
  obtain ⟨mintInfo, infos⟩ := a
  refine .bind (unpackMint_avoids _) fun m hm => .bind (getExtension_avoids _ _) fun v hv => ?_
  have hfits := h.holdings_add_withheld_lt hm (PodStateWithExtensions.getExtension_eq_ok.mp hv)
  exact .bind (harvestLoop_avoids hfits infos) fun _ _ => writeData_avoids _ _ _

theorem processWithdrawWithheldTokensFromMint_avoids (h : Balanced l)
    (howned : PaysOwnAccount l accounts) :
    Avoids overflow (processWithdrawWithheldTokensFromMint accounts l) := by
  refine .bind (nextAccountInfo_avoids _) fun a ha => ?_
  obtain ⟨mintInfo, rest⟩ := a
  refine .bind (nextAccountInfo_avoids _) fun a ha' => ?_
  obtain ⟨destinationInfo, rest'⟩ := a
  refine .bind (nextAccountInfo_avoids _) fun a _ => ?_
  have hdestination : (l destinationInfo.key).owner = programId := howned destinationInfo (by
    rw [nextAccountInfo_eq_ok.mp ha, nextAccountInfo_eq_ok.mp ha']
    rfl)
  refine .bind (.ensure (by decide)) fun _ _ => .bind (unpackMint_avoids _) fun m hm =>
    .bind (getExtension_avoids _ _) fun v hv => .bind (.okOr (by decide)) fun _ _ =>
    .bind (validateOwner_avoids _ _ _ _) fun _ _ => .bind (.ensure (by decide)) fun _ _ =>
    .bind (unpackAccount_avoids _) fun d hd => .bind (.ensure (by decide)) fun _ hmint =>
    .bind (.ensure (by decide)) fun _ _ => ?_
  have hfits := h.holdings_add_withheld_lt hm (PodStateWithExtensions.getExtension_eq_ok.mp hv)
  have hle := tokensOf_le (M := mintInfo.key) (l := l) destinationInfo.key
  rw [tokensOf_account ⟨hdestination, (unpackAccount_eq_ok.mp hd).1⟩ (ensure_eq_ok.mp hmint),
    tokens] at hle
  have hadd : checkedAdd d.base.amount v.withheldAmount =
      some (d.base.amount + v.withheldAmount) := if_pos (by omega)
  exact .bind (.of_eq_ok (okOr_eq_ok.mpr hadd)) fun _ _ => .bind (writeData_avoids _ _ _) fun _ _ =>
    writeData_avoids _ _ _

theorem processWithdrawWithheldTokensFromAccounts_avoids (h : Balanced l)
    (howned : PaysOwnAccount l accounts) (numTokenAccounts : UInt8) :
    Avoids overflow (processWithdrawWithheldTokensFromAccounts numTokenAccounts accounts l) := by
  refine .bind (nextAccountInfo_avoids _) fun a ha => ?_
  obtain ⟨mintInfo, rest⟩ := a
  refine .bind (nextAccountInfo_avoids _) fun a ha' => ?_
  obtain ⟨destinationInfo, rest'⟩ := a
  refine .bind (nextAccountInfo_avoids _) fun a _ => ?_
  have hdestination : (l destinationInfo.key).owner = programId := howned destinationInfo (by
    rw [nextAccountInfo_eq_ok.mp ha, nextAccountInfo_eq_ok.mp ha']
    rfl)
  refine .bind (.ensure (by decide)) fun _ _ => .bind (unpackMint_avoids _) fun m hm =>
    .bind (getExtension_avoids _ _) fun v hv => .bind (.okOr (by decide)) fun _ _ =>
    .bind (validateOwner_avoids _ _ _ _) fun _ _ => .bind (.ensure (by decide)) fun _ _ =>
    .bind (unpackAccount_avoids _) fun d hd => .bind (.ensure (by decide)) fun _ hmint =>
    .bind (.ensure (by decide)) fun _ _ => ?_
  have hfits := h.holdings_add_withheld_lt hm (PodStateWithExtensions.getExtension_eq_ok.mp hv)
  have hlt : holdings mintInfo.key l < 2 ^ 64 := by omega
  exact .bind (withdrawLoop_avoids ⟨hdestination, (unpackAccount_eq_ok.mp hd).1⟩
    (ensure_eq_ok.mp hmint) hlt _) fun _ _ => writeData_avoids _ _ _

end Balanced

/-- Supply conservation. In every state of a public run each mint but the native one has
issued exactly what its accounts hold and withhold and what it withholds itself, and a
closed mint leaves nothing behind. So no credit of a transfer, a harvest or a withdrawal
overflows: a transfer of wrapped lamports if all lamports fit into a word, a withdrawal
if its destination is an account of this program. -/
theorem supply_conserved {x : Externals} {l₀ l : Ledger} {events : List Event}
    (hgen : Genesis l₀) (hrun : PublicRun x l₀ events l) :
    (∀ M, M ≠ nativeMint → SupplyAccounted M l) ∧
    (∀ env amount decimals fee accounts p,
      dueTransfer env amount decimals fee accounts l = .ok (some p) →
      p.destination.base.mint ≠ nativeMint ∨ l.totalLamports < 2 ^ 64 →
      Avoids overflow (creditDestination p.destination amount p.terms.fee)) ∧
    (∀ accounts, Avoids overflow (processHarvestWithheldTokensToMint accounts l)) ∧
    ∀ accounts, PaysOwnAccount l accounts →
      Avoids overflow (processWithdrawWithheldTokensFromMint accounts l) ∧
      ∀ numTokenAccounts,
        Avoids overflow (processWithdrawWithheldTokensFromAccounts numTokenAccounts accounts l) := by
  have hbalanced := hrun.balanced hgen
  refine ⟨fun M hM => hrun.supplyAccounted hM hgen,
    fun env amount decimals fee accounts p hdue hM => hbalanced.dueTransfer_avoids hdue hM,
    hbalanced.processHarvestWithheldTokensToMint_avoids, fun accounts howned =>
    ⟨hbalanced.processWithdrawWithheldTokensFromMint_avoids howned, fun numTokenAccounts =>
      hbalanced.processWithdrawWithheldTokensFromAccounts_avoids howned numTokenAccounts⟩⟩

/-! ### A destination of another program -/

theorem supplyLedger_run :
    Genesis blankSupplyLedger ∧
      PublicRun .refusing blankSupplyLedger (supplyCalls.map Event.ofCall) supplyLedger := by
  refine ⟨blankSupplyLedger_genesis, runWhere_replay ?_ _⟩
  intro c hc l
  simp only [supplyCalls, List.mem_cons, List.not_mem_nil, or_false] at hc
  rcases hc with rfl | rfl | rfl | rfl | rfl | rfl <;> rfl

/-- The three tokens withheld at 3 do not fit into the account at 4. -/
theorem supply_conserved_fails :
    ¬ ∀ (x : Externals) (l₀ l : Ledger) (events : List Event), Genesis l₀ →
      PublicRun x l₀ events l → ∀ numTokenAccounts accounts,
        Avoids overflow (processWithdrawWithheldTokensFromAccounts numTokenAccounts accounts l) := by
  intro hall
  have hwithdraw : (processWithdrawWithheldTokensFromAccounts 1
      [⟨⟨1⟩, false⟩, ⟨⟨4⟩, false⟩, ⟨⟨9⟩, true⟩, ⟨⟨3⟩, false⟩] supplyLedger).map (fun _ => ()) =
        .error overflow := by decide +kernel
  obtain ⟨hgen, hrun⟩ := supplyLedger_run
  refine hall .refusing blankSupplyLedger supplyLedger _ hgen hrun 1
    [⟨⟨1⟩, false⟩, ⟨⟨4⟩, false⟩, ⟨⟨9⟩, true⟩, ⟨⟨3⟩, false⟩] ?_
  generalize processWithdrawWithheldTokensFromAccounts _ _ _ = result at hwithdraw
  cases result with
  | error e => exact congrArg Except.error (Except.error.inj hwithdraw)
  | ok l => cases hwithdraw

/-- Paid to an account of the mint, they are all there. -/
theorem supply_conserved_collected :
    SupplyAccounted ⟨1⟩ supplyLedger ∧
      Avoids overflow (processWithdrawWithheldTokensFromAccounts 1
        [⟨⟨1⟩, false⟩, ⟨⟨2⟩, false⟩, ⟨⟨9⟩, true⟩, ⟨⟨3⟩, false⟩] supplyLedger) := by
  obtain ⟨hgen, hrun⟩ := supplyLedger_run
  obtain ⟨hsupply, -, -, hwithdraw⟩ := supply_conserved hgen hrun
  have howned : PaysOwnAccount supplyLedger [⟨⟨1⟩, false⟩, ⟨⟨2⟩, false⟩, ⟨⟨9⟩, true⟩, ⟨⟨3⟩, false⟩] := by
    intro info hinfo
    obtain rfl : (⟨⟨2⟩, false⟩ : AccountInfo) = info := Option.some.inj hinfo
    decide +kernel
  exact ⟨hsupply ⟨1⟩ (by decide), (hwithdraw _ howned).2 1⟩

end BarkToken
