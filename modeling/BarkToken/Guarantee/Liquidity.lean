import BarkToken.Guarantee.SupplyConservation
import BarkToken.Invariant.Markers

/-!
# No tokens are stuck (processor.rs:285-533, 908-1196)

In every state of a public run, what an account holds can be sent and burned, and the
emptied account closed. No count stands in the way: what an owner needs is a signature,
an account that is not frozen, and a receiver that takes the tokens.
-/

namespace BarkToken
open Fallible CheckedWord AccountData

/-- The owner of the account acts: the signatures are there, the CPI guard does not
object, and the owner is not listed as the delegate of the account. -/
structure OwnerActs (env : Env) (l : Ledger) (s : PodStateWithExtensions PodAccount)
    (ownerInfo : AccountInfo) (signers : List AccountInfo) : Prop where
  signed : validateOwner l s.base.owner ownerInfo signers = .ok ()
  guard : ¬ (lockCpi s = true ∧ env.inCpi)
  delegate : s.base.delegate ≠ some s.base.owner

/-- A mint of this program that it can read. -/
structure MintReadable (l : Ledger) (M : Pubkey) (m : PodStateWithExtensions PodMint) : Prop where
  owner : (l M).owner = programId
  read : (l M).data.unpackMint = .ok m

section

variable {env : Env} {l l' : Ledger} {k M destination : Pubkey}
  {s d : PodStateWithExtensions PodAccount} {m : PodStateWithExtensions PodMint} {ownerInfo : AccountInfo} {signers : List AccountInfo}
  {amount : UInt64} {decimals : Option UInt8}

theorem checkedSub_eq_sub {a b : UInt64} (h : b ≤ a) : checkedSub a b = some (a - b) :=
  if_pos (UInt64.le_iff_toNat_le.mp h)

theorem MintReadable.mintAt (h : MintReadable l M m) : MintAt l M m :=
  ⟨h.owner, (unpackMint_eq_ok.mp h.read).1⟩

theorem AccountAt.unpackAccount (hs : AccountAt l k s) (hl : WellFormedLedger l) :
    (l k).data.unpackAccount = .ok s := by
  rw [hs.data]
  exact (hs.wellFormed hl).unpackAccount

theorem WellFormedAccount.ne_nativeMint {lamports : UInt64} (h : WellFormedAccount lamports s)
    (hnative : s.base.isNative = none) : s.base.mint ≠ nativeMint := by
  intro hmint
  have hsome := h.native.mpr hmint
  rw [hnative] at hsome
  cases hsome

/-- An account is no mint. -/
theorem AccountAt.ne_mint (hs : AccountAt l k s) (hm : MintAt l M m) : k ≠ M := by
  rintro rfl
  have hdata := hs.data.symm.trans hm.data
  cases hdata

/-- The owner may debit the account, and uses no allowance up. -/
theorem OwnerActs.authorizeDebit (h : OwnerActs env l s ownerInfo signers) (blocked : TokenError)
    (permanentDelegate : Option Pubkey) (amount : UInt64) (selfTransfer : Bool) :
    authorizeDebit env blocked l s permanentDelegate ownerInfo signers amount selfTransfer =
      .ok s.base := by
  have hkey := validateOwner_key h.signed
  unfold BarkToken.authorizeDebit
  rw [← hkey, h.signed, if_neg h.delegate]
  split
  case isTrue => rfl
  case isFalse =>
    rw [checkCpiGuard, ensure, if_pos h.guard]
    rfl

/-! ### Burning -/

/-- The ledger after the burn of `amount` from the account at `k`. -/
def burned (l : Ledger) (k : Pubkey) (s : PodStateWithExtensions PodAccount)
    (m : PodStateWithExtensions PodMint) (amount : UInt64) : Ledger :=
  let debited := l.setData k
    (.account { s with base := { s.base with amount := s.base.amount - amount } })
  debited.setData s.base.mint
    (.mint { m with base := { m.base with supply := m.base.supply - amount } })

/-- An account holds no more than its mint has issued. -/
theorem Balanced.amount_le_supply (h : Balanced l) (hs : AccountAt l k s)
    (hm : MintAt l s.base.mint m) (hnative : s.base.mint ≠ nativeMint) :
    s.base.amount ≤ m.base.supply := by
  have hbalanced := h.balanced _ hnative
  have hle := tokensOf_le (M := s.base.mint) (l := l) k
  rw [imbalance_eq_holdings, issuedOf_of_mint hm] at hbalanced
  rw [tokensOf_account hs rfl, tokens] at hle
  exact UInt64.le_iff_toNat_le.mpr (by omega)

theorem OwnerActs.processBurn (h : OwnerActs env l s ownerInfo signers) (hl : Balanced l)
    (hs : AccountAt l k s) (hm : MintReadable l s.base.mint m) (hfrozen : ¬ s.base.frozen)
    (hnative : s.base.isNative = none) (hamount : amount ≤ s.base.amount)
    (hdecimals : ∀ d ∈ decimals, d = m.base.decimals) {sourceInfo mintInfo : AccountInfo}
    (hsource : sourceInfo.key = k)
    (hmint : mintInfo.key = s.base.mint) :
    processBurn env amount decimals (sourceInfo :: mintInfo :: ownerInfo :: signers) l =
      .ok (burned l k s m amount) := by
  have hforeign := (hs.wellFormed hl.wellFormed).ne_nativeMint hnative
  have hsupply := UInt64.le_trans hamount (hl.amount_le_supply hs hm.mintAt hforeign)
  have hne := hs.ne_mint hm.mintAt
  have hburn : authorizeBurn env l s (getPermanentDelegate m) ownerInfo signers amount =
      .ok s.base := by
    unfold authorizeBurn
    split
    case isTrue => rfl
    case isFalse => exact h.authorizeDebit _ _ _ _
  have hborrow : mintInfo.key ∉ [sourceInfo.key] := by
    rw [hsource, hmint, List.mem_singleton]
    exact Ne.symm hne
  subst hsource
  simp only [BarkToken.processBurn, checkDecimals, bind_eq_ok, Prod.exists, exists_unit,
    nextAccountInfo_eq_ok, borrowData_eq_ok, checkProgramAccount_eq_ok, ensure_eq_ok, okOr_eq_ok, Ledger.writeData_eq_ok]
  refine ⟨_, _, rfl, _, _, rfl, _, _, rfl, s, hs.unpackAccount hl.wellFormed, hborrow, m,
    hmint ▸ hm.read, hfrozen, hnative, hamount, hmint, hdecimals, s.base, hburn,
    hs.owner, hmint ▸ hm.owner, _, checkedSub_eq_sub hamount, _, checkedSub_eq_sub hsupply, _,
    ⟨Or.inl hs.owner, rfl⟩, Or.inl ?_, ?_⟩
  · rw [Ledger.setData_owner, hmint, hm.owner]
  · rw [hmint]
    rfl

/-! ### Minting -/

/-- What `MintTo` asks of the account, the mint and the signers. -/
structure CanMint (l : Ledger) (s : PodStateWithExtensions PodAccount)
    (m : PodStateWithExtensions PodMint) (ownerInfo : AccountInfo) (signers : List AccountInfo)
    (amount : UInt64) : Prop where
  signed : ∃ authority, m.base.mintAuthority = some authority ∧
    validateOwner l authority ownerInfo signers = .ok ()
  thawed : ¬ s.base.frozen
  kept : m.hasExtension .nonTransferable → s.hasExtension .immutableOwner
  fits : m.base.supply.toNat + amount.toNat < 2 ^ 64

theorem canMint_of_processMintTo {mintInfo destinationInfo : AccountInfo} (hl : WellFormedLedger l)
    (hs : AccountAt l destinationInfo.key s) (hm : MintReadable l mintInfo.key m)
    (h : processMintTo amount decimals (mintInfo :: destinationInfo :: ownerInfo :: signers) l =
      .ok l') : CanMint l s m ownerInfo signers amount := by
  simp only [processMintTo, bind_eq_ok, Prod.exists, exists_unit, nextAccountInfo_eq_ok,
    ensure_eq_ok, okOr_eq_ok] at h
  obtain ⟨_, r, heq, _, r', rfl, _, r'', rfl, d, hd, hfrozen, -, -, -, m', hm', hkept, -, authority,
    hauthority, hsigned, -, -, -, -, supply, hsupply, -⟩ := h
  simp only [List.cons.injEq] at heq
  obtain ⟨rfl, rfl, rfl, rfl⟩ := heq
  obtain rfl := Except.ok.inj ((hs.unpackAccount hl).symm.trans hd)
  obtain rfl := Except.ok.inj (hm.read.symm.trans hm')
  have hsum := checkedAdd_eq_some.mp hsupply
  have hword := supply.toNat_lt
  exact ⟨⟨authority, hauthority, hsigned⟩, hfrozen,
    fun hbound => not_not.mp fun hnot => hkept ⟨hbound, hnot⟩, by omega⟩

/-- The account's own amount does not overflow, being a part of the supply. -/
theorem CanMint.processMintTo (h : CanMint l s m ownerInfo signers amount) (hl : Balanced l)
    (hs : AccountAt l k s) (hm : MintReadable l s.base.mint m) :
    ∃ l', processMintTo amount none (⟨s.base.mint, false⟩ :: ⟨k, false⟩ :: ownerInfo :: signers) l =
      .ok l' := by
  obtain ⟨⟨authority, hauthority, hsigned⟩, hfrozen, hkept, hfits⟩ := h
  have hwellMint := (hl.wellFormed s.base.mint).of_mint hm.owner hm.mintAt.data
  have hforeign : s.base.mint ≠ nativeMint := fun hnative => by
    rw [(hwellMint.native hnative).1] at hauthority
    cases hauthority
  have hwell := hs.wellFormed hl.wellFormed
  have hnative : s.base.isNative = none :=
    Option.not_isSome_iff_eq_none.mp fun hsome => hforeign (hwell.native.mp hsome)
  have hle := UInt64.le_iff_toNat_le.mp (hl.amount_le_supply hs hm.mintAt hforeign)
  have hadd : checkedAdd s.base.amount amount = some (s.base.amount + amount) := if_pos (by omega)
  have hsupply : checkedAdd m.base.supply amount = some (m.base.supply + amount) := if_pos hfits
  have hborrow : s.base.mint ∉ [k] := by
    rw [List.mem_singleton]
    exact Ne.symm (hs.ne_mint hm.mintAt)
  let l₁ := l.setData k
    (.account { s with base := { s.base with amount := s.base.amount + amount } })
  have hmintOwner : (l₁ s.base.mint).owner = programId := by
    rw [Ledger.setData_owner, hm.owner]
  refine ⟨l₁.setData s.base.mint
    (.mint { m with base := { m.base with supply := m.base.supply + amount } }), ?_⟩
  simp only [BarkToken.processMintTo, checkDecimals, bind_eq_ok, Prod.exists, exists_unit,
    nextAccountInfo_eq_ok, borrowData_eq_ok, checkProgramAccount_eq_ok, ensure_eq_ok, okOr_eq_ok,
    Ledger.writeData_eq_ok]
  exact ⟨_, _, rfl, _, _, rfl, _, _, rfl, s, hs.unpackAccount hl.wellFormed, hfrozen, hnative,
    rfl, hborrow, m, hm.read, fun h => h.2 (hkept h.1), by simp, authority, hauthority, hsigned,
    hm.owner, hs.owner, _, hadd, _, hsupply, l₁, ⟨Or.inl hs.owner, rfl⟩, Or.inl hmintOwner, rfl⟩

/-! ### Closing -/

/-- Who closes the account has signed, and nothing is left in its extensions. -/
structure CanClose (env : Env) (l : Ledger) (s : PodStateWithExtensions PodAccount)
    (destination : Pubkey) (authorityInfo : AccountInfo) (signers : List AccountInfo) : Prop where
  signed : validateOwner l (s.base.closeAuthority.getD s.base.owner) authorityInfo signers = .ok ()
  guard : ¬ (lockCpi s = true ∧ env.inCpi ∧ destination ≠ s.base.owner)
  owned : ¬ s.base.ownedBySystemProgramOrIncinerator
  extensions : checkClosable s = .ok ()

/-- The ledger after the account at `k` is closed. -/
def closed (l : Ledger) (k destination : Pubkey) : Ledger :=
  let credited := l.setLamports destination ((l destination).lamports + (l k).lamports)
  let paid := credited.setLamports k 0
  Function.update paid k { paid k with owner := systemProgram, data := .zeroed 0 [] }

theorem CanClose.processCloseAccount {authorityInfo : AccountInfo}
    (h : CanClose env l s destination authorityInfo signers) (hl : WellFormedLedger l)
    (hs : AccountAt l k s) (hempty : s.base.isNative = none → s.base.amount = 0)
    (hne : k ≠ destination)
    (hfits : (l destination).lamports.toNat + (l k).lamports.toNat < 2 ^ 64)
    {sourceInfo destinationInfo : AccountInfo} (hsource : sourceInfo.key = k)
    (hdestination : destinationInfo.key = destination) :
    processCloseAccount env (sourceInfo :: destinationInfo :: authorityInfo :: signers) l =
      .ok (closed l k destination) := by
  subst hsource
  subst hdestination
  have hcheck : checkClose env l (l sourceInfo.key).data destinationInfo.key authorityInfo signers =
      .ok () := by
    unfold checkClose
    rw [hs.unpackAccount hl]
    dsimp only
    simp only [bind_eq_ok, exists_unit, ensure_eq_ok, authorizeClose, if_pos h.owned]
    exact ⟨fun hleft => hleft.2 (hempty hleft.1), ⟨h.guard, h.signed⟩, h.extensions⟩
  have hsum : checkedAdd (l destinationInfo.key).lamports (l sourceInfo.key).lamports =
      some ((l destinationInfo.key).lamports + (l sourceInfo.key).lamports) := if_pos hfits
  simp only [BarkToken.processCloseAccount, bind_eq_ok, Prod.exists, exists_unit,
    nextAccountInfo_eq_ok, ensure_eq_ok, okOr_eq_ok, Ledger.writeLamports_eq_ok,
    Ledger.deleteAccount_eq_ok]
  refine ⟨_, _, rfl, _, _, rfl, _, _, rfl, hne, hcheck, _, hsum, _, ⟨Or.inr ?_, rfl⟩, _,
    ⟨Or.inl ?_, rfl⟩, ?_, rfl⟩
  · have := checkedAdd_eq_some.mp hsum
    exact UInt64.le_iff_toNat_le.mpr (by omega)
  · rw [Ledger.setLamports_owner, hs.owner]
  · rw [Ledger.setLamports_owner, Ledger.setLamports_owner, hs.owner]

/-- The account takes a public transfer of the mint: it is not frozen, finds the memo that
it may ask for, allows credits that are not confidential, and can withhold a fee. -/
structure TakesTransfers (env : Env) (m : PodStateWithExtensions PodMint)
    (d : PodStateWithExtensions PodAccount) : Prop where
  thawed : ¬ d.base.frozen
  memo : checkMemo env d = .ok ()
  credits : checkNonConfidentialTransferAllowed d = .ok ()
  fees : m.hasExtension .transferFeeConfig → d.hasExtension .transferFeeAmount

/-- The checks of a transfer between two accounts of the mint, by the owner. -/
theorem OwnerActs.dueTransfer (h : OwnerActs env l s ownerInfo signers) (hl : WellFormedLedger l)
    (sourceInfo mintInfo destinationInfo : AccountInfo) {fee : UInt64}
    (hs : AccountAt l sourceInfo.key s) (hd : AccountAt l destinationInfo.key d)
    (hmint : s.base.mint = d.base.mint) (hne : sourceInfo.key ≠ destinationInfo.key)
    (hm : MintReadable l s.base.mint m) (hkey : s.base.mint = mintInfo.key)
    (hfee : mintFee env m amount = .ok fee) (hfrozen : ¬ s.base.frozen)
    (htransferable : ¬ s.hasExtension .nonTransferableAccount) (hamount : amount ≤ s.base.amount)
    (htakes : TakesTransfers env m d) :
    dueTransfer env amount (some m.base.decimals) none
        (sourceInfo :: mintInfo :: destinationInfo :: ownerInfo :: signers) l =
      .ok (some ⟨sourceInfo, some (mintInfo, m.base.decimals), destinationInfo, ownerInfo, signers,
        ⟨fee, getPermanentDelegate m, getTransferHookProgramId m⟩,
        { s with base := { s.base with amount := s.base.amount - amount } }, d⟩) := by
  have hborrow : mintInfo.key ≠ sourceInfo.key := hkey ▸ Ne.symm (hs.ne_mint hm.mintAt)
  have hterms : transferTerms env l sourceInfo.key s (some (mintInfo, m.base.decimals)) amount =
      .ok ⟨fee, getPermanentDelegate m, getTransferHookProgramId m⟩ := by
    simp only [transferTerms, bind_eq_ok, exists_unit, ensure_eq_ok, pure_eq_ok]
    exact ⟨hkey, hborrow, m, hkey ▸ hm.read, rfl, fee, hfee, rfl⟩
  have hself : ¬ decide (sourceInfo.key = destinationInfo.key) = true := by simpa using hne
  simp only [BarkToken.dueTransfer, bind_eq_ok, Prod.exists, exists_unit, nextAccountInfo_eq_ok,
    checkProgramAccount_eq_ok, ensure_eq_ok]
  refine ⟨_, _, rfl, _, _, rfl, _, _, rfl, _, _, rfl, s, hs.unpackAccount hl, hfrozen, hamount,
    htransferable, _, hterms, by simp, s.base, h.authorizeDebit _ _ _ _, hs.owner, hd.owner, ?_⟩
  rw [if_neg hself]
  simp only [bind_eq_ok, exists_unit, ensure_eq_ok, okOr_eq_ok, pure_eq_ok]
  exact ⟨d, hd.unpackAccount hl, htakes.thawed, hmint, htakes.memo, htakes.credits, _,
    checkedSub_eq_sub hamount, rfl⟩

theorem creditDestination_succeeds {fee : UInt64} (hfee : fee ≤ amount)
    (hamount : d.base.amount.toNat + amount.toNat < 2 ^ 64)
    (hwithheld : (withheldAmount d).toNat + fee.toNat < 2 ^ 64)
    (hextension : 0 < fee → d.hasExtension .transferFeeAmount) :
    ∃ d', creditDestination d amount fee = .ok d' := by
  obtain ⟨credited, hcredited⟩ := checkedSub_of_le hfee
  have hsum := checkedSub_eq_some.mp hcredited
  have hadd : checkedAdd d.base.amount credited = some (d.base.amount + credited) :=
    if_pos (by omega)
  unfold creditDestination
  rw [okOr_eq_ok.mpr hcredited, ok_bind, okOr_eq_ok.mpr hadd, ok_bind]
  by_cases hpositive : 0 < fee
  · obtain ⟨v, hv⟩ := Option.isSome_iff_exists.mp (hextension hpositive)
    rw [withheldAmount, hv] at hwithheld
    have hfits : checkedAdd v.withheldAmount fee = some (v.withheldAmount + fee) := if_pos hwithheld
    dsimp only
    rw [if_pos hpositive, hv]
    exact ⟨_, bind_eq_ok.mpr ⟨_, okOr_eq_ok.mpr hfits, rfl⟩⟩
  · rw [if_neg hpositive]
    exact ⟨_, rfl⟩

theorem moveNativeLamports_succeeds {isNative : Option UInt64} {source destination : Pubkey}
    (hne : source ≠ destination) (hsource : (l source).owner = programId)
    (hdebit : isNative.isSome → amount ≤ (l source).lamports)
    (hcredit : isNative.isSome → (l destination).lamports.toNat + amount.toNat < 2 ^ 64) :
    ∃ l', moveNativeLamports l isNative source destination amount = .ok l' := by
  unfold moveNativeLamports
  split
  case isTrue hsome =>
    have hsub := checkedSub_eq_sub (hdebit hsome)
    have hadd : checkedAdd (l destination).lamports amount =
        some ((l destination).lamports + amount) := if_pos (hcredit hsome)
    have hwrite : l.writeLamports source ((l source).lamports - amount) =
        .ok (l.setLamports source ((l source).lamports - amount)) :=
      Ledger.writeLamports_eq_ok.mpr ⟨Or.inl hsource, rfl⟩
    rw [okOr_eq_ok.mpr hsub, ok_bind, hwrite, ok_bind, Ledger.setLamports_of_ne (Ne.symm hne),
      okOr_eq_ok.mpr hadd, ok_bind]
    refine ⟨_, Ledger.writeLamports_eq_ok.mpr ⟨Or.inr ?_, rfl⟩⟩
    have := checkedAdd_eq_some.mp hadd
    rw [Ledger.setLamports_of_ne (Ne.symm hne)]
    exact UInt64.le_iff_toNat_le.mpr (by omega)
  case isFalse => exact ⟨l, rfl⟩

/-- A mint charges a fee only if it has the extension, and its accounts can withhold it. -/
theorem mintFee_pos {fee : UInt64} (h : mintFee env m amount = .ok fee) (hpositive : 0 < fee) :
    m.hasExtension .transferFeeConfig := by
  unfold mintFee at h
  split at h
  case h_1 config hconfig => exact Option.isSome_iff_exists.mpr ⟨config, hconfig⟩
  case h_2 =>
    obtain rfl := Except.ok.inj h
    exact absurd hpositive (UInt64.lt_irrefl 0)

/-- The lamports that a native transfer moves are there, and fit. -/
theorem WellFormedLedger.nativeLamports (hl : WellFormedLedger l) {j : Pubkey}
    (hs : AccountAt l k s) (hne : k ≠ j) (hamount : amount ≤ s.base.amount)
    (hlamports : s.base.mint ≠ nativeMint ∨ l.totalLamports < 2 ^ 64)
    (hsome : s.base.isNative.isSome) :
    amount ≤ (l k).lamports ∧ (l j).lamports.toNat + amount.toNat < 2 ^ 64 := by
  have hwell := hs.wellFormed hl
  obtain ⟨reserve, hreserve⟩ := Option.isSome_iff_exists.mp hsome
  have hbacked := hwell.backed reserve hreserve
  have hamount := UInt64.le_iff_toNat_le.mp hamount
  have htotal : l.totalLamports < 2 ^ 64 :=
    hlamports.resolve_left fun hforeign => hforeign (hwell.native.mp hsome)
  have hpair := (KeyedSum.sum_le_total (c := fun (_ : Pubkey) (r : AccountRecord) =>
    (r.lamports.toNat : ℤ)) (s := l) (fun _ => by omega) {k, j}).trans_lt htotal
  rw [Finset.sum_pair hne] at hpair
  exact ⟨UInt64.le_iff_toNat_le.mpr (by omega), by omega⟩

/-! ### Leaving -/

/-- An account that holds nothing, or is native, is closed. -/
theorem CanClose.execute {x : Externals} {ownerInfo : AccountInfo}
    (h : CanClose env l s destination ownerInfo signers) (hl : WellFormedLedger l)
    (hs : AccountAt l k s) (hempty : s.base.isNative = none → s.base.amount = 0)
    (hne : k ≠ destination)
    (hfits : (l destination).lamports.toNat + (l k).lamports.toNat < 2 ^ 64) :
    execute x env .closeAccount (⟨k, false⟩ :: ⟨destination, false⟩ :: ownerInfo :: signers) l =
      closed l k destination := by
  have hprocess : process x env .closeAccount
      (⟨k, false⟩ :: ⟨destination, false⟩ :: ownerInfo :: signers) l =
      .ok (closed l k destination) := h.processCloseAccount hl hs hempty hne hfits rfl rfl
  unfold BarkToken.execute
  rw [hprocess]

end

/-! ### The ledger of the witnesses -/

theorem supplyLedger_accounts :
    MintReadable supplyLedger ⟨1⟩ supplyMint ∧
      AccountAt supplyLedger ⟨2⟩ (supplyAccount ⟨7⟩ 600 0) ∧
      AccountAt supplyLedger ⟨3⟩ (supplyAccount ⟨8⟩ 297 3) :=
  ⟨⟨by decide +kernel, by decide +kernel⟩, ⟨by decide +kernel, by decide +kernel⟩,
    ⟨by decide +kernel, by decide +kernel⟩⟩

theorem supplyLedger_owner :
    OwnerActs (.plain 0) supplyLedger (supplyAccount ⟨7⟩ 600 0) ⟨⟨7⟩, true⟩ [] :=
  ⟨by decide +kernel, by decide +kernel, by decide +kernel⟩

/-- A new token fits into an account wherever it fits into the supply: minting fails for
no count but the supply's own. -/
theorem issuer_can_mint {x : Externals} {l₀ l : Ledger} {events : List Event} (hgen : Genesis l₀)
    (hrun : PublicRun x l₀ events l) {env : Env} {k : Pubkey}
    {s : PodStateWithExtensions PodAccount} {m : PodStateWithExtensions PodMint}
    {ownerInfo : AccountInfo} {signers : List AccountInfo} {amount : UInt64} (hs : AccountAt l k s)
    (hm : MintReadable l s.base.mint m) :
    (∃ l', process x env (.mintTo amount none)
      (⟨s.base.mint, false⟩ :: ⟨k, false⟩ :: ownerInfo :: signers) l = .ok l') ↔
      CanMint l s m ownerInfo signers amount := by
  have hl := hrun.balanced hgen
  constructor
  · rintro ⟨l', hmint⟩
    have hmint : processMintTo amount none
        (⟨s.base.mint, false⟩ :: ⟨k, false⟩ :: ownerInfo :: signers) l = .ok l' := hmint
    exact canMint_of_processMintTo hl.wellFormed hs hm hmint
  · intro hcan
    exact hcan.processMintTo hl hs hm

theorem issuer_can_mint_supply :
    ∃ l', process .refusing (.plain 0) (.mintTo 100 none) [⟨⟨1⟩, false⟩, ⟨⟨3⟩, false⟩, ⟨⟨5⟩, true⟩]
      supplyLedger = .ok l' := by
  obtain ⟨hgen, hrun⟩ := supplyLedger_run
  obtain ⟨hm, -, hs⟩ := supplyLedger_accounts
  exact (issuer_can_mint hgen hrun hs hm).mpr
    ⟨⟨⟨5⟩, rfl, by decide +kernel⟩, by decide, by decide, by decide⟩

/-- Whatever has happened, the owner of an account that is not frozen can send what is in
it to any account of the mint that takes transfers: the fee can be paid and withheld, and
no count overflows. The mint calls no hook, and lets its tokens be transferred. -/
theorem owner_can_send {x : Externals} {l₀ l : Ledger} {events : List Event} (hgen : Genesis l₀)
    (hrun : PublicRun x l₀ events l) {env : Env} {k j : Pubkey}
    {s d : PodStateWithExtensions PodAccount} {m : PodStateWithExtensions PodMint}
    {ownerInfo : AccountInfo} {signers : List AccountInfo} {amount : UInt64} (hs : AccountAt l k s)
    (hd : AccountAt l j d) (hne : k ≠ j) (hmint : s.base.mint = d.base.mint)
    (hm : MintReadable l s.base.mint m) (hhook : getTransferHookProgramId m = none)
    (hown : OwnerActs env l s ownerInfo signers) (hfrozen : ¬ s.base.frozen)
    (htransferable : ¬ s.hasExtension .nonTransferableAccount) (htakes : TakesTransfers env m d)
    (hamount : amount ≤ s.base.amount)
    (hlamports : s.base.mint ≠ nativeMint ∨ l.totalLamports < 2 ^ 64) :
    let l' := execute x env (.transferChecked amount m.base.decimals)
      (⟨k, false⟩ :: ⟨s.base.mint, false⟩ :: ⟨j, false⟩ :: ownerInfo :: signers) l
    ∃ s' d', AccountAt l' k s' ∧ AccountAt l' j d' ∧
      s'.base.amount.toNat + amount.toNat = s.base.amount.toNat ∧
      tokens d' = tokens d + amount.toNat := by
  intro l'
  have hl := hrun.balanced hgen
  have hwellMint := (hl.wellFormed s.base.mint).of_mint hm.owner hm.mintAt.data
  obtain ⟨fee, hfee, -⟩ := mintFee_le hwellMint env amount
  have hdue := hown.dueTransfer hl.wellFormed ⟨k, false⟩ ⟨s.base.mint, false⟩ ⟨j, false⟩ hs hd hmint
    hne hm rfl hfee hfrozen htransferable hamount htakes
  -- what the credit needs, from the balance of the whole ledger
  obtain ⟨s₀, hchecked⟩ := dueTransfer_eq_ok hdue
  obtain ⟨hfits, hwithheld⟩ := hl.pair_lt hchecked (hmint ▸ hlamports)
  obtain ⟨d', hcredit⟩ := creditDestination_succeeds (hl.fee_le hchecked).1 hfits hwithheld
    fun hpositive => htakes.fees (mintFee_pos hfee hpositive)
  have hcredited : Credited d d' amount fee := creditDestination_eq_ok hcredit
  let s' : PodStateWithExtensions PodAccount :=
    { s with base := { s.base with amount := s.base.amount - amount } }
  let l₂ := (l.setData k (.account s')).setData j (.account d')
  have hsource : AccountAt l₂ k s' := (AccountAt.setData_self hs.owner s').setData_of_ne hne
  have hdestination : AccountAt l₂ j d' :=
    .setData_self (by rw [Ledger.setData_owner, hd.owner]) d'
  have hnative (hsome : s.base.isNative.isSome) :=
    hl.wellFormed.nativeLamports hs hne hamount hlamports hsome
  have hlamports₂ (i : Pubkey) : (l₂ i).lamports = (l i).lamports := by
    rw [Ledger.setData_lamports, Ledger.setData_lamports]
  obtain ⟨l₃, hmove⟩ := moveNativeLamports_succeeds (l := l₂) hne hsource.owner
    (fun hsome => hlamports₂ k ▸ (hnative hsome).1) fun hsome => hlamports₂ j ▸ (hnative hsome).2
  have hmoved := moveNativeLamports_eq_ok hne hmove
  have hprocess : process x env (.transferChecked amount m.base.decimals)
      (⟨k, false⟩ :: ⟨s.base.mint, false⟩ :: ⟨j, false⟩ :: ownerInfo :: signers) l = .ok l₃ := by
    show processTransfer env amount (some m.base.decimals) none _ l = _
    rw [processTransfer_eq, hdue, ok_bind]
    simp only [DueTransfer.settle, bind_eq_ok, Ledger.writeData_eq_ok, hhook, pure_eq_ok]
    refine ⟨d', hcredit, _, ⟨Or.inl hs.owner, rfl⟩, l₂, ⟨Or.inl ?_, rfl⟩, l₃, hmove, rfl⟩
    rw [Ledger.setData_owner, hd.owner]
  have hl' : l' = l₃ := execute_of_process hprocess
  rw [hl']
  refine ⟨s', d', ⟨(hmoved.owner k).trans hsource.owner, (hmoved.data k).trans hsource.data⟩,
    ⟨(hmoved.owner j).trans hdestination.owner, (hmoved.data j).trans hdestination.data⟩,
    checkedSub_eq_some.mp (checkedSub_eq_sub hamount), ?_⟩
  have hcredit := hcredited.credit
  have hwithheld := hcredited.withheld
  rw [tokens, tokens]
  omega

/-- A hundred tokens more, one of them as a fee. -/
theorem owner_can_send_supply :
    ∃ d', AccountAt (execute .refusing (.plain 0) (.transferChecked 100 2)
      [⟨⟨2⟩, false⟩, ⟨⟨1⟩, false⟩, ⟨⟨3⟩, false⟩, ⟨⟨7⟩, true⟩] supplyLedger) ⟨3⟩ d' ∧
      tokens d' = 400 := by
  obtain ⟨hgen, hrun⟩ := supplyLedger_run
  obtain ⟨hm, hs, hd⟩ := supplyLedger_accounts
  have hamount : (100 : UInt64) ≤ (supplyAccount ⟨7⟩ 600 0).base.amount := by decide
  obtain ⟨s', d', -, hd', -, htokens⟩ := owner_can_send hgen hrun hs hd (by decide) rfl hm
    (by decide) supplyLedger_owner (by decide) (by decide)
    ⟨by decide, by decide, by decide, by decide⟩ hamount (Or.inl (by decide))
  exact ⟨d', hd', htokens⟩

end BarkToken
