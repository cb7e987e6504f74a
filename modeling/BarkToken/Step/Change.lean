import BarkToken.Program.Run

/-!
# What one instruction can do to one account

Every successful instruction changes every record of the ledger in one of the
ways listed here. A change states the authority it needs, so that whatever holds
of all changes holds of all instructions.
-/

namespace BarkToken
open Fallible CheckedWord

/-- The fee of a confidential transfer, and the key that its second handles are
for. -/
structure FeeParts where
  lo : FeeEncryption
  hi : FeeEncryption
  withdrawWithheldAuthority : ElGamalPubkey
deriving DecidableEq

def TransferWithFeeProofContextInfo.feeParts (c : TransferWithFeeProofContextInfo) : FeeParts :=
  ⟨c.feeCiphertextLo, c.feeCiphertextHi, c.transferWithFeePubkeys.withdrawWithheldAuthority⟩

namespace Call

/-- `validate_owner` succeeds for `key`. -/
def AuthorisedBy (c : Call) (key : Pubkey) : Prop := c.ix.AuthorisedBy c.ledger c.accounts key

/-- The instruction's authority account is `key`. -/
def NamesAuthority (c : Call) (key : Pubkey) : Prop := c.ix.NamesAuthority c.ledger c.accounts key

/-- The key at a position of the account list. -/
def key (c : Call) (i : ℕ) : Option Pubkey := c.accounts[i]?.map AccountInfo.key

/-- `Approve` of `amount` to `d` on the account `k`. -/
def Approves (c : Call) (k d : Pubkey) (amount : UInt64) : Prop :=
  ∃ decimals, c.ix = .approve amount decimals ∧ c.key 0 = some k ∧
    c.key (if decimals.isSome then 2 else 1) = some d

/-- A verified proof context that the instruction can read: in a context state
account of the proof program, or in a sibling instruction. -/
def Provides (c : Call) (p : ProofContext) : Prop :=
  (∃ k len, (c.ledger k).owner = zkTokenProofProgram ∧ (c.ledger k).data = .proofContext len p) ∨
    ∃ offset, c.env.siblingProof offset = some p

/-- The contexts of this call yield these parts of a confidential transfer, and
this fee. -/
inductive Certifies (c : Call) : TransferParts → Option FeeParts → Prop
  | transfer {t : TransferProofContext} (h : c.Provides (.transfer t)) :
      Certifies c (TransferProofContextInfo.ofContext t).parts none
  | transferWithFee {t : TransferWithFeeProofContext} (h : c.Provides (.transferWithFee t)) :
      Certifies c (TransferWithFeeProofContextInfo.ofContext t).parts
        (some (TransferWithFeeProofContextInfo.ofContext t).feeParts)
  | split {equality validity range handles info}
      (hequality : c.Provides (.ciphertextCommitmentEquality equality))
      (hvalidity : c.Provides (.batchedGroupedCiphertext2HandlesValidity validity))
      (hrange : c.Provides (.batchedRangeProofU128 range))
      (h : TransferProofContextInfo.verifyAndExtract equality validity range handles = .ok info) :
      Certifies c info.parts none
  | splitWithFee {equality validity feeSigma feeValidity range handles fees info}
      (hequality : c.Provides (.ciphertextCommitmentEquality equality))
      (hvalidity : c.Provides (.batchedGroupedCiphertext2HandlesValidity validity))
      (hsigma : c.Provides (.feeSigma feeSigma))
      (hfee : c.Provides (.batchedGroupedCiphertext2HandlesValidity feeValidity))
      (hrange : c.Provides (.batchedRangeProofU256 range))
      (h : TransferWithFeeProofContextInfo.verifyAndExtract c.x.zk equality validity feeSigma
        feeValidity range handles fees = .ok info) :
      Certifies c info.parts (some info.feeParts)

end Call

/-- The two forms of a confidential transfer. -/
inductive IsConfidentialTransfer : TokenInstruction → ConfidentialTransferData → Prop
  | single {balance offset} :
      IsConfidentialTransfer (.confidentialTransfer balance offset) (.single balance offset)
  | split {balance noOp close handles} :
      IsConfidentialTransfer (.confidentialTransferWithSplitProofs balance noOp close handles)
        (.split balance noOp close handles)

namespace Call

/-- The verified context that a confidential transfer executes, with its fee where
the mint charges one. -/
inductive Executes (c : Call) : TransferParts → Option FeeParts → Prop
  | transfer {data source mint destination rest v a} (hix : IsConfidentialTransfer c.ix data)
      (haccounts : c.accounts = source :: mint :: destination :: rest)
      (hverified : verifyTransferProof c.env mint.key data.proofInstructionOffset data.flags
        data.sourceDecryptHandles rest c.ledger = .ok v) (hcontext : v.context = some a) :
      Executes c a.parts none
  | transferWithFee {data source mint destination rest m config v a}
      (hix : IsConfidentialTransfer c.ix data)
      (haccounts : c.accounts = source :: mint :: destination :: rest)
      (hmint : (c.ledger mint.key).data.unpackMint = .ok m)
      (hconfig : m.tlv.get .transferFeeConfig = some config)
      (hverified : verifyTransferWithFeeProof c.x.zk c.env mint.key data.proofInstructionOffset
        data.flags data.sourceDecryptHandles (config.getEpochFee c.env.epoch) rest c.ledger = .ok v)
      (hcontext : v.context = some a) : Executes c a.parts (some a.feeParts)

/-- The extension of the account in third place. -/
def Credits (c : Call) (e : ConfidentialTransferAccount) : Prop :=
  ∃ k s, c.key 2 = some k ∧ (c.ledger k).owner = programId ∧ (c.ledger k).data = .account s ∧
    s.tlv.get .confidentialTransferAccount = some e

end Call

/-- `process_transfer` and `process_burn`, in all their variants. -/
def TokenInstruction.isTransferOrBurn : TokenInstruction → Bool
  | transfer _ | transferChecked _ _ | transferCheckedWithFee _ _ _ | burn _ _ => true
  | _ => false

/-- `process_burn` in both variants. -/
def TokenInstruction.isBurn : TokenInstruction → Bool
  | burn _ _ => true
  | _ => false

/-- `process_initialize_account`, in all its variants. -/
def TokenInstruction.isInitializeAccount : TokenInstruction → Bool
  | initializeAccount | initializeAccount2 _ | initializeAccount3 _ => true
  | _ => false

def TokenInstruction.isInitializeTransferFeeConfig : TokenInstruction → Bool
  | initializeTransferFeeConfig _ _ _ _ => true
  | _ => false

/-- A key has signed the instruction. -/
def Call.SignedBy (c : Call) (key : Pubkey) : Prop :=
  ∃ info ∈ c.accounts, info.key = key ∧ info.isSigner = true

/-- An authority stands behind the instruction: `validate_owner` succeeds for it,
or it has signed. -/
def Call.ApprovedBy (c : Call) (key : Pubkey) : Prop := c.AuthorisedBy key ∨ c.SignedBy key

/-- The permanent delegate stored at a mint's address. -/
def PermanentDelegateAt (l : Ledger) (mintKey d : Pubkey) : Prop :=
  ∃ mint, (l mintKey).data.unpackMint = .ok mint ∧ getPermanentDelegate mint = some d

/-! ### Where tokens come from -/

def TokenInstruction.isMintTo : TokenInstruction → Bool
  | mintTo _ _ => true
  | _ => false

/-- The withheld amount of a token account, zero without the extension. -/
def withheldAmount (s : PodStateWithExtensions PodAccount) : UInt64 :=
  ((s.tlv.get .transferFeeAmount).map TransferFeeAmount.withheldAmount).getD 0

/-- The withheld amount of a mint, zero without the extension. -/
def mintWithheldAmount (s : PodStateWithExtensions PodMint) : UInt64 :=
  ((s.tlv.get .transferFeeConfig).map TransferFeeConfig.withheldAmount).getD 0

/-- The confidential extension of a mint of this program. -/
def Call.FindsConfidentialMint (c : Call) (mintKey : Pubkey) (v : ConfidentialTransferMint) : Prop :=
  (c.ledger mintKey).owner = programId ∧ ∃ mint, (c.ledger mintKey).data.unpackMint = .ok mint ∧
    mint.tlv.get .confidentialTransferMint = some v

/-- The ledger has an account of the mint that transfers can leave. -/
def Call.FindsTransferable (c : Call) (mintKey : Pubkey) : Prop :=
  ∃ k s, (c.ledger k).owner = programId ∧ (c.ledger k).data = .account s ∧
    s.base.mint = mintKey ∧ ¬ s.hasExtension .nonTransferableAccount

/-- Some account of the mint, or the mint itself, withholds fees. -/
def Call.FindsFees (c : Call) (mintKey : Pubkey) : Prop :=
  (∃ k s, (c.ledger k).owner = programId ∧ (c.ledger k).data = .account s ∧
    s.base.mint = mintKey ∧ withheldAmount s ≠ 0) ∨
    ∃ m, (c.ledger mintKey).owner = programId ∧ (c.ledger mintKey).data = .mint m ∧
      mintWithheldAmount m ≠ 0

/-- The mint that confidential tokens come from or go to can be transferred. -/
def Call.TransferableMint (c : Call) (mintKey : Pubkey) : Prop :=
  ∃ mint, (c.ledger mintKey).data.unpackMint = .ok mint ∧ ¬ mint.hasExtension .nonTransferable

/-! ### Extension areas -/

/-- Only entries of the types `ts` change, and none disappears or is doubled. -/
structure Tlv.ChangesOnly (ts : List ExtensionType) (m m' : Tlv) : Prop where
  get : ∀ t, t ∉ ts → m'.get t = m.get t
  keeps : ∀ t, t ∈ ts → (m.get t).isSome → (m'.get t).isSome
  nodup : m.tags.Nodup → m'.tags.Nodup

namespace Tlv.ChangesOnly

variable {ts : List ExtensionType} {m m' m'' : Tlv}

theorem refl (ts : List ExtensionType) (m : Tlv) : ChangesOnly ts m m :=
  ⟨fun _ _ => rfl, fun _ _ => id, id⟩

theorem trans (h : ChangesOnly ts m m') (h' : ChangesOnly ts m' m'') : ChangesOnly ts m m'' :=
  ⟨fun t ht => (h'.get t ht).trans (h.get t ht), fun t ht => h'.keeps t ht ∘ h.keeps t ht,
    h'.nodup ∘ h.nodup⟩

theorem mono {us : List ExtensionType} (h : ChangesOnly ts m m') (hsub : ts ⊆ us) :
    ChangesOnly us m m' where
  get t ht := h.get t fun hmem => ht (hsub hmem)
  keeps t _ hsome := by
    by_cases hmem : t ∈ ts
    · exact h.keeps t hmem hsome
    · rwa [h.get t hmem]
  nodup := h.nodup

theorem put {t : ExtensionType} (m : Tlv) (v : t.Value) (ht : t ∈ ts) :
    ChangesOnly ts m (m.put t v) where
  get u hu := TypedStore.get_put_of_ne m v fun e => hu (e ▸ ht)
  keeps u _ hsome := by
    by_cases h : u = t
    · subst h
      simp
    · rwa [TypedStore.get_put_of_ne m v h]
  nodup h := TypedStore.nodup_tags_put h t v

theorem isSome_of_isSome (h : ChangesOnly ts m m') {t : ExtensionType} (hsome : (m.get t).isSome) :
    (m'.get t).isSome := by
  by_cases ht : t ∈ ts
  · exact h.keeps t ht hsome
  · rwa [h.get t ht]

theorem mem_of_isSome (h : ChangesOnly ts m m') {t : ExtensionType} (hsome : (m'.get t).isSome) :
    (m.get t).isSome ∨ t ∈ ts := by
  by_cases ht : t ∈ ts
  · exact Or.inr ht
  · exact Or.inl (by rwa [← h.get t ht])

end Tlv.ChangesOnly

/-! ### Token accounts -/

/-- Settings of an account: nothing it holds changes. -/
inductive AccountUpdate (c : Call) (k : Pubkey) (lamports' : UInt64) :
    PodStateWithExtensions PodAccount → PodStateWithExtensions PodAccount → Prop
  | approve {s d amount} (hix : c.Approves k d amount) (hauth : c.AuthorisedBy s.base.owner)
      (hfrozen : ¬ s.base.frozen) (hguard : ¬ (lockCpi s = true ∧ c.env.inCpi)) :
      AccountUpdate c k lamports' s
        { s with base := { s.base with delegate := some d, delegatedAmount := amount } }
  | revoke {s key} (hauth : c.AuthorisedBy key) (hfrozen : ¬ s.base.frozen)
      (hkey : key = s.base.owner ∨ s.base.delegate = some key) (hix : c.ix = .revoke) :
      AccountUpdate c k lamports' s
        { s with base := { s.base with delegate := none, delegatedAmount := 0 } }
  | setOwner {s owner closeAuthority} (hauth : c.AuthorisedBy s.base.owner)
      (hfrozen : ¬ s.base.frozen) (himmutable : ¬ s.hasExtension .immutableOwner) (hguard : lockCpi s = false)
      (hclose : closeAuthority = none ∨ closeAuthority = s.base.closeAuthority)
      (hix : c.ix = .setAuthority .accountOwner (some owner))
      (hnative : closeAuthority = if s.base.isNative.isSome then none else s.base.closeAuthority) :
      AccountUpdate c k lamports' s { s with base := { s.base with
        owner := owner, delegate := none, delegatedAmount := 0
        closeAuthority := closeAuthority } }
  | setCloseAuthority {s closeAuthority}
      (hauth : c.AuthorisedBy (s.base.closeAuthority.getD s.base.owner))
      (hfrozen : ¬ s.base.frozen)
      (hguard : ¬ (lockCpi s = true ∧ c.env.inCpi ∧ closeAuthority.isSome))
      (hix : c.ix = .setAuthority .closeAccount closeAuthority) :
      AccountUpdate c k lamports' s
        { s with base := { s.base with closeAuthority := closeAuthority } }
  | setState {s freeze mint key} (hix : c.ix = .toggleFreezeAccount freeze)
      (hkey : c.key 0 = some k) (hnative : s.base.isNative = none)
      (hmint : (c.ledger s.base.mint).data.unpackMint = .ok mint)
      (hfreeze : mint.base.freezeAuthority = some key) (hauth : c.AuthorisedBy key) :
      AccountUpdate c k lamports' s
        { s with base := { s.base with state := if freeze then .frozen else .initialized } }
  | memo {s v} (hauth : c.AuthorisedBy s.base.owner) :
      AccountUpdate c k lamports' s (s.setExtension .memoTransfer v)
  | guard {s v} (hauth : c.AuthorisedBy s.base.owner) (hcpi : ¬ c.env.inCpi) :
      AccountUpdate c k lamports' s (s.setExtension .cpiGuard v)
  | reallocate {s len isNative} (hauth : c.AuthorisedBy s.base.owner)
      (hlen : len ≠ multisigLen ∧ baseAccountAndTypeLength < len)
      (hnone : s.base.isNative = none → isNative = none)
      (hsome : s.base.isNative.isSome → ∃ reserve : UInt64, isNative = some reserve ∧
        reserve.toNat + s.base.amount.toNat ≤ lamports'.toNat)
      (hix : ∃ types, c.ix = .reallocate types) :
      AccountUpdate c k lamports' s
        { s with base := { s.base with isNative := isNative }, len := len }

/-- Who debits an account in `process_transfer` and `process_burn`, and the base
state with the allowance used up. -/
inductive DebitAuthority (c : Call) (s : PodStateWithExtensions PodAccount) (amount : UInt64) :
    PodAccount → Prop
  | permanentDelegate {d} (hd : PermanentDelegateAt c.ledger s.base.mint d)
      (hauth : c.AuthorisedBy d) : DebitAuthority c s amount s.base
  | delegate {d remaining} (hd : s.base.delegate = some d) (hauth : c.AuthorisedBy d)
      (hremaining : remaining.toNat + amount.toNat = s.base.delegatedAmount.toNat) :
      DebitAuthority c s amount { s.base with
        delegatedAmount := remaining
        delegate := if remaining = 0 then none else s.base.delegate }
  | owner (hauth : c.AuthorisedBy s.base.owner) (hguard : ¬ (lockCpi s = true ∧ c.env.inCpi)) :
      DebitAuthority c s amount s.base
  | burn (hix : ∃ amount decimals, c.ix = .burn amount decimals)
      (howned : s.base.ownedBySystemProgramOrIncinerator) : DebitAuthority c s amount s.base

/-- An instruction on the confidential extension of one account with base state
`base`: the extension and the public amount after it. -/
inductive ConfidentialUpdate (c : Call) (base : PodAccount) (e : ConfidentialTransferAccount) :
    ConfidentialTransferAccount → UInt64 → Prop
  | approved {v key} (hmint : c.FindsConfidentialMint base.mint v)
      (hkey : v.authority.toOption = some key) (hsigned : c.SignedBy key)
      (hix : c.ix = .approveAccount) :
      ConfidentialUpdate c base e { e with approved := true } base.amount
  | allowConfidentialCredits {allow} (hauth : c.AuthorisedBy base.owner) :
      ConfidentialUpdate c base e { e with allowConfidentialCredits := allow } base.amount
  | allowNonConfidentialCredits {allow} (hauth : c.AuthorisedBy base.owner) :
      ConfidentialUpdate c base e { e with allowNonConfidentialCredits := allow } base.amount
  | emptied {p e'} (hproof : c.Provides (.zeroBalance p)) (hauth : c.AuthorisedBy base.owner)
      (h : e.emptied p = .ok e') : ConfidentialUpdate c base e e' base.amount
  | applied {counter balance e'} (hix : c.ix = .applyPendingBalance counter balance)
      (hauth : c.AuthorisedBy base.owner) (h : e.applied c.x.zk counter balance = .ok e') :
      ConfidentialUpdate c base e e' base.amount
  | deposited {amount decimals newAmount e'} (hix : c.ix = .deposit amount decimals)
      (hauth : c.AuthorisedBy base.owner) (hfrozen : ¬ base.frozen) (hnative : base.isNative = none)
      (hmint : c.TransferableMint base.mint)
      (hamount : newAmount.toNat + amount.toNat = base.amount.toNat)
      (h : e.deposited c.x.zk amount = .ok e') : ConfidentialUpdate c base e e' newAmount
  | withdrawn {amount p balance newAmount e'} (hproof : c.Provides (.withdraw p))
      (hauth : c.AuthorisedBy base.owner) (hfrozen : ¬ base.frozen) (hnative : base.isNative = none)
      (hmint : c.TransferableMint base.mint)
      (hamount : newAmount.toNat = base.amount.toNat + amount.toNat)
      (h : e.withdrawn c.x.zk amount p balance = .ok e') : ConfidentialUpdate c base e e' newAmount

/-- What a confidential transfer and a withdrawal of withheld amounts do to the
confidential extension of one of their accounts. -/
inductive ConfidentialMove (c : Call) (base : PodAccount) (e : ConfidentialTransferAccount) :
    ConfidentialTransferAccount → Prop
  | debited {p fee balance e'} (hproof : c.Certifies p fee) (hname : c.NamesAuthority base.owner)
      (hdistinct : c.key 0 ≠ c.key 2) (h : e.debited c.x.zk p balance = .ok e')
      (hvalid : e.validAsSource = .ok ()) : ConfidentialMove c base e e'
  | credited {p e'} (hproof : c.Certifies p none) (hexecutes : c.Executes p none)
      (hdistinct : c.key 0 ≠ c.key 2) (h : e.credited c.x.zk p = .ok e')
      (hvalid : e.validAsDestination = .ok ()) : ConfidentialMove c base e e'
  | charged {p q e₁ e'} (hproof : c.Certifies p (some q)) (hexecutes : c.Executes p (some q))
      (hcredits : c.Credits e) (hdistinct : c.key 0 ≠ c.key 2)
      (h : e.credited c.x.zk p = .ok e₁) (hcharged : e₁.charged c.x.zk q.lo q.hi = .ok e')
      (hvalid : e.validAsDestination = .ok ()) : ConfidentialMove c base e e'
  | selfTransferred {p fee balance e₁ e'} (hproof : c.Certifies p fee) (hexecutes : c.Executes p fee)
      (hname : c.NamesAuthority base.owner) (hsame : c.key 0 = c.key 2)
      (h : e.debited c.x.zk p balance = .ok e₁) (hcredited : e₁.credited c.x.zk p = .ok e')
      (hvalid : e.validAsSource = .ok ()) (hvalid' : e₁.validAsDestination = .ok ()) :
      ConfidentialMove c base e e'
  | paidWithheld {p feeConfig withheldAmount balance e'}
      (hproof : c.Provides (.ciphertextCiphertextEquality p)) (hvalid : e.validAsDestination = .ok ())
      (h : e.paidWithheld c.x.zk p feeConfig withheldAmount balance = .ok e') :
      ConfidentialMove c base e e'

/-- A confidential extension that is configured, or changes by itself. -/
inductive ConfidentialStep (c : Call) (s s' : PodStateWithExtensions PodAccount) : Prop
  | configure {e} (hauth : c.AuthorisedBy s.base.owner)
      (hnone : s.tlv.get .confidentialTransferAccount = none) (hbase : s'.base = s.base)
      (hlen : s'.len = s.len)
      (hget : s'.tlv.get .confidentialTransferAccount = some e)
      (happroved : e.approved = true → ∃ v, c.FindsConfidentialMint s.base.mint v ∧
        v.autoApproveNewAccounts = true)
      (hpending : e.pendingBalanceLo = .zeroed ∧ e.pendingBalanceHi = .zeroed ∧
        e.availableBalance = .zeroed)
      (hcounters : e.pendingBalanceCreditCounter = 0 ∧ e.expectedPendingBalanceCreditCounter = 0 ∧
        e.actualPendingBalanceCreditCounter = 0)
      (hfee : s'.tlv.get .confidentialTransferFeeAmount = s.tlv.get .confidentialTransferFeeAmount ∨
        s.tlv.get .confidentialTransferFeeAmount = none ∧
          s'.tlv.get .confidentialTransferFeeAmount = some ⟨.zeroed⟩)
      (htlv : Tlv.ChangesOnly [.confidentialTransferAccount, .confidentialTransferFeeAmount] s.tlv
        s'.tlv)
      (hix : ∃ balance maximum offset, c.ix = .configureAccount balance maximum offset)
  | update {e e' newAmount} (hget : s.tlv.get .confidentialTransferAccount = some e)
      (h : ConfidentialUpdate c s.base e e' newAmount)
      (hs : s' = { s.setExtension .confidentialTransferAccount e' with
        base := { s.base with amount := newAmount } })

/-- One side of an instruction that moves tokens between accounts: a token
account before and after, with the lamports under it. -/
inductive AccountStep (c : Call) (lamports lamports' : UInt64)
    (s s' : PodStateWithExtensions PodAccount) : Prop
  | debit {base amount newAmount} (hix : c.ix.isTransferOrBurn = true)
      (hauth : DebitAuthority c s amount base) (hfrozen : ¬ s.base.frozen)
      (hmarker : s.hasExtension .nonTransferableAccount → c.ix.isBurn = true)
      (hamount : newAmount.toNat + amount.toNat = s.base.amount.toNat)
      (hbase : s'.base = { base with amount := newAmount }) (hlen : s'.len = s.len)
      (htlv : Tlv.ChangesOnly [.transferHookAccount] s.tlv s'.tlv)
      (hnative : s.base.isNative.isSome → lamports.toNat ≤ lamports'.toNat + amount.toNat)
      (hlamports : s.base.isNative = none → lamports ≤ lamports')
  | credit {newAmount} (hamount : s.base.amount ≤ newAmount)
      (hfrozen : s.base.frozen → newAmount = s.base.amount)
      (hsource : newAmount = s.base.amount ∨ c.ix.isMintTo = true ∨
        c.FindsTransferable s.base.mint ∨ c.FindsFees s.base.mint)
      (hwithheld : withheldAmount s' ≤ withheldAmount s ∨ c.FindsTransferable s.base.mint)
      (hbase : s'.base = { s.base with amount := newAmount }) (hlen : s'.len = s.len)
      (htlv : Tlv.ChangesOnly [.transferFeeAmount, .transferHookAccount] s.tlv s'.tlv)
      (hnative : s.base.isNative.isSome →
        lamports.toNat + newAmount.toNat ≤ lamports'.toNat + s.base.amount.toNat)
      (hlamports : lamports ≤ lamports')
  | move {e e'} (hlamports : lamports ≤ lamports')
      (hget : s.tlv.get .confidentialTransferAccount = some e)
      (hget' : s'.tlv.get .confidentialTransferAccount = some e')
      (h : ConfidentialMove c s.base e e')
      (hbase : s'.base = s.base) (hlen : s'.len = s.len)
      (htlv : Tlv.ChangesOnly [.confidentialTransferAccount, .confidentialTransferFeeAmount,
        .transferHookAccount] s.tlv s'.tlv)
  | harvested (hlamports : lamports ≤ lamports') (hbase : s'.base = s.base) (hlen : s'.len = s.len)
      (htlv : Tlv.ChangesOnly [.confidentialTransferFeeAmount, .transferHookAccount] s.tlv s'.tlv)

/-! ### Mints -/

/-- The contents of extensions that a mint never loses: rates of at most one
hundred percent, and a default state that accounts can have; each of them once. -/
structure Tlv.Valid (m : Tlv) : Prop where
  nodup : m.tags.Nodup
  rates : ∀ v, m.get .transferFeeConfig = some v → v.RatesBounded
  defaultState : ∀ v, m.get .defaultAccountState = some v → v.state ≠ .uninitialized

/-- The authorities that mint extensions store. -/
inductive ExtensionAuthority where
  | closeMint
  | transferFeeConfig
  | withheldWithdraw
  | interestRate
  | permanentDelegate
  | confidentialTransferMint
  | confidentialTransferFeeConfig
  | transferHook
  | metadataPointer
  | groupPointer
  | groupMemberPointer
  | tokenMetadata
  | tokenGroup
deriving DecidableEq

namespace ExtensionAuthority

/-- The extension that stores the authority. -/
def type : ExtensionAuthority → ExtensionType
  | closeMint => .mintCloseAuthority
  | transferFeeConfig => .transferFeeConfig
  | withheldWithdraw => .transferFeeConfig
  | interestRate => .interestBearingConfig
  | permanentDelegate => .permanentDelegate
  | confidentialTransferMint => .confidentialTransferMint
  | confidentialTransferFeeConfig => .confidentialTransferFeeConfig
  | transferHook => .transferHook
  | metadataPointer => .metadataPointer
  | groupPointer => .groupPointer
  | groupMemberPointer => .groupMemberPointer
  | tokenMetadata => .tokenMetadata
  | tokenGroup => .tokenGroup

/-- The field that holds it. -/
def key : (a : ExtensionAuthority) → a.type.Value → OptionalNonZeroPubkey
  | closeMint => MintCloseAuthority.closeAuthority
  | transferFeeConfig => TransferFeeConfig.transferFeeConfigAuthority
  | withheldWithdraw => TransferFeeConfig.withdrawWithheldAuthority
  | interestRate => InterestBearingConfig.rateAuthority
  | permanentDelegate => PermanentDelegate.delegate
  | confidentialTransferMint => ConfidentialTransferMint.authority
  | confidentialTransferFeeConfig => ConfidentialTransferFeeConfig.authority
  | transferHook => TransferHook.authority
  | metadataPointer => MetadataPointer.authority
  | groupPointer => GroupPointer.authority
  | groupMemberPointer => GroupMemberPointer.authority
  | tokenMetadata => TokenMetadata.updateAuthority
  | tokenGroup => TokenGroup.updateAuthority

end ExtensionAuthority

/-- All authorities of a mint. -/
inductive MintAuthority where
  | mintTokens
  | freezeAccount
  | extension (a : ExtensionAuthority)
deriving DecidableEq

/-- Who holds an authority, if the mint has it at all. -/
def MintAuthority.holder (a : MintAuthority) (s : PodStateWithExtensions PodMint) :
    Option (Option Pubkey) :=
  match a with
  | mintTokens => some s.base.mintAuthority
  | freezeAccount => some s.base.freezeAuthority
  | extension a => (s.tlv.get a.type).map fun v => (a.key v).toOption

/-- An authority after an instruction: the same holder, or one that the previous
holder has approved. -/
def AuthorityStep (c : Call) (holder holder' : Option Pubkey) : Prop :=
  holder' = holder ∨ ∃ key, holder = some key ∧ c.ApprovedBy key

/-- The two fees of a configuration, set again or as they were. -/
def FeesStep (c : Call) (v v' : TransferFeeConfig) : Prop :=
  (v'.olderTransferFee = v.olderTransferFee ∧ v'.newerTransferFee = v.newerTransferFee) ∨
    ∃ basisPoints maximumFee, c.ix = .setTransferFee basisPoints maximumFee ∧
      v' = v.setFee c.env.epoch maximumFee basisPoints

/-- The interest of a configuration, but for a new rate: only its authority changes. -/
def InterestStep (c : Call) (v v' : InterestBearingConfig) : Prop :=
  (∃ authority, v' = { v with rateAuthority := authority }) ∨ ∃ rate, c.ix = .updateRate rate

/-- The extension that says where the contents of an interface extension are. -/
def ExtensionType.pointer : ExtensionType → Option ExtensionType
  | tokenMetadata => some metadataPointer
  | tokenGroup => some groupPointer
  | tokenGroupMember => some groupMemberPointer
  | _ => none

/-- The instructions that write a `TokenGroup`. -/
def TokenInstruction.writesGroup : TokenInstruction → Bool
  | initializeGroup _ _ | updateGroupMaxSize _ | updateGroupAuthority _ | initializeMember => true
  | _ => false

def TokenInstruction.isInitializeInterestBearingMint : TokenInstruction → Bool
  | initializeInterestBearingMint _ _ => true
  | _ => false

def TokenInstruction.isInitializeMember : TokenInstruction → Bool
  | initializeMember => true
  | _ => false

/-- The base state of a mint under an instruction: at most one field is assigned. -/
inductive MintBaseStep (c : Call) (m : PodMint) : PodMint → Prop
  | kept : MintBaseStep c m m
  | mintAuthority {authority} (hix : c.ix = .setAuthority .mintTokens authority) :
      MintBaseStep c m { m with mintAuthority := authority }
  | freezeAuthority {authority} (hix : c.ix = .setAuthority .freezeAccount authority) :
      MintBaseStep c m { m with freezeAuthority := authority }
  | supply {supply} : MintBaseStep c m { m with supply := supply }

/-- An initialised mint before and after an instruction. Of its extensions, only
those that its interfaces write can be new, and only where their pointers are. -/
structure MintStep (c : Call) (k : Pubkey) (s s' : PodStateWithExtensions PodMint) : Prop where
  initialized : s'.base.isInitialized = s.base.isInitialized
  decimals : s'.base.decimals = s.base.decimals
  keeps : ∀ t, s.hasExtension t → s'.hasExtension t
  adds : ∀ t, s'.hasExtension t → s.hasExtension t ∨ ∃ p, t.pointer = some p ∧ s.hasExtension p
  valid : s.tlv.Valid → s'.tlv.Valid
  elgamalPubkey : (s'.tlv.get .confidentialTransferFeeConfig).map
      ConfidentialTransferFeeConfig.withdrawWithheldAuthorityElgamalPubkey =
    (s.tlv.get .confidentialTransferFeeConfig).map
      ConfidentialTransferFeeConfig.withdrawWithheldAuthorityElgamalPubkey
  authorities : ∀ (a : MintAuthority) (holder : Option Pubkey), a.holder s = some holder →
    ∃ holder', a.holder s' = some holder' ∧ AuthorityStep c holder holder'
  issue : s'.base.supply ≤ s.base.supply ∨
    ∃ key, s.base.mintAuthority = some key ∧ c.AuthorisedBy key
  freezeAuthority : s'.base.freezeAuthority = s.base.freezeAuthority ∨
    c.ix = .setAuthority .freezeAccount s'.base.freezeAuthority ∧ c.key 0 = some k
  defaultState : s'.tlv.get .defaultAccountState = s.tlv.get .defaultAccountState ∨
    s'.base.freezeAuthority.isSome
  fees : ∀ v, s.tlv.get .transferFeeConfig = some v →
    ∃ v', s'.tlv.get .transferFeeConfig = some v' ∧ FeesStep c v v'
  interest : ∀ v, s.tlv.get .interestBearingConfig = some v →
    ∃ v', s'.tlv.get .interestBearingConfig = some v' ∧ InterestStep c v v'
  collected : mintWithheldAmount s' ≤ mintWithheldAmount s ∨ c.FindsFees k
  group : s'.tlv.get .tokenGroup = s.tlv.get .tokenGroup ∨ c.ix.writesGroup = true
  member : s'.tlv.get .tokenGroupMember = s.tlv.get .tokenGroupMember ∨
    c.ix.isInitializeMember = true
  base : MintBaseStep c s.base s'.base

/-- Settings of a mint: neither the supply nor a withheld amount changes. -/
structure MintUpdate (c : Call) (k : Pubkey) (s s' : PodStateWithExtensions PodMint) : Prop
    extends MintStep c k s s' where
  supply : s'.base.supply = s.base.supply
  withheld : (s'.tlv.get .transferFeeConfig).map TransferFeeConfig.withheldAmount =
    (s.tlv.get .transferFeeConfig).map TransferFeeConfig.withheldAmount
  confidentialWithheld : (s'.tlv.get .confidentialTransferFeeConfig).map
      ConfidentialTransferFeeConfig.withheldAmount =
    (s.tlv.get .confidentialTransferFeeConfig).map ConfidentialTransferFeeConfig.withheldAmount

/-! ### Records -/

/-- A multisig as `InitializeMultisig` writes it. -/
structure PodMultisig.Initialized (m : PodMultisig) : Prop where
  initialized : m.isInitialized = true
  required : isValidSignerIndex m.m.toNat
  provided : isValidSignerIndex m.n.toNat

/-- Extensions as they are before their mint is initialised. -/
structure Tlv.Fresh (m : Tlv) : Prop extends m.Valid where
  withheld : ∀ v, m.get .transferFeeConfig = some v → v.withheldAmount = 0
  confidentialWithheld : ∀ v, m.get .confidentialTransferFeeConfig = some v →
    v.withheldAmount = .zeroed
  unpointed : ∀ t : ExtensionType, t.pointer.isSome → m.get t = none

/-- The value of an extension that is written ahead of the mint or the account. -/
structure FreshExtension (t : ExtensionType) (v : t.Value) : Prop where
  kind : t.accountType = .mint ∨ t = .immutableOwner
  fresh : ∀ m : Tlv, m.Fresh → Tlv.Fresh (m.put t v)

/-- A new token account, and the mint it is made for. -/
structure NewAccount (c : Call) (k : Pubkey) (lamports : UInt64) (tlv : Tlv)
    (s : PodStateWithExtensions PodAccount) (mint : PodStateWithExtensions PodMint) : Prop where
  mintOwner : (c.ledger s.base.mint).owner = programId
  mintData : (c.ledger s.base.mint).data.unpackMint = .ok mint
  mintKey : k ≠ s.base.mint
  required : ∀ t ∈ ExtensionType.requiredInitAccountExtensions mint.extensionTypes, s.hasExtension t
  changesOnly : Tlv.ChangesOnly (ExtensionType.requiredInitAccountExtensions mint.extensionTypes)
    tlv s.tlv
  withheld : ∀ v, s.tlv.get .transferFeeAmount = some v →
    v.withheldAmount = 0 ∨ tlv.get .transferFeeAmount = some v
  state : s.base.state = (defaultState mint).getD .initialized
  delegate : s.base.delegate = none ∧ s.base.delegatedAmount = 0
  nonNative : s.base.mint ≠ nativeMint → s.base.isNative = none ∧ s.base.amount = 0
  native : s.base.mint = nativeMint → ∃ reserve : UInt64, s.base.isNative = some reserve ∧
    s.base.amount.toNat + reserve.toNat = lamports.toNat
  len : s.len ≠ multisigLen ∧ (s.len = baseAccountLength ∨ baseAccountAndTypeLength < s.len)
  instruction : c.ix.isInitializeAccount = true
  closeAuthority : s.base.closeAuthority = none
  data : (c.ledger k).data = .zeroed s.len tlv

/-- A record before and after an instruction that moves no tokens, other than to
count lamports that have arrived. -/
inductive NeutralStep (c : Call) (k : Pubkey) (r r' : AccountRecord) : Prop
  | foreign (h : ForeignRecord k r r')
  | account {s s'} (howner : r.owner = programId) (howner' : r'.owner = programId)
      (hdata : r.data = .account s) (hdata' : r'.data = .account s')
      (hlamports : r.lamports ≤ r'.lamports) (h : AccountUpdate c k r'.lamports s s')
  | sync {s reserve newAmount} (howner : r.owner = programId) (howner' : r'.owner = programId)
      (hdata : r.data = .account s)
      (hdata' : r'.data = .account { s with base := { s.base with amount := newAmount } })
      (hlamports : r.lamports ≤ r'.lamports) (hnative : s.base.isNative = some reserve)
      (hamount : newAmount.toNat + reserve.toNat = r.lamports.toNat) (hle : s.base.amount ≤ newAmount)
  | mint {s s'} (howner : r.owner = programId) (howner' : r'.owner = programId)
      (hdata : r.data = .mint s) (hdata' : r'.data = .mint s') (hkey : k ≠ nativeMint)
      (h : MintUpdate c k s s')
  | extend {len tlv t v} (howner : r.owner = programId) (howner' : r'.owner = programId)
      (hdata : r.data = .zeroed len tlv) (hdata' : r'.data = .zeroed len (TypedStore.put tlv t v))
      (hhead : ∀ e ∈ tlv.head?, e.1.accountType = t.accountType) (hlen : len ≠ multisigLen)
      (hfee : t = .transferFeeConfig → c.ix.isInitializeTransferFeeConfig = true)
      (h : FreshExtension t v)
      (hinterest : t = .interestBearingConfig → c.ix.isInitializeInterestBearingMint = true)
  | initMint {len tlv base} (hix : ∃ d a f r, c.ix = .initializeMint d a f r)
      (hkey : c.key 0 = some k)
      (howner : r.owner = programId) (howner' : r'.owner = programId)
      (hdata : r.data = .zeroed len tlv) (hdata' : r'.data = .mint ⟨base, len, tlv⟩)
      (hhead : ∀ e ∈ tlv.head?, e.1.accountType = .mint) (hinit : base.isInitialized = true)
      (hsupply : base.supply = 0)
      (hcombination : checkForInvalidMintExtensionCombinations (TypedStore.tags tlv) = .ok ())
      (hfrozen : defaultState ⟨base, len, tlv⟩ = some .frozen → base.freezeAuthority.isSome)
      (hbase : ∃ d a f r, c.ix = .initializeMint d a f r ∧ base = ⟨some a, 0, d, true, f⟩)
      (hlen : mintLen ≤ len)
  | createNativeMint (hkey : k = nativeMint) (howner : r.owner = systemProgram)
      (howner' : r'.owner = programId)
      (hdata' : r'.data = .mint ⟨⟨none, 0, 9, true, none⟩, mintLen, []⟩)
  | initAccount {len tlv s mint} (howner : r.owner = programId) (howner' : r'.owner = programId)
      (hdata : r.data = .zeroed len tlv) (hdata' : r'.data = .account s)
      (hhead : ∀ e ∈ tlv.head?, e.1.accountType = .account) (hlamports : r'.lamports = r.lamports)
      (h : NewAccount c k r'.lamports tlv s mint)
  | initMultisig {m} (hix : ∃ required rent, c.ix = .initializeMultisig required rent)
      (hkey : c.key 0 = some k)
      (howner : r.owner = programId) (howner' : r'.owner = programId)
      (hdata : (∃ tlv, r.data = .zeroed multisigLen tlv) ∨
        ∃ m, r.data = .multisig m ∧ m.isInitialized = false)
      (hdata' : r'.data = .multisig m) (h : m.Initialized)
  | withdrawExcess (howner : r.owner = programId) (howner' : r'.owner = programId)
      (hdata : r'.data = r.data)
      (hnative : ∀ s, r.data.unpackAccount = .ok s → s.base.isNative = none)

/-- A record before and after an instruction that moves tokens within one
account at most. -/
inductive LocalStep (c : Call) (k : Pubkey) (r r' : AccountRecord) : Prop
  | neutral (h : NeutralStep c k r r')
  | confidential {s s'} (howner : r.owner = programId) (howner' : r'.owner = programId)
      (hdata : r.data = .account s) (hdata' : r'.data = .account s')
      (hlamports : r.lamports ≤ r'.lamports) (h : ConfidentialStep c s s')

/-- A record before and after a successful instruction. -/
inductive RecordStep (c : Call) (k : Pubkey) (r r' : AccountRecord) : Prop
  | locally (h : LocalStep c k r r')
  | account {s s'} (howner : r.owner = programId) (howner' : r'.owner = programId)
      (hdata : r.data = .account s) (hdata' : r'.data = .account s')
      (h : AccountStep c r.lamports r'.lamports s s')
  | mint {s s'} (howner : r.owner = programId) (howner' : r'.owner = programId)
      (hdata : r.data = .mint s) (hdata' : r'.data = .mint s') (hkey : k ≠ nativeMint)
      (h : MintStep c k s s')
  | close (hix : c.ix = .closeAccount) (hkey : c.key 0 = some k) (howner : r.owner = programId)
      (howner' : r'.owner = systemProgram) (hdata' : r'.data = .zeroed 0 [])

end BarkToken
