import BarkToken.Invariant.Accounts
import BarkToken.Program.Replay

/-!
# Lamports behind wrapped balances

The amount of a native account, the reserve recorded in it and its lamports are
three numbers. The lamports always cover the other two, and no instruction makes
or loses any.
-/

namespace BarkToken
open Fallible CheckedWord AccountData Transition

/-- The instructions that move lamports from one account to another. -/
def TokenInstruction.movesLamports : TokenInstruction → Bool
  | transfer _ | transferChecked _ _ | transferCheckedWithFee _ _ _ | closeAccount
  | withdrawExcessLamports => true
  | _ => false

/-- Lamports only move between listed accounts, and none is lost; what a hook
program does with its own is not this program's. -/
structure LamportsMoved (l l' : Ledger) (accounts : List AccountInfo) : Prop where
  total : l'.totalLamports = l.totalLamports
  frame : ListsHook l accounts ∨
    ∀ k, k ∉ accounts.map AccountInfo.key → (l' k).lamports = (l k).lamports

theorem LamportsMoved.refl (l : Ledger) (accounts : List AccountInfo) : LamportsMoved l l accounts :=
  ⟨rfl, Or.inr fun _ _ => rfl⟩

section Handlers

variable {env : Env} {accounts : List AccountInfo} {l l' : Ledger}

theorem processTransfer_lamports {amount : UInt64} {decimals : Option UInt8} {fee : Option UInt64}
    (x : Externals) (ix : TokenInstruction)
    (hindex : ix.authorityIndex l accounts = some (if decimals.isSome then 3 else 2))
    (hnum : ix.numTokenAccounts = 0)
    (h : processTransfer env amount decimals fee accounts l = .ok l') :
    LamportsMoved l l' accounts := by
  rcases processTransfer_eq_ok (x := x) hindex hnum h with
    rfl | ⟨source, destination, s, d, s', d', fee', l₁, hmoved, -, htotal, hhook, hs, hd⟩
  · exact .refl _ _
  · refine ⟨htotal.trans hmoved.total, ?_⟩
    rcases hhook with rfl | hhook
    · refine Or.inr fun k hk => congrArg AccountRecord.lamports (hmoved.others k ?_ ?_)
      · exact fun e => hk (e ▸ hs)
      · exact fun e => hk (e ▸ hd)
    · exact Or.inl hhook

theorem processCloseAccount_lamports (h : processCloseAccount env accounts l = .ok l') :
    LamportsMoved l l' accounts := by
  obtain ⟨source, destination, authorityInfo, signers, rfl, hclosed⟩ := processCloseAccount_eq_ok h
  refine ⟨hclosed.total, Or.inr fun k hk => congrArg AccountRecord.lamports (hclosed.others k ?_ ?_)⟩
  · exact fun e => hk (by simp [e])
  · exact fun e => hk (by simp [e])

theorem processWithdrawExcessLamports_lamports
    (h : processWithdrawExcessLamports env accounts l = .ok l') : LamportsMoved l l' accounts := by
  obtain ⟨source, destination, rest, rfl, hw⟩ := processWithdrawExcessLamports_eq_ok h
  refine ⟨hw.total, Or.inr fun k hk => congrArg AccountRecord.lamports (hw.frame k ?_ ?_)⟩
  · exact fun e => hk (by simp [e])
  · exact fun e => hk (by simp [e])

end Handlers

variable {c : Call} {k : Pubkey} {l' : Ledger}

theorem Call.process_lamportsMoved (h : c.process = .ok l') (hix : c.ix.movesLamports = true) :
    LamportsMoved c.ledger l' c.accounts := by
  obtain ⟨x, env, ix, accounts, l⟩ := c
  cases ix with
  | transfer amount => exact processTransfer_lamports x (.transfer amount) rfl rfl h
  | transferChecked amount decimals =>
    exact processTransfer_lamports x (.transferChecked amount decimals) rfl rfl h
  | transferCheckedWithFee amount decimals fee =>
    exact processTransfer_lamports x (.transferCheckedWithFee amount decimals fee) rfl rfl h
  | closeAccount => exact processCloseAccount_lamports h
  | withdrawExcessLamports => exact processWithdrawExcessLamports_lamports h
  | _ => simp [TokenInstruction.movesLamports] at hix

/-- A synchronised account: its amount is what its lamports leave over the reserve,
and no less than it was. -/
structure Synced (l l' : Ledger) (k : Pubkey) (s s' : PodStateWithExtensions PodAccount)
    (reserve : UInt64) : Prop where
  before : AccountAt l k s
  after : AccountAt l' k s'
  native : s'.base.isNative = some reserve
  grows : s.base.amount ≤ s'.base.amount
  equal : (l' k).lamports.toNat = reserve.toNat + s'.base.amount.toNat

theorem Call.process_synced (h : c.process = .ok l') (hix : c.ix = .syncNative)
    (hkey : c.key 0 = some k) : ∃ s s' reserve, Synced c.ledger l' k s s' reserve := by
  obtain ⟨x, env, ix, accounts, l⟩ := c
  obtain rfl := hix
  have h : processSyncNative accounts l = .ok l' := h
  simp only [processSyncNative, bind_eq_ok, Prod.exists, exists_unit, okOr_eq_ok, ensure_eq_ok,
    nextAccountInfo_eq_ok, checkProgramAccount_eq_ok] at h
  obtain ⟨info, rest, rfl, howner, s, hs, reserve, hreserve, newAmount, hamount, hle, hwrite⟩ := h
  obtain rfl : info.key = k := Option.some.inj hkey
  obtain ⟨-, rfl⟩ := Ledger.writeData_eq_ok.mp hwrite
  have hamount := checkedSub_eq_some.mp hamount
  refine ⟨s, _, reserve, ⟨howner, (unpackAccount_eq_ok.mp hs).1⟩,
    ⟨?_, congrArg AccountRecord.data Ledger.setData_self⟩, hreserve, hle, ?_⟩
  · rw [Ledger.setData_owner]
    exact howner
  · rw [Ledger.setData_lamports]
    dsimp only
    omega

/-- What `WithdrawExcessLamports` leaves at its source: the rent-exempt minimum, and
no native account. -/
theorem Call.process_withdrawExcess (h : c.process = .ok l') (hix : c.ix = .withdrawExcessLamports)
    (hkey : c.key 0 = some k) :
    c.env.minimumBalance (c.ledger k).data.len ≤ (l' k).lamports ∧
      ∀ s, (c.ledger k).data.unpackAccount = .ok s → s.base.isNative = none := by
  obtain ⟨x, env, ix, accounts, l⟩ := c
  obtain rfl := hix
  obtain ⟨source, destination, rest, rfl, hw⟩ := processWithdrawExcessLamports_eq_ok h
  obtain rfl : source.key = k := Option.some.inj hkey
  exact ⟨hw.minimum, hw.nativeFree⟩

/-- Wrapped lamports are backed. In every reachable state the lamports of a native
account cover its reserve and its amount; `SyncNative` raises the amount to exactly
that, transfers, closing and withdrawals only move lamports between their accounts,
and excess lamports are withdrawn down to the rent-exempt minimum and never from a
native account. -/
theorem nativeAccounts_backed {x : Externals} {l : Ledger} (hreach : Reachable x l) :
    (∀ (A : Pubkey) (s : PodStateWithExtensions PodAccount) (reserve : UInt64), AccountAt l A s →
      s.base.isNative = some reserve →
      reserve.toNat + s.base.amount.toNat ≤ (l A).lamports.toNat) ∧
    ∀ (c : Call) (l' : Ledger), c.ledger = l → c.process = .ok l' →
      (∀ A, c.ix = .syncNative → c.key 0 = some A → ∃ s s' reserve, Synced l l' A s s' reserve) ∧
      (c.ix.movesLamports = true → LamportsMoved l l' c.accounts) ∧
      ∀ A, c.ix = .withdrawExcessLamports → c.key 0 = some A →
        c.env.minimumBalance (l A).data.len ≤ (l' A).lamports ∧
          ∀ s, AccountAt l A s → s.base.isNative = none := by
  have hl := hreach.wellFormed
  refine ⟨fun A s reserve hs hnative => (hs.wellFormed hl).backed reserve hnative, ?_⟩
  rintro c l' rfl hok
  refine ⟨fun A hix hkey => Call.process_synced hok hix hkey, Call.process_lamportsMoved hok,
    fun A hix hkey => ?_⟩
  obtain ⟨hminimum, hfree⟩ := Call.process_withdrawExcess hok hix hkey
  exact ⟨hminimum, fun s hs => hfree s ((congrArg unpackAccount hs.data).trans
    (hs.wellFormed hl).unpackAccount)⟩

/-! ### A wrapped balance -/

/-- A payer, and room for a native account with nine lamports under it. -/
def blankNativeLedger : Ledger :=
  .ofList [(⟨2⟩, ⟨9, programId, .zeroed 165 []⟩), (⟨3⟩, ⟨50, systemProgram, .zeroed 0 []⟩)]

def nativeCalls : List (Env × TokenInstruction × List AccountInfo) :=
  [(.plain 0, .createNativeMint, [⟨⟨3⟩, true⟩, ⟨nativeMint, false⟩, ⟨systemProgram, false⟩]),
   (.plain 0, .initializeAccount3 ⟨7⟩, [⟨⟨2⟩, false⟩, ⟨nativeMint, false⟩])]

def nativeLedger : Ledger := replay .refusing nativeCalls blankNativeLedger

def syncCall : Call := ⟨.refusing, .plain 0, .syncNative, [⟨⟨2⟩, false⟩], nativeLedger⟩

/-- One of the nine lamports is the reserve, and eight are wrapped. -/
theorem nativeAccounts_backed_sync :
    1 + 8 ≤ (nativeLedger ⟨2⟩).lamports.toNat ∧
      ∃ l' s s' reserve, syncCall.process = .ok l' ∧ Synced nativeLedger l' ⟨2⟩ s s' reserve := by
  have hgen : Genesis blankNativeLedger := .ofList (by decide) (by decide)
  have hs : AccountAt nativeLedger ⟨2⟩
      ⟨{ mint := nativeMint, owner := ⟨7⟩, amount := 8, delegate := none, state := .initialized,
         isNative := some 1, delegatedAmount := 0, closeAuthority := none }, 165, []⟩ :=
    ⟨by decide, by decide⟩
  obtain ⟨hbacked, hstep⟩ := nativeAccounts_backed (hgen.reachable_replay (x := .refusing) nativeCalls)
  obtain ⟨l', hok⟩ : syncCall.Succeeds := Call.succeeds_of_isOk (by decide)
  obtain ⟨s, s', reserve, hsynced⟩ := (hstep syncCall l' rfl hok).1 ⟨2⟩ rfl rfl
  exact ⟨hbacked ⟨2⟩ _ 1 hs rfl, l', s, s', reserve, hok, hsynced⟩

end BarkToken
