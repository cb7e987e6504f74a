import BarkToken.Foundation.CheckedWord
import BarkToken.Foundation.KeyedSum
import BarkToken.State.AccountData

/-!
# The ledger and what a program may do to it

Every key has an account: lamports, an owning program and data. The writes
below carry the runtime's own rule, that a program changes the data and lowers
the lamports of the accounts it owns and of no others.
-/

namespace BarkToken
open Fallible CheckedWord

structure AccountRecord where
  lamports : UInt64
  owner : Pubkey
  data : AccountData
deriving DecidableEq

abbrev Ledger : Type := Pubkey → AccountRecord

/-- `AccountInfo`, an entry of an instruction's account list; two entries with
one key share one account. -/
structure AccountInfo where
  key : Pubkey
  isSigner : Bool
deriving DecidableEq

/-- `next_account_info(iter)?`. -/
def nextAccountInfo : List AccountInfo → Except Fault (AccountInfo × List AccountInfo)
  | [] => .error ProgramError.notEnoughAccountKeys
  | info :: rest => .ok (info, rest)

theorem nextAccountInfo_eq_ok {accounts : List AccountInfo} {p : AccountInfo × List AccountInfo} :
    nextAccountInfo accounts = .ok p ↔ accounts = p.1 :: p.2 := by
  cases accounts with
  | nil => simp [nextAccountInfo]
  | cons info rest =>
    obtain ⟨a, b⟩ := p
    simp [nextAccountInfo]

namespace Ledger

def setData (l : Ledger) (k : Pubkey) (d : AccountData) : Ledger :=
  Function.update l k { l k with data := d }

def setLamports (l : Ledger) (k : Pubkey) (n : UInt64) : Ledger :=
  Function.update l k { l k with lamports := n }

/-- A write to the account's data, or a reallocation of it. -/
def writeData (l : Ledger) (k : Pubkey) (d : AccountData) : Except Fault Ledger := do
  ensure ((l k).owner = programId ∨ (l k).data = d) Fault.runtime
  return l.setData k d

/-- A write to the account's lamports. -/
def writeLamports (l : Ledger) (k : Pubkey) (n : UInt64) : Except Fault Ledger := do
  ensure ((l k).owner = programId ∨ (l k).lamports ≤ n) Fault.runtime
  return l.setLamports k n

/-- `delete_account` (`processor.rs:1853-1865`): the account goes back to the
system program, without data. -/
def deleteAccount (l : Ledger) (k : Pubkey) : Except Fault Ledger := do
  ensure ((l k).owner = programId) Fault.runtime
  return Function.update l k { l k with owner := systemProgram, data := .zeroed 0 [] }

/-- All lamports there are. -/
def totalLamports (l : Ledger) : ℤ :=
  KeyedSum.total (fun (_ : Pubkey) (r : AccountRecord) => (r.lamports.toNat : ℤ)) l

/-! ### Reading a written ledger -/

variable {l l' : Ledger} {k j : Pubkey} {d : AccountData} {n : UInt64}

@[simp] theorem setData_self : (l.setData k d) k = { l k with data := d } := by
  simp [setData]

@[simp] theorem setData_of_ne (h : j ≠ k) : (l.setData k d) j = l j := by
  simp [setData, h]

@[simp] theorem setLamports_self : (l.setLamports k n) k = { l k with lamports := n } := by
  simp [setLamports]

@[simp] theorem setLamports_of_ne (h : j ≠ k) : (l.setLamports k n) j = l j := by
  simp [setLamports, h]

theorem setData_owner (l : Ledger) (k : Pubkey) (d : AccountData) (j : Pubkey) :
    ((l.setData k d) j).owner = (l j).owner := by
  by_cases h : j = k
  · subst h; simp
  · simp [h]

theorem setData_lamports (l : Ledger) (k : Pubkey) (d : AccountData) (j : Pubkey) :
    ((l.setData k d) j).lamports = (l j).lamports := by
  by_cases h : j = k
  · subst h; simp
  · simp [h]

theorem setLamports_owner (l : Ledger) (k : Pubkey) (n : UInt64) (j : Pubkey) :
    ((l.setLamports k n) j).owner = (l j).owner := by
  by_cases h : j = k
  · subst h; simp
  · simp [h]

theorem setLamports_data (l : Ledger) (k : Pubkey) (n : UInt64) (j : Pubkey) :
    ((l.setLamports k n) j).data = (l j).data := by
  by_cases h : j = k
  · subst h; simp
  · simp [h]

theorem setData_eq_self (h : (l k).data = d) : l.setData k d = l := by
  subst h
  exact Function.update_eq_self k l

theorem writeData_eq_ok :
    l.writeData k d = .ok l' ↔
      ((l k).owner = programId ∨ (l k).data = d) ∧ l' = l.setData k d := by
  rw [writeData, ensure_bind_eq_ok, pure_eq_ok, eq_comm (a := l')]

theorem writeLamports_eq_ok :
    l.writeLamports k n = .ok l' ↔
      ((l k).owner = programId ∨ (l k).lamports ≤ n) ∧ l' = l.setLamports k n := by
  rw [writeLamports, ensure_bind_eq_ok, pure_eq_ok, eq_comm (a := l')]

theorem deleteAccount_eq_ok :
    l.deleteAccount k = .ok l' ↔ (l k).owner = programId ∧
      l' = Function.update l k { l k with owner := systemProgram, data := .zeroed 0 [] } := by
  rw [deleteAccount, ensure_bind_eq_ok, pure_eq_ok, eq_comm (a := l')]

theorem totalLamports_update (l : Ledger) (k : Pubkey) (r : AccountRecord) :
    totalLamports (Function.update l k r) =
      totalLamports l + (r.lamports.toNat - (l k).lamports.toNat) :=
  KeyedSum.total_update _ l k r

theorem totalLamports_setData (l : Ledger) (k : Pubkey) (d : AccountData) :
    totalLamports (l.setData k d) = totalLamports l :=
  KeyedSum.total_update_eq rfl

theorem totalLamports_setLamports (l : Ledger) (k : Pubkey) (n : UInt64) :
    totalLamports (l.setLamports k n) =
      totalLamports l + (n.toNat - (l k).lamports.toNat) :=
  totalLamports_update l k _

end Ledger

/-! ### Other programs -/

/-- What any other program can do to one account: change its own at will, credit
lamports to any, and hand one over to this program with its data zeroed. The
native mint's address is derived from this program, so no one else can create
an account there. -/
structure ForeignRecord (k : Pubkey) (r r' : AccountRecord) : Prop where
  keeps : r.owner = programId →
    r'.owner = programId ∧ r'.data = r.data ∧ r.lamports ≤ r'.lamports
  creates : r.owner ≠ programId → r'.owner = programId →
    k ≠ nativeMint ∧ ∃ len, r'.data = .zeroed len []

/-- A step of some other program. -/
def ForeignStep (l l' : Ledger) : Prop := ∀ k, ForeignRecord k (l k) (l' k)

theorem ForeignRecord.refl (k : Pubkey) (r : AccountRecord) : ForeignRecord k r r where
  keeps h := ⟨h, rfl, UInt64.le_refl _⟩
  creates h h' := absurd h' h

theorem ForeignRecord.trans {k : Pubkey} {r r' r'' : AccountRecord} (h : ForeignRecord k r r')
    (h' : ForeignRecord k r' r'') : ForeignRecord k r r'' where
  keeps ho := by
    obtain ⟨ho', hd, hl⟩ := h.keeps ho
    obtain ⟨ho'', hd', hl'⟩ := h'.keeps ho'
    exact ⟨ho'', hd'.trans hd, UInt64.le_trans hl hl'⟩
  creates ho ho'' := by
    by_cases ho' : r'.owner = programId
    · obtain ⟨hk, n, hd⟩ := h.creates ho ho'
      exact ⟨hk, n, (h'.keeps ho').2.1.trans hd⟩
    · exact h'.creates ho' ho''

theorem ForeignStep.refl (l : Ledger) : ForeignStep l l := fun k => ForeignRecord.refl k (l k)

/-- A call into a program outside the repository. -/
inductive Invocation where
  /-- `spl_transfer_hook_interface::onchain::invoke_execute`. -/
  | transferHook (program source mint destination authority : Pubkey)
      (additionalAccounts : List AccountInfo) (amount : UInt64)
  /-- `close_context_state` of the proof program. -/
  | closeContextState (contextState lamportDestination authority : Pubkey)

/-- What an instruction reads besides its accounts. -/
structure Env where
  /-- `Clock::get()?.epoch` and `.unix_timestamp`. -/
  epoch : UInt64
  unixTimestamp : Int64
  /-- `rent.minimum_balance(data_len)`. -/
  minimumBalance : ℕ → UInt64
  /-- `get_stack_height()`: 1 at the top of a transaction. -/
  stackHeight : ℕ
  /-- The program of `get_processed_sibling_instruction(0)`. -/
  previousSibling : Option Pubkey
  /-- The proof that the instruction at an offset in the transaction carries. -/
  siblingProof : Int64 → Option ProofContext
  invoke : Invocation → Ledger → Except Fault Ledger
  /-- The runtime confines a call to what other programs may do, and lets no
  instruction change the sum of all lamports. -/
  invoke_frame : ∀ c l l', invoke c l = .ok l' →
    ForeignStep l l' ∧ l'.totalLamports = l.totalLamports

namespace Env

/-- `rent.is_exempt(lamports, data_len)`. -/
def isExempt (env : Env) (lamports : UInt64) (dataLen : ℕ) : Prop :=
  env.minimumBalance dataLen ≤ lamports

instance (env : Env) (lamports : UInt64) (dataLen : ℕ) :
    Decidable (env.isExempt lamports dataLen) := inferInstanceAs (Decidable (_ ≤ _))

/-- `in_cpi` (`extension/cpi_guard/mod.rs:38-43`). -/
def inCpi (env : Env) : Prop := 1 < env.stackHeight

instance (env : Env) : Decidable env.inCpi := inferInstanceAs (Decidable (_ < _))

end Env

/-- `system_instruction::transfer`, invoked on behalf of `payer`, which has to
sign, to belong to the system program and to hold no data. -/
def systemTransfer (l : Ledger) (payer : AccountInfo) (receiver : Pubkey) (lamports : UInt64) :
    Except Fault Ledger := do
  ensure (payer.isSigner = true) (ProgramError.missingRequiredSignature : Fault)
  ensure ((l payer.key).data.len = 0) (ProgramError.invalidArgument : Fault)
  ensure ((l payer.key).owner = systemProgram) Fault.runtime
  let debited ← okOr (checkedSub (l payer.key).lamports lamports)
    (ProgramError.insufficientFunds : Fault)
  let l := l.setLamports payer.key debited
  let credited ← okOr (checkedAdd (l receiver).lamports lamports)
    (ProgramError.insufficientFunds : Fault)
  return l.setLamports receiver credited

end BarkToken
