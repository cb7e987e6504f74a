import BarkToken.Program.Run

/-!
# Replaying instructions on a given ledger

A ledger from a list of accounts, and the state that a list of instructions leads
to, for evaluating the model at concrete inputs.
-/

namespace BarkToken
open Transition

/-- The listed accounts; every other key has an empty account of the system
program. -/
def Ledger.ofList (accounts : List (Pubkey × AccountRecord)) : Ledger := fun k =>
  (accounts.lookup k).getD ⟨0, systemProgram, .zeroed 0 []⟩

/-- An environment in which an account needs one lamport, and no other program
can be called. -/
def Env.plain (epoch : UInt64) : Env where
  epoch := epoch
  unixTimestamp := 0
  minimumBalance _ := 1
  stackHeight := 1
  previousSibling := none
  siblingProof _ := none
  invoke _ _ := .error Fault.runtime
  invoke_frame _ _ _ h := by simp at h

/-- Code of other crates that refuses every argument. -/
def Externals.refusing : Externals where
  zk :=
    { add := fun _ _ => none
      subtract := fun _ _ => none
      addWithLoHi := fun _ _ _ => none
      subtractWithLoHi := fun _ _ _ => none
      addTo := fun _ _ => none
      subtractFrom := fun _ _ => none
      multiplyRistretto := fun _ _ => none
      addRistretto := fun _ _ => none
      subtractRistretto := fun _ _ => none }
  incrementSize _ := .error Fault.runtime
  updateMaxSize _ _ := .error Fault.runtime
  updateMetadata metadata _ _ := metadata
  removeKey metadata _ := (metadata, false)

/-- Instructions one after the other, each in its own environment. -/
def replay (x : Externals) (calls : List (Env × TokenInstruction × List AccountInfo)) (l : Ledger) :
    Ledger :=
  calls.foldl (fun l c => execute x c.1 c.2.1 c.2.2 l) l

def Event.ofCall (c : Env × TokenInstruction × List AccountInfo) : Event :=
  .instruction c.1 c.2.1 c.2.2

theorem ledgerRun_replay (x : Externals) (calls : List (Env × TokenInstruction × List AccountInfo))
    (l : Ledger) : LedgerRun x l (calls.map Event.ofCall) (replay x calls l) := by
  induction calls generalizing l with
  | nil => exact Run.nil l
  | cons c calls ih => exact Run.cons rfl (ih (execute x c.1 c.2.1 c.2.2 l))

/-- Calls that satisfy a condition in every ledger. -/
theorem runWhere_replay {x : Externals} {P : Call → Prop}
    {calls : List (Env × TokenInstruction × List AccountInfo)}
    (h : ∀ c ∈ calls, ∀ l, P ⟨x, c.1, c.2.1, c.2.2, l⟩) (l : Ledger) :
    RunWhere x P l (calls.map Event.ofCall) (replay x calls l) := by
  induction calls generalizing l with
  | nil => exact Run.nil l
  | cons c calls ih =>
    exact Run.cons ⟨h c (List.mem_cons_self ..) l, rfl⟩
      (ih (fun c hc => h c (List.mem_cons_of_mem _ hc)) _)

/-- What the successful instructions add to a history. -/
def replayRecord {δ : Type} (x : Externals) (record : Call → Ledger → List δ) :
    List (Env × TokenInstruction × List AccountInfo) → Ledger → List δ
  | [], _ => []
  | c :: calls, l =>
    (Event.ofCall c).record x record l (execute x c.1 c.2.1 c.2.2 l) ++
      replayRecord x record calls (execute x c.1 c.2.1 c.2.2 l)

/-- Calls that have nothing to record. -/
theorem replayRecord_eq_nil {δ : Type} {x : Externals} {record : Call → Ledger → List δ}
    {calls : List (Env × TokenInstruction × List AccountInfo)}
    (h : ∀ c ∈ calls, ∀ l l', record ⟨x, c.1, c.2.1, c.2.2, l⟩ l' = []) (l : Ledger) :
    replayRecord x record calls l = [] := by
  induction calls generalizing l with
  | nil => rfl
  | cons c calls ih =>
    have hfirst : ∀ l', (Event.ofCall c).record x record l l' = [] := by
      intro l'
      unfold Event.ofCall Event.record
      dsimp only
      split
      · exact h _ (List.mem_cons_self ..) l l'
      · rfl
    rw [replayRecord, hfirst, List.nil_append]
    exact ih (fun c hc => h c (List.mem_cons_of_mem _ hc)) _

/-- The same with a history. -/
theorem recordedRun_replay {δ : Type} {x : Externals} {P : Call → Prop}
    (record : Call → Ledger → List δ) {calls : List (Env × TokenInstruction × List AccountInfo)}
    (h : ∀ c ∈ calls, ∀ l, P ⟨x, c.1, c.2.1, c.2.2, l⟩) (l : Ledger) (past : List δ) :
    RecordedRun x P record (l, past) (calls.map Event.ofCall)
      (replay x calls l, past ++ replayRecord x record calls l) := by
  induction calls generalizing l past with
  | nil =>
    rw [replayRecord, List.append_nil]
    exact Run.nil (l, past)
  | cons c calls ih =>
    have hrest := ih (fun c hc => h c (List.mem_cons_of_mem _ hc)) (execute x c.1 c.2.1 c.2.2 l)
      (past ++ (Event.ofCall c).record x record l (execute x c.1 c.2.1 c.2.2 l))
    rw [List.append_assoc] at hrest
    have hstep : (Event.ofCall c).step x l (execute x c.1 c.2.1 c.2.2 l) := rfl
    exact Run.cons ⟨⟨h c (List.mem_cons_self ..) l, hstep⟩, rfl⟩ hrest

/-- A listed ledger that the program has not been used on. -/
theorem Genesis.ofList {accounts : List (Pubkey × AccountRecord)}
    (hzeroed : ∀ a ∈ accounts, a.2.owner = programId → a.2.data = .zeroed a.2.data.len [])
    (hnative : ∀ a ∈ accounts, a.1 ≠ nativeMint) : Genesis (Ledger.ofList accounts) where
  zeroed k howner := by
    unfold Ledger.ofList at howner ⊢
    cases hlookup : accounts.lookup k with
    | none =>
      rw [hlookup] at howner
      exact absurd howner (by decide)
    | some r =>
      rw [hlookup] at howner
      obtain ⟨before, after, rfl, -⟩ := List.lookup_eq_some_iff.mp hlookup
      exact ⟨_, hzeroed (k, r) (by simp) howner⟩
  noNativeMint := by
    unfold Ledger.ofList
    rw [List.lookup_eq_none_iff.mpr]
    · decide
    · exact fun a ha => by simpa using Ne.symm (hnative a ha)

theorem Genesis.reachable_replay {x : Externals} {l : Ledger} (h : Genesis l)
    (calls : List (Env × TokenInstruction × List AccountInfo)) : Reachable x (replay x calls l) :=
  ⟨l, _, h, ledgerRun_replay x calls l⟩

/-- Whether an instruction succeeds can be evaluated. -/
theorem Call.succeeds_of_isOk {c : Call} (h : c.process.isOk = true) : c.Succeeds := by
  cases hok : c.process with
  | ok l' => exact ⟨l', hok⟩
  | error e => simp [hok, Except.isOk, Except.toBool] at h

/-! ### A mint with one account -/

/-- Room for a mint, and for an account of it. -/
def blankLedger : Ledger :=
  .ofList [(⟨1⟩, ⟨1, programId, .zeroed 82 []⟩), (⟨2⟩, ⟨1, programId, .zeroed 165 []⟩)]

theorem blankLedger_genesis : Genesis blankLedger := .ofList (by decide) (by decide)

/-- A mint, an account of it, and ten tokens in it. -/
def fundedCalls : List (Env × TokenInstruction × List AccountInfo) :=
  [(.plain 0, .initializeMint 2 ⟨5⟩ none false, [⟨⟨1⟩, false⟩]),
   (.plain 0, .initializeAccount3 ⟨7⟩, [⟨⟨2⟩, false⟩, ⟨⟨1⟩, false⟩]),
   (.plain 0, .mintTo 10 none, [⟨⟨1⟩, false⟩, ⟨⟨2⟩, false⟩, ⟨⟨5⟩, true⟩])]

def fundedLedger : Ledger := replay .refusing fundedCalls blankLedger

def fundedAccount (amount allowance : UInt64) (delegate : Option Pubkey) :
    PodStateWithExtensions PodAccount :=
  ⟨{ mint := ⟨1⟩, owner := ⟨7⟩, amount := amount, delegate := delegate, state := .initialized,
     isNative := none, delegatedAmount := allowance, closeAuthority := none }, 165, []⟩

/-! ### A mint with a fee -/

/-- The data of an account of the mint at 1 that holds as much as it can. -/
def fullAccount : PodStateWithExtensions PodAccount :=
  ⟨{ mint := ⟨1⟩, owner := ⟨7⟩, amount := 18446744073709551615, delegate := none,
     state := .initialized, isNative := none, delegatedAmount := 0, closeAuthority := none }, 165, []⟩

/-- Room for a mint and two accounts of it, and an account of some other program. -/
def blankSupplyLedger : Ledger :=
  .ofList [(⟨1⟩, ⟨1, programId, .zeroed 278 []⟩), (⟨2⟩, ⟨1, programId, .zeroed 178 []⟩),
    (⟨3⟩, ⟨1, programId, .zeroed 178 []⟩), (⟨4⟩, ⟨1, ⟨50⟩, .account fullAccount⟩)]

theorem blankSupplyLedger_genesis : Genesis blankSupplyLedger := .ofList (by decide) (by decide)

/-- Three of three hundred tokens that go from 2 to 3 are withheld. -/
def supplyCalls : List (Env × TokenInstruction × List AccountInfo) :=
  [(.plain 0, .initializeTransferFeeConfig none (some ⟨9⟩) 100 5, [⟨⟨1⟩, false⟩]),
   (.plain 0, .initializeMint 2 ⟨5⟩ none false, [⟨⟨1⟩, false⟩]),
   (.plain 0, .initializeAccount3 ⟨7⟩, [⟨⟨2⟩, false⟩, ⟨⟨1⟩, false⟩]),
   (.plain 0, .initializeAccount3 ⟨8⟩, [⟨⟨3⟩, false⟩, ⟨⟨1⟩, false⟩]),
   (.plain 0, .mintTo 900 none, [⟨⟨1⟩, false⟩, ⟨⟨2⟩, false⟩, ⟨⟨5⟩, true⟩]),
   (.plain 0, .transferChecked 300 2, [⟨⟨2⟩, false⟩, ⟨⟨1⟩, false⟩, ⟨⟨3⟩, false⟩, ⟨⟨7⟩, true⟩])]

def supplyLedger : Ledger := replay .refusing supplyCalls blankSupplyLedger

/-- The mint of `supplyLedger`. -/
def supplyMint : PodStateWithExtensions PodMint :=
  ⟨⟨some ⟨5⟩, 900, 2, true, none⟩, 278,
    [⟨.transferFeeConfig, ⟨⟨⟨0⟩⟩, ⟨⟨9⟩⟩, 0, ⟨0, 5, 100⟩, ⟨0, 5, 100⟩⟩⟩]⟩

def supplyAccount (owner : Pubkey) (amount withheld : UInt64) : PodStateWithExtensions PodAccount :=
  ⟨{ mint := ⟨1⟩, owner := owner, amount := amount, delegate := none, state := .initialized,
     isNative := none, delegatedAmount := 0, closeAuthority := none }, 178,
    [⟨.transferFeeAmount, ⟨withheld⟩⟩]⟩

end BarkToken
