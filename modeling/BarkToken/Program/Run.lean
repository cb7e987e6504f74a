import BarkToken.Foundation.Transition
import BarkToken.Program.Instruction

/-!
# Runs of the ledger

A run interleaves instructions of this program, in any order and with any
accounts, with steps of all other programs. Time, rent, call depth and sibling
instructions may differ from one instruction to the next.
-/

namespace BarkToken
open Transition

/-- An instruction about to be executed. -/
structure Call where
  x : Externals
  env : Env
  ix : TokenInstruction
  accounts : List AccountInfo
  ledger : Ledger

/-- What executing it comes to. -/
def Call.process (c : Call) : Except Fault Ledger :=
  BarkToken.process c.x c.env c.ix c.accounts c.ledger

/-- The instruction is executed without an error. -/
def Call.Succeeds (c : Call) : Prop := ∃ l', c.process = .ok l'

/-- One event of a run. -/
inductive Event where
  | instruction (env : Env) (ix : TokenInstruction) (accounts : List AccountInfo)
  | external

/-- What an event may do to the ledger. -/
def Event.step (x : Externals) (l : Ledger) (e : Event) (l' : Ledger) : Prop :=
  match e with
  | .instruction env ix accounts => l' = execute x env ix accounts l
  | .external => ForeignStep l l'

/-- Before the program is first used, every account it owns is zeroed, and the
native mint has not been created. -/
structure Genesis (l : Ledger) : Prop where
  zeroed : ∀ k, (l k).owner = programId → ∃ len, (l k).data = .zeroed len []
  noNativeMint : (l nativeMint).owner ≠ programId

abbrev LedgerRun (x : Externals) : Ledger → List Event → Ledger → Prop := Run (Event.step x)

/-- A condition on the instruction that an event executes, if it executes one. -/
def Event.Satisfies (x : Externals) (P : Call → Prop) (l : Ledger) : Event → Prop
  | .instruction env ix accounts => P ⟨x, env, ix, accounts, l⟩
  | .external => True

/-- Runs whose every instruction satisfies a condition in the state it is
executed in. -/
abbrev RunWhere (x : Externals) (P : Call → Prop) : Ledger → List Event → Ledger → Prop :=
  Run fun l e l' => e.Satisfies x P l ∧ Event.step x l e l'

/-- A state that some run leads to. -/
def Reachable (x : Externals) (l : Ledger) : Prop :=
  ∃ l₀ events, Genesis l₀ ∧ LedgerRun x l₀ events l

theorem execute_cases (x : Externals) (env : Env) (ix : TokenInstruction)
    (accounts : List AccountInfo) (l : Ledger) :
    process x env ix accounts l = .ok (execute x env ix accounts l) ∨
      execute x env ix accounts l = l := by
  unfold execute
  cases process x env ix accounts l with
  | error e => exact Or.inr rfl
  | ok l' => exact Or.inl rfl

theorem execute_of_process {x : Externals} {env : Env} {ix : TokenInstruction}
    {accounts : List AccountInfo} {l l' : Ledger} (h : process x env ix accounts l = .ok l') :
    execute x env ix accounts l = l' := by
  rw [execute, h]

/-- A step of a run is a successful instruction, a step of another program, or
nothing at all. -/
theorem Event.step_cases {x : Externals} {P : Call → Prop} {l l' : Ledger} {e : Event}
    (he : e.Satisfies x P l) (h : e.step x l l') :
    (∃ env ix accounts, e = .instruction env ix accounts ∧ P ⟨x, env, ix, accounts, l⟩ ∧
      (Call.mk x env ix accounts l).process = .ok l') ∨ ForeignStep l l' := by
  cases e with
  | instruction env ix accounts =>
    obtain rfl := h
    rcases execute_cases x env ix accounts l with hok | hsame
    · exact Or.inl ⟨env, ix, accounts, rfl, he, hok⟩
    · rw [hsame]
      exact Or.inr (ForeignStep.refl l)
  | external => exact Or.inr h

/-- What successful instructions and other programs preserve is preserved by
every run. -/
theorem RunWhere.invariant {x : Externals} {P : Call → Prop} {l l' : Ledger} {events : List Event}
    (Inv : Ledger → Prop)
    (hinstruction : ∀ (c : Call) l', c.x = x → P c → Inv c.ledger → c.process = .ok l' → Inv l')
    (hforeign : ∀ l l', Inv l → ForeignStep l l' → Inv l') (hrun : RunWhere x P l events l')
    (hl : Inv l) : Inv l' := by
  refine Run.invariant_of_step Inv (fun s e t hs hstep => ?_) hrun hl
  rcases Event.step_cases hstep.1 hstep.2 with ⟨env, ix, accounts, -, hP, hok⟩ | hf
  · exact hinstruction _ t rfl hP hs hok
  · exact hforeign s t hs hf

/-- A conditioned run is a run, and a run is one without condition. -/
theorem RunWhere.ledgerRun {x : Externals} {P : Call → Prop} {l l' : Ledger}
    {events : List Event} (hrun : RunWhere x P l events l') : LedgerRun x l events l' :=
  Run.mono (P := fun _ => True) (fun _ _ _ _ h => h.2) hrun fun _ _ => trivial

@[inherit_doc RunWhere.ledgerRun]
theorem LedgerRun.runWhere {x : Externals} {l l' : Ledger} {events : List Event}
    (hrun : LedgerRun x l events l') : RunWhere x (fun _ => True) l events l' :=
  Run.mono (P := fun _ => True) (fun _ e _ _ h => ⟨by cases e <;> trivial, h⟩) hrun
    fun _ _ => trivial

/-! ### Recorded runs -/

variable {δ : Type}

/-- What an event adds to a history: what its instruction adds if it succeeds. -/
def Event.record (x : Externals) (record : Call → Ledger → List δ) (l : Ledger) (e : Event)
    (l' : Ledger) : List δ :=
  match e with
  | .instruction env ix accounts =>
    match (Call.mk x env ix accounts l).process with
    | .ok _ => record ⟨x, env, ix, accounts, l⟩ l'
    | .error _ => []
  | .external => []

/-- Runs under a condition on their instructions, with a history of what the
successful ones did. -/
abbrev RecordedRun (x : Externals) (P : Call → Prop) (record : Call → Ledger → List δ) :
    Ledger × List δ → List Event → Ledger × List δ → Prop :=
  Run (Recorded (fun l e l' => e.Satisfies x P l ∧ e.step x l l') (Event.record x record))

/-- Every run has a history, so recording rules out no run. -/
theorem RunWhere.recordedRun {x : Externals} {P : Call → Prop} {l l' : Ledger} {events : List Event}
    (hrun : RunWhere x P l events l') (record : Call → Ledger → List δ) (past : List δ) :
    ∃ history, RecordedRun x P record (l, past) events (l', past ++ history) :=
  hrun.recorded (Event.record x record) past

theorem Event.record_cases (record : Call → Ledger → List δ) {x : Externals} {P : Call → Prop} {l l' : Ledger} {e : Event} (he : e.Satisfies x P l) (h : e.step x l l') :
    (∃ c : Call, c.x = x ∧ c.ledger = l ∧ P c ∧ c.process = .ok l' ∧
      e.record x record l l' = record c l') ∨
      ForeignStep l l' ∧ e.record x record l l' = [] := by
  cases e with
  | external => exact Or.inr ⟨h, rfl⟩
  | instruction env ix accounts =>
    simp only [Event.step, execute] at h
    simp only [Event.record]
    cases hok : (Call.mk x env ix accounts l).process with
    | ok l₁ =>
      rw [show process x env ix accounts l = .ok l₁ from hok] at h
      exact Or.inl ⟨⟨x, env, ix, accounts, l⟩, rfl, rfl, he, hok.trans (congrArg Except.ok h.symm), rfl⟩
    | error err =>
      rw [show process x env ix accounts l = .error err from hok] at h
      exact Or.inr ⟨h ▸ ForeignStep.refl l, rfl⟩

/-- What holds of a ledger and its history along a recorded run. -/
theorem RecordedRun.invariant {x : Externals} {P : Call → Prop} {record : Call → Ledger → List δ}
    {state state' : Ledger × List δ} {events : List Event} (Inv : Ledger → List δ → Prop)
    (hinstruction : ∀ (c : Call) l' history, c.x = x → P c → Inv c.ledger history →
      c.process = .ok l' → Inv l' (history ++ record c l'))
    (hforeign : ∀ l l' history, Inv l history → ForeignStep l l' → Inv l' history)
    (hrun : RecordedRun x P record state events state') (h : Inv state.1 state.2) :
    Inv state'.1 state'.2 := by
  refine Run.invariant_of_step (fun s => Inv s.1 s.2) (fun s e t hs hstep => ?_) hrun h
  obtain ⟨⟨hwhere, hstep⟩, hhistory⟩ := hstep
  rw [hhistory]
  rcases Event.record_cases record hwhere hstep with
    ⟨c, hx, hc, hP, hok, hrecord⟩ | ⟨hf, hrecord⟩
  · rw [hrecord]
    exact hinstruction c t.1 s.2 hx hP (hc ▸ hs) hok
  · rw [hrecord, List.append_nil]
    exact hforeign s.1 t.1 s.2 hs hf

/-! ### Reachable ledgers -/

/-- An invariant of all instructions and of other programs holds in every
reachable state it held in at the start. -/
theorem Reachable.invariant {x : Externals} {l : Ledger} (Inv : Ledger → Prop)
    (hinit : ∀ l, Genesis l → Inv l)
    (hinstruction : ∀ (c : Call) l', c.x = x → Inv c.ledger → c.process = .ok l' → Inv l')
    (hforeign : ∀ l l', Inv l → ForeignStep l l' → Inv l') (h : Reachable x l) : Inv l := by
  obtain ⟨l₀, events, hgen, hrun⟩ := h
  exact RunWhere.invariant Inv (fun c l' hx _ => hinstruction c l' hx) hforeign hrun.runWhere
    (hinit l₀ hgen)

end BarkToken
