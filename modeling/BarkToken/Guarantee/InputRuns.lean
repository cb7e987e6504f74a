import BarkToken.Guarantee.InputCodec
import BarkToken.Program.Replay

/-!
# Runs on bytes are runs on instructions

What the runtime hands to the program are bytes. The runs on arbitrary bytes lead
only to ledgers that runs on instructions lead to, and whatever instructions lead to
is also reached by sending what the client functions write.
-/

namespace BarkToken
namespace Wire
open Fallible Bytes Transition

variable {p : Program} {l l' : Ledger}

theorem Program.process_of_decodeInput {env : Env} {accounts : List AccountInfo} {b : Bytes}
    {request : Request} (h : decodeInput p.interfaces b = .ok request) :
    p.process env accounts b l = p.handle env accounts l request := by
  rw [Program.process, h, ok_bind]

/-- An input for an instruction does what the instruction does. -/
theorem Program.execute_of_instruction {env : Env} {accounts : List AccountInfo} {b : Bytes}
    {ix : BarkToken.TokenInstruction}
    (h : decodeInput p.interfaces b = .ok (.instruction ix)) :
    p.execute env accounts b l = BarkToken.execute p.x env ix accounts l := by
  have hprocess : p.process env accounts b l = BarkToken.process p.x env ix accounts l :=
    process_of_decodeInput h
  unfold Program.execute BarkToken.execute
  cases hok : BarkToken.process p.x env ix accounts l with
  | ok l' => rw [hprocess.trans hok]
  | error e => rw [hprocess.trans hok]

/-- The handlers that are no instruction of a run write nothing. -/
theorem Program.handle_eq_self {env : Env} {accounts : List AccountInfo} {request : Request}
    (hrequest : ∀ ix, request ≠ .instruction ix)
    (h : p.handle env accounts l request = .ok l') : l' = l := by
  cases request with
  | instruction ix => exact absurd rfl (hrequest ix)
  | getAccountDataSizeUninitialized => cases h
  | reallocateUninitialized =>
    simp only [handle, processReallocateUninitialized, bind_eq_ok] at h
    obtain ⟨_, _, _, _, _, _, _, _, _, _, _, _, h⟩ := h
    cases h
  | amountToUiAmount amount | uiAmountToAmount uiAmount | emit start stop =>
    simp only [handle, bind_eq_ok, pure_eq_ok] at h
    obtain ⟨_, _, rfl⟩ := h
    rfl

/-- The event that an input stands for. -/
def InputEvent.event (p : Program) : InputEvent → Event
  | .input env accounts bytes =>
    match decodeInput p.interfaces bytes with
    | .ok (.instruction ix) => .instruction env ix accounts
    | _ => .external
  | .external => .external

/-- An input either executes the instruction it decodes to, or writes nothing. -/
theorem InputEvent.step_event {e : InputEvent} (h : e.step p l l') :
    (e.event p).step p.x l l' := by
  cases e with
  | external => exact h
  | input env accounts bytes =>
    obtain rfl := h
    simp only [event]
    split
    case h_1 ix hix => exact Program.execute_of_instruction hix
    case h_2 hother =>
      show ForeignStep l (p.execute env accounts bytes l)
      have hsame : p.execute env accounts bytes l = l := by
        cases hok : p.process env accounts bytes l with
        | error e => rw [Program.execute, hok]
        | ok l₁ =>
          obtain ⟨request, hrequest, hhandle⟩ := bind_eq_ok.mp hok
          rw [Program.execute, hok]
          exact Program.handle_eq_self (fun ix hix => hother ix (hix ▸ hrequest)) hhandle
      rw [hsame]
      exact ForeignStep.refl l

/-- Sending the bytes that the client functions write. -/
def InputEvent.ofEvent : Event → InputEvent
  | .instruction env ix accounts => .input env accounts ((encode ix).getD [])
  | .external => .external

/-- The client functions write the event's instruction. -/
def Encodes : Event → Prop
  | .instruction _ ix _ => (encode ix).isSome
  | .external => True

theorem InputEvent.step_ofEvent {e : Event} (he : Encodes e) (h : e.step p.x l l') :
    (InputEvent.ofEvent e).step p l l' := by
  cases e with
  | external => exact h
  | instruction env ix accounts =>
    obtain ⟨w, hw⟩ := Option.isSome_iff_exists.mp he
    have hdecode := decodeInput_encodeWith p.interfaces (by decide) (by decide) hw
    show l' = p.execute env accounts ((encode ix).getD []) l
    rw [hw, Option.getD_some, Program.execute_of_instruction hdecode]
    exact h

/-- Bytes do what the instructions they decode to do, and reach no other ledger; and
what instructions reach, the bytes of the client functions do. -/
theorem inputRun_ledgerRun (p : Program) :
    (∀ l inputs l', InputRun p l inputs l' →
      LedgerRun p.x l (inputs.map (InputEvent.event p)) l') ∧
    ∀ l events l', (∀ e ∈ events, Encodes e) → LedgerRun p.x l events l' →
      InputRun p l (events.map InputEvent.ofEvent) l' := by
  refine ⟨fun l inputs l' hrun => ?_, fun l events l' hencodes hrun => ?_⟩
  · exact hrun.relabel (P := fun _ => True) (InputEvent.event p)
      (fun _ _ _ _ => InputEvent.step_event) fun _ _ => trivial
  · exact hrun.relabel InputEvent.ofEvent (fun _ _ _ => InputEvent.step_ofEvent) hencodes

/-- The bytes of a mint, an account of it and ten tokens in it. -/
theorem inputRun_ledgerRun_funded (display : InterestDisplay) :
    ∃ inputs, InputRun ⟨.refusing, display, ⟨fun _ => none, fun _ => none⟩⟩ blankLedger inputs
      fundedLedger :=
  ⟨_, (inputRun_ledgerRun _).2 blankLedger (fundedCalls.map Event.ofCall) fundedLedger
    (by
      intro e he
      simp only [fundedCalls, List.map_cons, List.map_nil, List.mem_cons, List.not_mem_nil,
        or_false] at he
      rcases he with rfl | rfl | rfl <;> rfl)
    (ledgerRun_replay _ _ _)⟩

end Wire
end BarkToken
