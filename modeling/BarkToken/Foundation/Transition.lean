import Mathlib.Data.List.Basic
import Mathlib.Order.Basic

/-!
# Runs of a labelled transition system

A run is a list of labels, in the order they were taken. The rules below lift
what one step preserves to what a run preserves.
-/

namespace Transition

variable {σ ε : Type}

/-- `labels` lead from one state to another. -/
inductive Run (step : σ → ε → σ → Prop) : σ → List ε → σ → Prop
  | nil (s : σ) : Run step s [] s
  | snoc {s t u : σ} {labels : List ε} {e : ε} (run : Run step s labels t) (last : step t e u) :
      Run step s (labels ++ [e]) u

namespace Run

variable {step : σ → ε → σ → Prop} {s t u : σ} {labels : List ε}

theorem single {e : ε} (h : step s e t) : Run step s [e] t := Run.snoc (Run.nil s) h

theorem append {more : List ε} (h : Run step s labels t) (h' : Run step t more u) :
    Run step s (labels ++ more) u := by
  induction h' with
  | nil => simpa using h
  | snoc _ last ih => simpa using Run.snoc ih last

theorem cons {e : ε} (h : step s e t) (h' : Run step t labels u) : Run step s (e :: labels) u :=
  (single h).append h'

/-- An invariant of the steps whose labels satisfy `P` holds along every run of
such labels. -/
theorem invariant {P : ε → Prop} (Inv : σ → Prop)
    (hstep : ∀ s e t, P e → Inv s → step s e t → Inv t)
    (hrun : Run step s labels t) (hlabels : ∀ e ∈ labels, P e) (hs : Inv s) : Inv t := by
  induction hrun with
  | nil => exact hs
  | snoc _ last ih =>
    refine hstep _ _ _ (hlabels _ (by simp)) (ih fun e he => hlabels e ?_) last
    exact List.mem_append_left _ he

/-- An invariant of every step. -/
theorem invariant_of_step (Inv : σ → Prop) (hstep : ∀ s e t, Inv s → step s e t → Inv t)
    (hrun : Run step s labels t) (hs : Inv s) : Inv t :=
  invariant (P := fun _ => True) Inv (fun s e t _ => hstep s e t) hrun (fun _ _ => trivial) hs

/-- A run whose labels all name the same kind of step is a run of that kind. -/
theorem mono {step' : σ → ε → σ → Prop} {P : ε → Prop}
    (hstep : ∀ s e t, P e → step s e t → step' s e t)
    (hrun : Run step s labels t) (hlabels : ∀ e ∈ labels, P e) : Run step' s labels t := by
  induction hrun with
  | nil => exact Run.nil _
  | snoc _ last ih =>
    refine Run.snoc (ih fun e he => hlabels e (List.mem_append_left _ he)) ?_
    exact hstep _ _ _ (hlabels _ (by simp)) last

/-- A run is followed by a related system, where each step is. -/
theorem simulate {τ : Type} {step' : τ → ε → τ → Prop} (Rel : σ → τ → Prop)
    (hstep : ∀ s e s' t, Rel s t → step s e s' → ∃ t', step' t e t' ∧ Rel s' t')
    (hrun : Run step s labels u) {t : τ} (hs : Rel s t) :
    ∃ t', Run step' t labels t' ∧ Rel u t' := by
  induction hrun with
  | nil => exact ⟨t, Run.nil t, hs⟩
  | snoc _ last ih =>
    obtain ⟨t₁, hrun', hrel⟩ := ih
    obtain ⟨t₂, hlast, hrel'⟩ := hstep _ _ _ _ hrel last
    exact ⟨t₂, hrun'.snoc hlast, hrel'⟩

/-- A run of one system is a run of another, label by label, where steps are steps. -/
theorem relabel {ε' : Type} {step' : σ → ε' → σ → Prop} {P : ε → Prop} (f : ε → ε')
    (hstep : ∀ s e t, P e → step s e t → step' s (f e) t)
    (hrun : Run step s labels t) (hlabels : ∀ e ∈ labels, P e) :
    Run step' s (labels.map f) t := by
  induction hrun with
  | nil => exact Run.nil _
  | snoc _ last ih =>
    rw [List.map_append]
    refine Run.snoc (ih fun e he => hlabels e (List.mem_append_left _ he)) ?_
    exact hstep _ _ _ (hlabels _ (by simp)) last

end Run

/-! ### Histories -/

variable {δ : Type}

/-- A step that also appends to a history what `record` reads off it. -/
def Recorded (step : σ → ε → σ → Prop) (record : σ → ε → σ → List δ) (s : σ × List δ) (e : ε)
    (t : σ × List δ) : Prop :=
  step s.1 e t.1 ∧ t.2 = s.2 ++ record s.1 e t.1

/-- Every run has a history, so recording rules out no run. -/
theorem Run.recorded {step : σ → ε → σ → Prop} {s t : σ} {labels : List ε}
    (hrun : Run step s labels t) (record : σ → ε → σ → List δ) (past : List δ) :
    ∃ history, Run (Recorded step record) (s, past) labels (t, past ++ history) := by
  induction hrun with
  | nil => exact ⟨[], (List.append_nil past).symm ▸ Run.nil _⟩
  | @snoc t u labels e _ last ih =>
    obtain ⟨history, ih⟩ := ih
    exact ⟨history ++ record t e u, ih.snoc ⟨last, (List.append_assoc _ _ _).symm⟩⟩

end Transition
