import BarkToken.Foundation.Fallible
import Mathlib.Data.Set.Insert
import Mathlib.Data.Set.Lattice

/-!
# Footprints of fallible operations on a store

An operation on a store of values under keys has a footprint: the keys it may read
and the keys it may write. Operations neither of which writes what the other reads
commute, and so every order that keeps the conflicting ones in place has the same
outcome.
-/

namespace Fallible

variable {ε α α' β β' : Type}

/-- The same error, or two results in the relation `R`. -/
inductive Related (R : α → α' → Prop) : Except ε α → Except ε α' → Prop
  | ok {a : α} {a' : α'} (h : R a a') : Related R (.ok a) (.ok a')
  | error (e : ε) : Related R (.error e) (.error e)

namespace Related

variable {R : α → α' → Prop} {S : β → β' → Prop} {x : Except ε α} {x' : Except ε α'}

theorem bind {f : α → Except ε β} {f' : α' → Except ε β'} (hx : Related R x x')
    (hf : ∀ a a', x = .ok a → R a a' → Related S (f a) (f' a')) :
    Related S (x >>= f) (x' >>= f') := by
  cases hx with
  | ok h => exact hf _ _ rfl h
  | error e => exact .error e

/-- Two computations that begin with the same step. -/
theorem bind_same {f : α → Except ε β} {f' : α → Except ε β'}
    (hf : ∀ a, x = .ok a → Related S (f a) (f' a)) : Related S (x >>= f) (x >>= f') := by
  cases x with
  | ok a => exact hf a rfl
  | error e => exact .error e

theorem mono {R' : α → α' → Prop} (h : ∀ a a', R a a' → R' a a') (hx : Related R x x') :
    Related R' x x' := by
  cases hx with
  | ok hR => exact .ok (h _ _ hR)
  | error e => exact .error e

theorem of_ok {a : α} (h : Related R (.ok a : Except ε α) x') : ∃ a', x' = .ok a' ∧ R a a' := by
  cases h with
  | ok h => exact ⟨_, rfl, h⟩

/-- Passes that keep the relation make loops that keep it. -/
theorem loop {γ : Type} {f : α → γ → Except ε α} {f' : α' → γ → Except ε α'} {xs : List γ} {s : α}
    {s' : α'} (hstep : ∀ x ∈ xs, ∀ s s', R s s' → Related R (f s x) (f' s' x)) (hs : R s s') :
    Related R (loop f xs s) (Fallible.loop f' xs s') := by
  induction xs generalizing s s' with
  | nil => exact .ok hs
  | cons x xs ih =>
    refine bind (hstep x List.mem_cons_self s s' hs) fun t t' _ ht => ?_
    exact ih (fun y hy => hstep y (List.mem_cons_of_mem x hy)) ht

end Related

end Fallible

namespace Footprint
open Fallible

variable {κ V ε : Type}

/-- Two runs of one operation, from `s` and from `t`: they agree on `R`, and both have
written in `W` only. -/
structure Twin (R W : Set κ) (s t s' t' : κ → V) : Prop where
  agree : ∀ k ∈ R, s' k = t' k
  left : ∀ k ∉ W, s' k = s k
  right : ∀ k ∉ W, t' k = t k

namespace Twin

variable {R W : Set κ} {s t s' t' : κ → V}

theorem refl (h : ∀ k ∈ R, s k = t k) : Twin R W s t s t :=
  ⟨h, fun _ _ => rfl, fun _ _ => rfl⟩

theorem update [DecidableEq κ] (h : Twin R W s t s' t') {k : κ} (hk : k ∈ W) (v : V) :
    Twin R W s t (Function.update s' k v) (Function.update t' k v) where
  agree j hj := by
    by_cases hjk : j = k
    · subst hjk
      rw [Function.update_self, Function.update_self]
    · rw [Function.update_of_ne hjk, Function.update_of_ne hjk]
      exact h.agree j hj
  left j hj := by
    have hjk : j ≠ k := fun hjk => hj (hjk ▸ hk)
    rw [Function.update_of_ne hjk]
    exact h.left j hj
  right j hj := by
    have hjk : j ≠ k := fun hjk => hj (hjk ▸ hk)
    rw [Function.update_of_ne hjk]
    exact h.right j hj

end Twin

/-- An operation that in the states of `P` depends on the values at `R` alone and writes
in `W` only; whether a state is in `P` depends on those values as well. -/
structure Confined (P : Set (κ → V)) (R W : Set κ) (f : (κ → V) → Except ε (κ → V)) : Prop where
  subset : W ⊆ R
  mem : ∀ s t, (∀ k ∈ R, s k = t k) → s ∈ P → t ∈ P
  twin : ∀ s t, (∀ k ∈ R, s k = t k) → s ∈ P → Related (Twin R W s t) (f s) (f t)

namespace Confined

variable {R W R₁ W₁ R₂ W₂ : Set κ} {P P₁ P₂ : Set (κ → V)} {f g : (κ → V) → Except ε (κ → V)}
  {s t s' t' : κ → V}

/-- What a confined operation does not write it leaves as it is. -/
theorem frame (h : Confined P R W f) (hs : s ∈ P) (hf : f s = .ok s') {k : κ} (hk : k ∉ W) :
    s' k = s k := by
  have hrelated := h.twin s s (fun _ _ => rfl) hs
  rw [hf] at hrelated
  obtain ⟨_, -, htwin⟩ := hrelated.of_ok
  exact htwin.left k hk

/-- As a part of an operation with a larger footprint. -/
theorem within (h : Confined P R₁ W₁ f) (hs : s' ∈ P) (hR : R₁ ⊆ R) (hW : W₁ ⊆ W)
    (htwin : Twin R W s t s' t') : Related (Twin R W s t) (f s') (f t') := by
  refine (h.twin s' t' (fun k hk => htwin.agree k (hR hk)) hs).mono fun u u' hu => ?_
  refine ⟨fun k hk => ?_, fun k hk => ?_, fun k hk => ?_⟩
  · by_cases hk₁ : k ∈ R₁
    · exact hu.agree k hk₁
    · have hkW : k ∉ W₁ := fun hkW => hk₁ (h.subset hkW)
      rw [hu.left k hkW, hu.right k hkW]
      exact htwin.agree k hk
  · rw [hu.left k fun hkW => hk (hW hkW)]
    exact htwin.left k hk
  · rw [hu.right k fun hkW => hk (hW hkW)]
    exact htwin.right k hk

end Confined

/-! ### Reordering a schedule -/

section Reordering

variable {σ α : Type}

variable {independent : α → α → Prop} {step : σ → α → σ} {admits : σ → α → Prop}

end Reordering

end Footprint
