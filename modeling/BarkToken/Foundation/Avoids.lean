import BarkToken.Foundation.Buffered

/-!
# Errors that never come back

Which error a computation cannot end with, read off its steps in order.
-/

namespace Fallible

variable {ε α β : Type} {e : ε}

/-- `x` does not fail with `e`. -/
def Avoids (e : ε) (x : Except ε α) : Prop := x ≠ .error e

namespace Avoids

theorem ok (a : α) : Avoids e (.ok a : Except ε α) := fun h => nomatch h

theorem pure (a : α) : Avoids e (pure a : Except ε α) := fun h => nomatch h

theorem error {e' : ε} (h : e' ≠ e) : Avoids e (.error e' : Except ε α) := by
  intro heq
  cases heq
  exact h rfl

theorem of_eq_ok {x : Except ε α} {a : α} (h : x = .ok a) : Avoids e x := h ▸ ok a

theorem bind {x : Except ε α} {f : α → Except ε β} (hx : Avoids e x)
    (hf : ∀ a, x = .ok a → Avoids e (f a)) : Avoids e (x >>= f) := by
  cases x with
  | error e' =>
    intro h
    cases h
    exact hx rfl
  | ok a => exact hf a rfl

theorem ensure {p : Prop} {_ : Decidable p} {e' : ε} (h : e' ≠ e) :
    Avoids e (ensure p e') := by
  unfold Fallible.ensure
  split
  · exact ok ()
  · exact error h

theorem okOr {x : Option α} {e' : ε} (h : e' ≠ e) : Avoids e (okOr x e') := by
  cases x with
  | none => exact error h
  | some a => exact ok a

theorem mapErr {x : Except ε α} {f : ε → ε} (h : ∀ e', f e' ≠ e) : Avoids e (mapErr x f) := by
  cases x with
  | error e' => exact error (h e')
  | ok a => exact ok a

/-- Where an invariant of the passes rules the error out of each one. -/
theorem loop_invariant {f : β → α → Except ε β} (P : β → Prop)
    (hstep : ∀ s x u, P s → f s x = .ok u → P u) (hf : ∀ s x, P s → Avoids e (f s x)) (xs : List α)
    (s : β) (hs : P s) : Avoids e (loop f xs s) := by
  induction xs generalizing s with
  | nil => exact ok s
  | cons x xs ih => exact bind (hf s x hs) fun u hu => ih u (hstep s x u hs hu)

theorem loop {f : β → α → Except ε β} (hf : ∀ s x, Avoids e (f s x)) (xs : List α) (s : β) :
    Avoids e (loop f xs s) :=
  loop_invariant (fun _ => True) (fun _ _ _ _ _ => trivial) (fun s x _ => hf s x) xs s trivial

theorem ite {p : Prop} {_ : Decidable p} {x y : Except ε α} (hx : p → Avoids e x)
    (hy : ¬ p → Avoids e y) : Avoids e (if p then x else y) := by
  split
  case isTrue h => exact hx h
  case isFalse h => exact hy h

end Avoids
end Fallible

namespace Buffered

variable {σ ε α β : Type} {e : ε} {s : σ}

/-- From the buffer `s`, `x` does not fail with `e`. -/
def AvoidsFrom (e : ε) (s : σ) (x : Buffered σ ε α) : Prop := Fallible.Avoids e (x.run s).1

namespace AvoidsFrom

theorem pure (a : α) : AvoidsFrom e s (pure a : Buffered σ ε α) := Fallible.Avoids.ok a

theorem bind {x : Buffered σ ε α} {g : α → Buffered σ ε β} (hx : AvoidsFrom e s x)
    (hg : ∀ a t, x.run s = (.ok a, t) → AvoidsFrom e t (g a)) : AvoidsFrom e s (x >>= g) := by
  rcases hrun : x.run s with ⟨e' | a, t⟩
  · rw [AvoidsFrom, bind_of_error hrun]
    rw [AvoidsFrom, hrun] at hx
    exact fun h => hx (congrArg _ (Except.error.inj h))
  · rw [AvoidsFrom, bind_of_ok hrun]
    exact hg a t hrun

theorem reads_bind {f : σ → Except ε α} {g : α → Buffered σ ε β} (hf : Fallible.Avoids e (f s))
    (hg : ∀ a, f s = .ok a → AvoidsFrom e s (g a)) : AvoidsFrom e s (reads f >>= g) := by
  refine bind hf fun a t hrun => ?_
  obtain ⟨ha, rfl⟩ := Prod.mk.inj hrun
  exact hg a ha

theorem check_bind {p : Prop} [Decidable p] {e' : ε} {g : Unit → Buffered σ ε β}
    (hp : ¬ p → e' ≠ e) (hg : p → AvoidsFrom e s (g ())) :
    AvoidsFrom e s (check p e' >>= g) := by
  refine reads_bind ?_ fun _ h => hg (Fallible.ensure_eq_ok.mp h)
  unfold Fallible.ensure
  exact Fallible.Avoids.ite (fun _ => .ok ()) fun h => .error (hp h)

theorem writes {f : σ → Except ε σ} (hf : Fallible.Avoids e (f s)) :
    AvoidsFrom e s (writes f) := by
  rcases hrun : f s with e' | t
  · rw [hrun] at hf
    simp only [AvoidsFrom, Buffered.writes, hrun]
    exact fun h => hf (congrArg _ (Except.error.inj h))
  · rw [AvoidsFrom, writes_of_ok hrun]
    exact Fallible.Avoids.ok ()

theorem writes_bind {f : σ → Except ε σ} {g : Unit → Buffered σ ε β}
    (hf : Fallible.Avoids e (f s)) (hg : ∀ t, f s = .ok t → AvoidsFrom e t (g ())) :
    AvoidsFrom e s (Buffered.writes f >>= g) :=
  bind (writes hf) fun _ t hrun => hg t (writes_eq_ok.mp hrun)

end AvoidsFrom
end Buffered
