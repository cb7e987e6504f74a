import BarkToken.Foundation.Fallible

/-!
# Fallible computations on a buffer

A computation reads and writes a buffer through a mutable reference. Unlike a
transaction it has no rollback: what it wrote before an error stays written.
-/

/-- The result, and the buffer left behind. -/
structure Buffered (σ ε α : Type) where
  run : σ → Except ε α × σ

namespace Buffered

variable {σ ε α β : Type}

instance : Monad (Buffered σ ε) where
  pure a := ⟨fun s => (.ok a, s)⟩
  bind x f := ⟨fun s =>
    match x.run s with
    | (.ok a, t) => (f a).run t
    | (.error e, t) => (.error e, t)⟩

/-- Reads the buffer. -/
def reads (f : σ → Except ε α) : Buffered σ ε α := ⟨fun s => (f s, s)⟩

/-- Rewrites the buffer, or leaves it as it is. -/
def writes (f : σ → Except ε σ) : Buffered σ ε Unit := ⟨fun s =>
  match f s with
  | .ok t => (.ok (), t)
  | .error e => (.error e, s)⟩

/-- `if !p { return Err(e) }`. -/
def check (p : Prop) [Decidable p] (e : ε) : Buffered σ ε Unit :=
  reads fun _ => Fallible.ensure p e

/-! ### Evaluation -/

theorem run_pure (a : α) (s : σ) : (pure a : Buffered σ ε α).run s = (.ok a, s) := rfl

theorem run_reads (f : σ → Except ε α) (s : σ) : (reads f).run s = (f s, s) := rfl

theorem bind_of_ok {x : Buffered σ ε α} {f : α → Buffered σ ε β} {s t : σ} {a : α}
    (h : x.run s = (.ok a, t)) : (x >>= f).run s = (f a).run t := by
  simp only [bind, h]

theorem bind_of_error {x : Buffered σ ε α} {f : α → Buffered σ ε β} {s t : σ} {e : ε}
    (h : x.run s = (.error e, t)) : (x >>= f).run s = (.error e, t) := by
  simp only [bind, h]

theorem reads_of_ok {f : σ → Except ε α} {s : σ} {a : α} (h : f s = .ok a) :
    (reads f).run s = (.ok a, s) := by
  rw [run_reads, h]

theorem reads_of_error {f : σ → Except ε α} {s : σ} {e : ε} (h : f s = .error e) :
    (reads f).run s = (.error e, s) := by
  rw [run_reads, h]

theorem writes_of_ok {f : σ → Except ε σ} {s t : σ} (h : f s = .ok t) :
    (writes f).run s = (.ok (), t) := by
  simp only [writes, h]

theorem check_of_pos {p : Prop} [Decidable p] {e : ε} (h : p) (s : σ) :
    (check p e).run s = (.ok (), s) := by
  rw [check, run_reads, Fallible.ensure, if_pos h]

/-! ### Inversion -/

theorem run_bind_eq_ok {x : Buffered σ ε α} {f : α → Buffered σ ε β} {s u : σ} {b : β} :
    (x >>= f).run s = (.ok b, u) ↔ ∃ a t, x.run s = (.ok a, t) ∧ (f a).run t = (.ok b, u) := by
  simp only [bind]
  rcases hx : x.run s with ⟨e | a, t⟩
  · simp
  · constructor
    · intro h
      exact ⟨a, t, rfl, h⟩
    · rintro ⟨_, _, heq, h⟩
      cases heq
      exact h

theorem run_bind_eq_error {x : Buffered σ ε α} {f : α → Buffered σ ε β} {s u : σ} {e : ε} :
    (x >>= f).run s = (.error e, u) ↔ x.run s = (.error e, u) ∨
      ∃ a t, x.run s = (.ok a, t) ∧ (f a).run t = (.error e, u) := by
  simp only [bind]
  rcases hx : x.run s with ⟨e' | a, t⟩
  · simp
  · constructor
    · intro h
      exact Or.inr ⟨a, t, rfl, h⟩
    · rintro (heq | ⟨_, _, heq, h⟩)
      · cases heq
      · cases heq
        exact h

theorem run_pure_eq_ok {a b : α} {s t : σ} :
    (pure a : Buffered σ ε α).run s = (.ok b, t) ↔ a = b ∧ s = t := by
  rw [run_pure, Prod.mk.injEq, Except.ok.injEq]

theorem writes_eq_ok {f : σ → Except ε σ} {s t : σ} {u : Unit} :
    (writes f).run s = (.ok u, t) ↔ f s = .ok t := by
  simp only [writes]
  cases f s <;> simp

theorem writes_eq_error {f : σ → Except ε σ} {s t : σ} {e : ε} :
    (writes f).run s = (.error e, t) ↔ f s = .error e ∧ s = t := by
  simp only [writes]
  cases f s <;> simp

theorem reads_bind_eq_ok {f : σ → Except ε α} {g : α → Buffered σ ε β} {s t : σ} {b : β} :
    (reads f >>= g).run s = (.ok b, t) ↔ ∃ a, f s = .ok a ∧ (g a).run s = (.ok b, t) := by
  rw [run_bind_eq_ok]
  constructor
  · rintro ⟨a, u, h, hg⟩
    obtain ⟨ha, rfl⟩ := Prod.mk.inj h
    exact ⟨a, ha, hg⟩
  · rintro ⟨a, ha, hg⟩
    exact ⟨a, s, reads_of_ok ha, hg⟩

theorem check_bind_eq_ok {p : Prop} [Decidable p] {e : ε} {g : Unit → Buffered σ ε β} {s t : σ}
    {b : β} : (check p e >>= g).run s = (.ok b, t) ↔ p ∧ (g ()).run s = (.ok b, t) := by
  rw [check, reads_bind_eq_ok]
  simp only [Fallible.ensure_eq_ok, Fallible.exists_unit]

theorem writes_bind_eq_ok {f : σ → Except ε σ} {g : Unit → Buffered σ ε β} {s t : σ} {b : β} :
    (writes f >>= g).run s = (.ok b, t) ↔ ∃ u, f s = .ok u ∧ (g ()).run u = (.ok b, t) := by
  rw [run_bind_eq_ok]
  constructor
  · rintro ⟨a, u, h, hg⟩
    exact ⟨u, writes_eq_ok.mp h, hg⟩
  · rintro ⟨u, hu, hg⟩
    exact ⟨(), u, writes_of_ok hu, hg⟩

/-- A read that fails leaves the buffer alone. -/
theorem reads_bind_eq_error {f : σ → Except ε α} {g : α → Buffered σ ε β} {s t : σ} {e : ε} :
    (reads f >>= g).run s = (.error e, t) ↔
      (f s = .error e ∧ t = s) ∨ ∃ a, f s = .ok a ∧ (g a).run s = (.error e, t) := by
  rw [run_bind_eq_error]
  refine or_congr ?_ ?_
  · rw [run_reads, Prod.mk.injEq, eq_comm (a := s)]
  constructor
  · rintro ⟨a, u, h, hg⟩
    obtain ⟨ha, rfl⟩ := Prod.mk.inj h
    exact ⟨a, ha, hg⟩
  · rintro ⟨a, ha, hg⟩
    exact ⟨a, s, reads_of_ok ha, hg⟩

theorem check_bind_eq_error {p : Prop} [Decidable p] {e e' : ε} {g : Unit → Buffered σ ε β}
    {s t : σ} : (check p e' >>= g).run s = (.error e, t) ↔
      ((¬ p ∧ e' = e) ∧ t = s) ∨ (p ∧ (g ()).run s = (.error e, t)) := by
  rw [check, reads_bind_eq_error]
  simp only [Fallible.ensure_eq_ok, Fallible.exists_unit]
  refine or_congr (and_congr ?_ Iff.rfl) Iff.rfl
  rw [Fallible.ensure]
  split <;> simp_all

/-! ### What a computation leaves as it was -/

variable {γ : Type}

/-- `f` of the buffer is the same behind `x`, whatever `x` returns. -/
def Keeps (f : σ → γ) (x : Buffered σ ε α) : Prop := ∀ s, f (x.run s).2 = f s

namespace Keeps

variable {f : σ → γ}

theorem pure (a : α) : Keeps f (pure a : Buffered σ ε α) := fun _ => rfl

theorem reads (g : σ → Except ε α) : Keeps f (reads g) := fun _ => rfl

theorem check (p : Prop) [Decidable p] (e : ε) : Keeps f (check p e) := fun _ => rfl

theorem writes {g : σ → Except ε σ} (h : ∀ s t, g s = .ok t → f t = f s) :
    Keeps f (writes g) := by
  intro s
  rw [Buffered.writes]
  rcases hg : g s with e | t
  · simp only [hg]
  · simp only [hg]
    exact h s t hg

theorem bind {x : Buffered σ ε α} {g : α → Buffered σ ε β} (hx : Keeps f x)
    (hg : ∀ a, Keeps f (g a)) : Keeps f (x >>= g) := by
  intro s
  have hfirst := hx s
  rcases hrun : x.run s with ⟨e | a, t⟩
  · rw [hrun] at hfirst
    rw [bind_of_error hrun]
    exact hfirst
  · rw [hrun] at hfirst
    rw [bind_of_ok hrun, hg a t]
    exact hfirst

end Keeps

end Buffered
