import Mathlib.Logic.Basic

/-!
# Inversion rules for fallible computations

A fallible step is an `Except ε α`. The rules below read a successful run of a
`do` block backwards, one bind at a time, so that no proof about a fallible
function has to unfold the monad.
-/

namespace Fallible

variable {ε α β : Type}

/-- `if !p { return Err(e) }`. -/
def ensure (p : Prop) [Decidable p] (e : ε) : Except ε Unit := if p then .ok () else .error e

/-- `x.ok_or(e)?`. -/
def okOr (x : Option α) (e : ε) : Except ε α :=
  match x with
  | some a => .ok a
  | none => .error e

/-- `x.map_err(f)?`. -/
def mapErr (x : Except ε α) (f : ε → ε) : Except ε α :=
  match x with
  | .ok a => .ok a
  | .error e => .error (f e)

/-- The entries of an option or of a list are looked at one by one, also where their
type is finite. -/
instance (priority := high) decidableForallOption {p : α → Prop} [DecidablePred p] (x : Option α) :
    Decidable (∀ a ∈ x, p a) := Option.decidableForallMem x

instance (priority := high) decidableExistsOption {p : α → Prop} [DecidablePred p] (x : Option α) :
    Decidable (∃ a ∈ x, p a) := Option.decidableExistsMem x

instance (priority := high) decidableForallList {p : α → Prop} [DecidablePred p] (xs : List α) :
    Decidable (∀ a ∈ xs, p a) := List.decidableBAll p xs

/-- `for x in xs { s = f(s, x)?; }`. -/
def loop (f : β → α → Except ε β) : List α → β → Except ε β
  | [], s => .ok s
  | x :: xs, s => (f s x).bind (loop f xs)

/-! ### Inversion -/

theorem bind_eq_ok {x : Except ε α} {f : α → Except ε β} {b : β} :
    (x >>= f) = .ok b ↔ ∃ a, x = .ok a ∧ f a = .ok b := by
  rcases x with e | a
  · simp only [bind, Except.bind, reduceCtorEq, false_and, exists_false]
  · simp only [bind, Except.bind, Except.ok.injEq, exists_eq_left']

theorem pure_eq_ok {a b : α} : (pure a : Except ε α) = .ok b ↔ a = b := by
  simp [pure, Except.pure]

/-- The result of a check carries no information. -/
theorem exists_unit {p : Unit → Prop} : (∃ u, p u) ↔ p () :=
  ⟨fun ⟨_, h⟩ => h, fun h => ⟨(), h⟩⟩

theorem ensure_eq_ok {p : Prop} {_ : Decidable p} {e : ε} {u : Unit} :
    ensure p e = .ok u ↔ p := by
  unfold ensure
  split <;> simp_all

theorem ensure_bind_eq_ok {p : Prop} {_ : Decidable p} {e : ε} {f : Unit → Except ε β} {b : β} :
    (ensure p e >>= f) = .ok b ↔ p ∧ f () = .ok b := by
  simp only [bind_eq_ok, ensure_eq_ok]
  exact ⟨fun ⟨_, hp, hf⟩ => ⟨hp, hf⟩, fun ⟨hp, hf⟩ => ⟨(), hp, hf⟩⟩

theorem okOr_eq_ok {x : Option α} {e : ε} {a : α} : okOr x e = .ok a ↔ x = some a := by
  cases x with
  | none => simp [okOr]
  | some b => simp [okOr]

theorem mapErr_eq_ok {x : Except ε α} {f : ε → ε} {a : α} :
    mapErr x f = .ok a ↔ x = .ok a := by
  cases x with
  | error e => simp [mapErr]
  | ok b => simp [mapErr]

theorem ite_eq_ok {p : Prop} {_ : Decidable p} {x y : Except ε α} {a : α} :
    (if p then x else y) = .ok a ↔ (p ∧ x = .ok a) ∨ (¬ p ∧ y = .ok a) := by
  split <;> simp_all

theorem error_bind {e : ε} {f : α → Except ε β} :
    ((.error e : Except ε α) >>= f) = .error e := rfl

/-- Computations that go on alike after every result are alike. -/
theorem bind_congr_ok {x : Except ε α} {f g : α → Except ε β} (h : ∀ a, x = .ok a → f a = g a) :
    (x >>= f) = (x >>= g) := by
  cases x with
  | error e => rfl
  | ok a => exact h a rfl

theorem ok_bind {a : α} {f : α → Except ε β} : ((.ok a : Except ε α) >>= f) = f a := rfl

/-! ### Loops -/

theorem loop_nil (f : β → α → Except ε β) (s : β) : loop f [] s = .ok s := rfl

theorem loop_cons_eq_ok {f : β → α → Except ε β} {x : α} {xs : List α} {s t : β} :
    loop f (x :: xs) s = .ok t ↔ ∃ u, f s x = .ok u ∧ loop f xs u = .ok t := by
  simp only [loop]
  exact bind_eq_ok

theorem loop_append (f : β → α → Except ε β) (xs ys : List α) (s : β) :
    loop f (xs ++ ys) s = (loop f xs s).bind (loop f ys) := by
  induction xs generalizing s with
  | nil => rfl
  | cons x xs ih =>
    simp only [List.cons_append, loop]
    cases f s x with
    | error e => rfl
    | ok u => exact ih u

/-- A property preserved by every pass of the body holds after the loop. -/
theorem loop_invariant {f : β → α → Except ε β} (P : β → Prop) {xs : List α} {s t : β}
    (hstep : ∀ s x u, x ∈ xs → P s → f s x = .ok u → P u)
    (hs : P s) (hrun : loop f xs s = .ok t) : P t := by
  induction xs generalizing s with
  | nil =>
    simp only [loop_nil, Except.ok.injEq] at hrun
    exact hrun ▸ hs
  | cons x xs ih =>
    obtain ⟨u, hu, hrest⟩ := loop_cons_eq_ok.mp hrun
    exact ih (fun s y v hy => hstep s y v (List.mem_cons_of_mem _ hy))
      (hstep s x u List.mem_cons_self hs hu) hrest

/-- The same rule for a relation between the start of the loop and its end. -/
theorem loop_relation {f : β → α → Except ε β} (R : β → β → Prop) {xs : List α} {s t : β}
    (hrefl : ∀ s, R s s) (htrans : ∀ s u v, R s u → R u v → R s v)
    (hstep : ∀ s x u, x ∈ xs → f s x = .ok u → R s u)
    (hrun : loop f xs s = .ok t) : R s t :=
  loop_invariant (fun u => R s u) (fun u x v hx hu hv => htrans s u v hu (hstep u x v hx hv))
    (hrefl s) hrun

/-- Two bodies that agree wherever the loop gets to make the same loop. -/
theorem loop_congr {f g : β → α → Except ε β} (P : β → Prop)
    (xs : List α) (hstep : ∀ s, ∀ x ∈ xs, ∀ u, P s → f s x = .ok u → P u)
    (hsame : ∀ s, ∀ x ∈ xs, P s → f s x = g s x) (s : β) (hs : P s) :
    loop f xs s = loop g xs s := by
  induction xs generalizing s with
  | nil => rfl
  | cons x xs ih =>
    show (f s x >>= loop f xs) = (g s x >>= loop g xs)
    rw [← hsame s x List.mem_cons_self hs]
    refine bind_congr_ok fun u hu => ih ?_ ?_ u (hstep s x List.mem_cons_self u hs hu)
    · intro s y hy
      exact hstep s y (List.mem_cons_of_mem x hy)
    · intro s y hy
      exact hsame s y (List.mem_cons_of_mem x hy)

end Fallible
