import Mathlib.Data.Nat.Basic
import Mathlib.Logic.Function.Basic

/-!
# Members numbered from the counter of their group

Every group has a counter, if it is open, and every member a group and a number
in it. A new member takes the next number.
-/

variable {γ κ : Type}

/-- The members of a group have different numbers, none of them beyond its
counter. -/
structure Numbered (counter : γ → Option ℕ) (entry : κ → Option (γ × ℕ)) : Prop where
  counted : ∀ k g n, entry k = some (g, n) → ∃ size, counter g = some size ∧ 1 ≤ n ∧ n ≤ size
  distinct : ∀ j k g n, entry j = some (g, n) → entry k = some (g, n) → j = k

namespace Numbered

variable {counter counter' : γ → Option ℕ} {entry entry' : κ → Option (γ × ℕ)}

theorem empty (counter : γ → Option ℕ) (h : ∀ k, entry k = none) : Numbered counter entry where
  counted k g n hk := by
    rw [h k] at hk
    cases hk
  distinct j k g n hj := by
    rw [h j] at hj
    cases hj

/-- Members may leave, and a counter without members may do anything. -/
theorem shrink (h : Numbered counter entry) (hentry : ∀ k p, entry' k = some p → entry k = some p)
    (hcounter : ∀ k g n size, entry' k = some (g, n) → counter g = some size →
      counter' g = some size) : Numbered counter' entry' where
  counted k g n hk := by
    obtain ⟨size, hsize, hle⟩ := h.counted k g n (hentry k _ hk)
    exact ⟨size, hcounter k g n size hk hsize, hle⟩
  distinct j k g n hj hk := h.distinct j k g n (hentry j _ hj) (hentry k _ hk)

/-- No member has the next number. -/
theorem next_free (h : Numbered counter entry) {g : γ} {size : ℕ} (hg : counter g = some size)
    (k : κ) : entry k ≠ some (g, size + 1) := by
  intro hk
  obtain ⟨size', hsize', -, hle⟩ := h.counted k g (size + 1) hk
  obtain rfl := Option.some.inj (hg.symm.trans hsize')
  omega

variable [DecidableEq γ] [DecidableEq κ]

/-- A new member takes the next number of its group. -/
theorem register (h : Numbered counter entry) {g : γ} {size : ℕ} (hg : counter g = some size)
    {k : κ} : Numbered (Function.update counter g (some (size + 1)))
      (Function.update entry k (some (g, size + 1))) where
  counted j g' n hj := by
    by_cases hjk : j = k
    · subst hjk
      rw [Function.update_self] at hj
      obtain ⟨rfl, rfl⟩ := Prod.mk.inj (Option.some.inj hj)
      exact ⟨_, Function.update_self .., by omega, le_rfl⟩
    · rw [Function.update_of_ne hjk] at hj
      obtain ⟨size', hsize', hpos, hle⟩ := h.counted j g' n hj
      by_cases hgg : g' = g
      · subst hgg
        obtain rfl := Option.some.inj (hg.symm.trans hsize')
        exact ⟨_, Function.update_self .., hpos, by omega⟩
      · exact ⟨size', by rw [Function.update_of_ne hgg, hsize'], hpos, hle⟩
  distinct i j g' n hi hj := by
    by_cases hik : i = k <;> by_cases hjk : j = k
    · exact hik.trans hjk.symm
    · rw [hik, Function.update_self] at hi
      rw [Function.update_of_ne hjk, ← hi] at hj
      exact absurd hj (h.next_free hg j)
    · rw [hjk, Function.update_self] at hj
      rw [Function.update_of_ne hik, ← hj] at hi
      exact absurd hi (h.next_free hg i)
    · rw [Function.update_of_ne hik] at hi
      rw [Function.update_of_ne hjk] at hj
      exact h.distinct i j g' n hi hj

end Numbered
