import Mathlib.Algebra.BigOperators.Group.Finset.Basic
import Mathlib.Algebra.BigOperators.Pi
import Mathlib.Algebra.Order.BigOperators.Group.Finset
import Mathlib.Tactic.Abel

/-!
# Sums over a keyed state

A state is a function from a finite key space to records, and a total adds up
what every record contributes. Writing one record changes the total by the
difference of that record's contributions.
-/

namespace KeyedSum

variable {κ ρ : Type} [Fintype κ]

section Group

variable {G : Type*} [AddCommGroup G]

/-- What all records of a state contribute together. -/
def total (contribution : κ → ρ → G) (s : κ → ρ) : G := ∑ k, contribution k (s k)

theorem total_update [DecidableEq κ] (c : κ → ρ → G) (s : κ → ρ) (k : κ) (r : ρ) :
    total c (Function.update s k r) = total c s + (c k r - c k (s k)) := by
  have hupdate : (fun j => c j (Function.update s k r j)) =
      Function.update (fun j => c j (s j)) k (c k r) := by
    funext j
    by_cases h : j = k
    · subst h
      simp
    · simp [Function.update_of_ne h]
  simp only [total, hupdate, Finset.sum_update_of_mem (Finset.mem_univ k)]
  rw [← Finset.add_sum_erase Finset.univ (fun j => c j (s j)) (Finset.mem_univ k),
    Finset.sdiff_singleton_eq_erase]
  abel

/-- A write that keeps the record's contribution keeps the total. -/
theorem total_update_eq [DecidableEq κ] {c : κ → ρ → G} {s : κ → ρ} {k : κ} {r : ρ}
    (h : c k r = c k (s k)) : total c (Function.update s k r) = total c s := by
  rw [total_update, h, sub_self, add_zero]

theorem total_congr {c : κ → ρ → G} {s s' : κ → ρ} (h : ∀ k, c k (s' k) = c k (s k)) :
    total c s' = total c s :=
  Finset.sum_congr rfl fun k _ => h k

theorem total_eq_zero {c : κ → ρ → G} {s : κ → ρ} (h : ∀ k, c k (s k) = 0) : total c s = 0 :=
  Finset.sum_eq_zero fun k _ => h k

/-- A state that differs from another at two keys only. -/
theorem total_of_two [DecidableEq κ] (c : κ → ρ → G) {s t : κ → ρ} {j k : κ} (hjk : j ≠ k)
    (h : ∀ i, i ≠ j → i ≠ k → t i = s i) :
    total c t = total c s + (c j (t j) - c j (s j)) + (c k (t k) - c k (s k)) := by
  have ht : t = Function.update (Function.update s j (t j)) k (t k) := by
    funext i
    by_cases hk : i = k
    · subst hk
      rw [Function.update_self]
    by_cases hj : i = j
    · subst hj
      rw [Function.update_of_ne hk, Function.update_self]
    · rw [Function.update_of_ne hk, Function.update_of_ne hj, h i hj hk]
  conv_lhs => rw [ht]
  rw [total_update, total_update, Function.update_of_ne (Ne.symm hjk)]

end Group

section Ordered

variable {G : Type*} [AddCommGroup G] [PartialOrder G] [IsOrderedAddMonoid G]

/-- With nonnegative contributions, those of some keys are at most the total. -/
theorem sum_le_total {c : κ → ρ → G} {s : κ → ρ} (h : ∀ k, 0 ≤ c k (s k)) (ks : Finset κ) :
    ∑ k ∈ ks, c k (s k) ≤ total c s :=
  Finset.sum_le_sum_of_subset_of_nonneg (Finset.subset_univ ks) fun k _ _ => h k

/-- A total of nonnegative contributions is zero only when each one is. -/
theorem contribution_eq_zero {c : κ → ρ → G} {s : κ → ρ} (h : ∀ k, 0 ≤ c k (s k))
    (hzero : total c s = 0) (k : κ) : c k (s k) = 0 :=
  (Finset.sum_eq_zero_iff_of_nonneg fun j _ => h j).mp hzero k (Finset.mem_univ k)

end Ordered

end KeyedSum
