import Mathlib.Data.List.Basic
import Mathlib.Data.Sigma.Basic
import Mathlib.Logic.Basic

/-!
# A store of typed entries

A list of entries, each carrying a tag and a value whose type the tag decides.
Reading takes the first entry of a tag; writing replaces that entry where it
stands, or appends one when there is none.
-/

/-- Entries `(t, v)` with `v : V t`, in writing order. -/
abbrev TypedStore (κ : Type) (V : κ → Type) : Type := List (Σ t, V t)

namespace TypedStore

variable {κ : Type} {V : κ → Type}

/-- The tags, in writing order. -/
def tags (m : TypedStore κ V) : List κ := m.map Sigma.fst

@[simp] theorem tags_nil : tags ([] : TypedStore κ V) = [] := rfl

theorem tags_append (m n : TypedStore κ V) : tags (m ++ n) = m.tags ++ n.tags := List.map_append

variable [DecidableEq κ]

/-- The value of the first entry with tag `t`. -/
def get : TypedStore κ V → (t : κ) → Option (V t)
  | [], _ => none
  | ⟨s, v⟩ :: rest, t => if h : s = t then some (h ▸ v) else get rest t

/-- Replaces the first entry with tag `t`, or appends one. -/
def put : TypedStore κ V → (t : κ) → V t → TypedStore κ V
  | [], t, v => [⟨t, v⟩]
  | ⟨s, w⟩ :: rest, t, v => if s = t then ⟨t, v⟩ :: rest else ⟨s, w⟩ :: put rest t v

@[simp] theorem get_nil (t : κ) : get ([] : TypedStore κ V) t = none := rfl

@[simp] theorem get_put_self (m : TypedStore κ V) (t : κ) (v : V t) :
    (m.put t v).get t = some v := by
  induction m with
  | nil => simp [put, get]
  | cons e rest ih =>
    obtain ⟨s, w⟩ := e
    by_cases h : s = t
    · simp only [put, if_pos h, get, dite_true]
    · simp only [put, if_neg h, get, dif_neg h, ih]

@[simp] theorem get_put_of_ne (m : TypedStore κ V) {t u : κ} (v : V t) (h : u ≠ t) :
    (m.put t v).get u = m.get u := by
  induction m with
  | nil => simp only [put, get, dif_neg (Ne.symm h)]
  | cons e rest ih =>
    obtain ⟨s, w⟩ := e
    by_cases hs : s = t
    · subst hs
      simp only [put, if_true, get, dif_neg (Ne.symm h)]
    · simp only [put, if_neg hs, get, ih]

@[simp] theorem put_put (m : TypedStore κ V) (t : κ) (v w : V t) :
    (m.put t v).put t w = m.put t w := by
  induction m with
  | nil => simp only [put, if_true]
  | cons e rest ih =>
    obtain ⟨s, x⟩ := e
    by_cases hs : s = t
    · simp only [put, if_pos hs, if_true]
    · simp only [put, if_neg hs, ih]

theorem mem_tags_iff {m : TypedStore κ V} {t : κ} : t ∈ m.tags ↔ (m.get t).isSome := by
  induction m with
  | nil => simp
  | cons e rest ih =>
    obtain ⟨s, w⟩ := e
    simp only [tags] at ih
    by_cases h : s = t
    · subst h
      simp [tags, get]
    · simp only [tags, List.map_cons, List.mem_cons, Ne.symm h, false_or, ih, get, dif_neg h]

theorem tags_put_of_mem {m : TypedStore κ V} {t : κ} (v : V t) (h : t ∈ m.tags) :
    (m.put t v).tags = m.tags := by
  induction m with
  | nil => simp at h
  | cons e rest ih =>
    obtain ⟨s, w⟩ := e
    by_cases hs : s = t
    · subst hs
      simp [put, tags]
    · have hrest : t ∈ tags rest := by
        rcases List.mem_cons.mp h with h | h
        · exact absurd h.symm hs
        · exact h
      have h' := ih hrest
      simp only [tags] at h'
      simp only [put, if_neg hs, tags, List.map_cons, h']

theorem tags_put_of_not_mem {m : TypedStore κ V} {t : κ} (v : V t) (h : t ∉ m.tags) :
    (m.put t v).tags = m.tags ++ [t] := by
  induction m with
  | nil => rfl
  | cons e rest ih =>
    obtain ⟨s, w⟩ := e
    simp only [tags, List.map_cons, List.mem_cons, not_or] at h
    have h' := ih h.2
    simp only [tags] at h'
    simp only [put, if_neg (Ne.symm h.1), tags, List.map_cons, h', List.cons_append]

theorem mem_tags_put {m : TypedStore κ V} {t u : κ} {v : V t} :
    u ∈ (m.put t v).tags ↔ u = t ∨ u ∈ m.tags := by
  by_cases h : t ∈ m.tags
  · rw [tags_put_of_mem v h]
    exact ⟨Or.inr, fun hu => hu.elim (fun e => e ▸ h) id⟩
  · rw [tags_put_of_not_mem v h, List.mem_append, List.mem_singleton]
    exact or_comm

/-! ### The place of an entry -/

theorem get_append_of_not_mem {m : TypedStore κ V} {t : κ} (h : t ∉ m.tags)
    (n : TypedStore κ V) : get (m ++ n) t = n.get t := by
  induction m with
  | nil => rfl
  | cons e rest ih =>
    obtain ⟨s, w⟩ := e
    simp only [tags, List.map_cons, List.mem_cons, not_or] at h
    simp only [List.cons_append, get, dif_neg (Ne.symm h.1)]
    exact ih h.2

/-- A value read is that of an entry with no entry of its tag before it. -/
theorem exists_split_of_get {m : TypedStore κ V} {t : κ} {v : V t} (h : m.get t = some v) :
    ∃ l r, m = l ++ ⟨t, v⟩ :: r ∧ t ∉ tags l := by
  induction m with
  | nil => cases h
  | cons e rest ih =>
    obtain ⟨s, w⟩ := e
    by_cases hs : s = t
    · subst hs
      simp only [get, dite_true, Option.some.injEq] at h
      subst h
      exact ⟨[], rest, rfl, List.not_mem_nil⟩
    · simp only [get, dif_neg hs] at h
      obtain ⟨l, r, hrest, hl⟩ := ih h
      refine ⟨⟨s, w⟩ :: l, r, by rw [hrest, List.cons_append], ?_⟩
      simp only [tags, List.map_cons, List.mem_cons, not_or]
      exact ⟨Ne.symm hs, hl⟩

theorem put_split {l : TypedStore κ V} {t : κ} (h : t ∉ tags l) (v w : V t)
    (r : TypedStore κ V) : put (l ++ ⟨t, v⟩ :: r) t w = l ++ ⟨t, w⟩ :: r := by
  induction l with
  | nil => simp only [List.nil_append, put, if_true]
  | cons e rest ih =>
    obtain ⟨s, x⟩ := e
    simp only [tags, List.map_cons, List.mem_cons, not_or] at h
    simp only [List.cons_append, put, if_neg (Ne.symm h.1)]
    rw [ih h.2]

/-- Writing back what is there changes nothing. -/
theorem put_eq_self {m : TypedStore κ V} {t : κ} {v : V t} (h : m.get t = some v) :
    m.put t v = m := by
  obtain ⟨l, r, rfl, hl⟩ := exists_split_of_get h
  exact put_split hl v v r

theorem put_of_not_mem {m : TypedStore κ V} {t : κ} (h : t ∉ m.tags) (v : V t) :
    m.put t v = m ++ [⟨t, v⟩] := by
  induction m with
  | nil => rfl
  | cons e rest ih =>
    obtain ⟨s, w⟩ := e
    simp only [tags, List.map_cons, List.mem_cons, not_or] at h
    simp only [put, if_neg (Ne.symm h.1), List.cons_append]
    rw [ih h.2]

theorem mem_put {m : TypedStore κ V} {t : κ} {v : V t} {e : Σ t, V t} (h : e ∈ m.put t v) :
    e = ⟨t, v⟩ ∨ e ∈ m := by
  by_cases ht : t ∈ m.tags
  · obtain ⟨w, hw⟩ := Option.isSome_iff_exists.mp (mem_tags_iff.mp ht)
    obtain ⟨l, r, hm, hl⟩ := exists_split_of_get hw
    rw [hm, put_split hl, List.mem_append, List.mem_cons] at h
    rw [hm, List.mem_append, List.mem_cons]
    rcases h with h | h | h
    · exact Or.inr (Or.inl h)
    · exact Or.inl h
    · exact Or.inr (Or.inr (Or.inr h))
  · rw [put_of_not_mem ht, List.mem_append, List.mem_singleton] at h
    exact h.symm

theorem nodup_tags_put {m : TypedStore κ V} (h : m.tags.Nodup) (t : κ) (v : V t) :
    (m.put t v).tags.Nodup := by
  by_cases ht : t ∈ m.tags
  · rw [tags_put_of_mem v ht]
    exact h
  · rw [tags_put_of_not_mem v ht]
    refine List.nodup_append.mpr ⟨h, List.pairwise_singleton _ t, fun u hu w hw huw => ht ?_⟩
    rw [← List.mem_singleton.mp hw, ← huw]
    exact hu

/-- The order of distinct entries does not matter to a reader. -/
theorem get_perm {m n : TypedStore κ V} (h : m.Perm n) (hm : m.tags.Nodup) (t : κ) :
    m.get t = n.get t := by
  induction h with
  | nil => rfl
  | cons e _ ih =>
    obtain ⟨s, w⟩ := e
    have hrest := (List.nodup_cons.mp hm).2
    simp only [get, ih hrest]
  | swap e f rest =>
    obtain ⟨s, w⟩ := e
    obtain ⟨u, x⟩ := f
    have hne : u ≠ s := by
      intro hus
      subst hus
      exact (List.nodup_cons.mp hm).1 List.mem_cons_self
    by_cases hs : s = t
    · subst hs
      simp only [get, dif_neg hne]
    · simp only [get, dif_neg hs]
  | trans h _ ihm ihn =>
    rw [ihm hm]
    exact ihn ((h.map Sigma.fst).nodup_iff.mp hm)

theorem get_eq_none_iff {m : TypedStore κ V} {t : κ} : m.get t = none ↔ t ∉ m.tags := by
  rw [mem_tags_iff, Option.not_isSome_iff_eq_none]

end TypedStore
