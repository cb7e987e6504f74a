import Mathlib.Data.List.Basic

/-!
# Fixed buffers

The operations of a mutable slice whose indices are checked: `none` stands for
an index out of range. A write keeps the length of the buffer.
-/

namespace Buffer

variable {α : Type}

/-- `b[i..j]`. -/
def slice (b : List α) (i j : ℕ) : Option (List α) :=
  if i ≤ j ∧ j ≤ b.length then some ((b.drop i).take (j - i)) else none

/-- `b[i..i + v.len()].copy_from_slice(v)`. -/
def write (b : List α) (i : ℕ) (v : List α) : Option (List α) :=
  if i + v.length ≤ b.length then some (b.take i ++ v ++ b.drop (i + v.length)) else none

/-- `b.copy_within(i..j, k)`. -/
def copyWithin (b : List α) (i j k : ℕ) : Option (List α) := (slice b i j).bind (write b k)

/-- `b[i..j].fill(x)`. -/
def fill (b : List α) (i j : ℕ) (x : α) : Option (List α) :=
  (slice b i j).bind fun v => write b i (List.replicate v.length x)

/-! ### Slices -/

theorem length_of_slice {b v : List α} {i j : ℕ} (h : slice b i j = some v) :
    v.length = j - i := by
  unfold slice at h
  split at h
  case isTrue hij =>
    cases h
    rw [List.length_take, List.length_drop]
    omega
  case isFalse => cases h

theorem slice_isSome {b : List α} {i j : ℕ} (hij : i ≤ j) (hj : j ≤ b.length) :
    slice b i j = some ((b.drop i).take (j - i)) := if_pos ⟨hij, hj⟩

/-- A slice between two parts of a buffer. -/
theorem slice_append {p v r : List α} {i j : ℕ} (hi : p.length = i) (hj : i + v.length = j) :
    slice (p ++ v ++ r) i j = some v := by
  subst hi
  subst hj
  have hlen : p.length + v.length ≤ (p ++ v ++ r).length := by
    simp only [List.length_append]
    omega
  rw [slice_isSome (Nat.le_add_right _ _) hlen, List.append_assoc, List.drop_left,
    Nat.add_sub_cancel_left, List.take_left]

/-! ### Writes -/

theorem length_of_write {b v c : List α} {i : ℕ} (h : write b i v = some c) :
    c.length = b.length := by
  unfold write at h
  split at h
  case isTrue hi =>
    cases h
    simp only [List.length_append, List.length_take, List.length_drop]
    omega
  case isFalse => cases h

theorem write_isSome {b v : List α} {i : ℕ} (h : i + v.length ≤ b.length) :
    write b i v = some (b.take i ++ v ++ b.drop (i + v.length)) := if_pos h

theorem write_append {p v w r : List α} {i : ℕ} (hi : p.length = i) (hw : w.length = v.length) :
    write (p ++ v ++ r) i w = some (p ++ w ++ r) := by
  subst hi
  have hlen : p.length + w.length ≤ (p ++ v ++ r).length := by
    simp only [List.length_append]
    omega
  have htake : (p ++ v ++ r).take p.length = p := by rw [List.append_assoc, List.take_left]
  have hdrop : (p ++ v ++ r).drop (p.length + v.length) = r := by
    rw [← List.length_append, List.drop_left]
  rw [write_isSome hlen, hw, htake, hdrop]

theorem length_of_copyWithin {b c : List α} {i j k : ℕ} (h : copyWithin b i j k = some c) :
    c.length = b.length := by
  obtain ⟨v, _, hw⟩ := Option.bind_eq_some_iff.mp h
  exact length_of_write hw

theorem length_of_fill {b c : List α} {i j : ℕ} {x : α} (h : fill b i j x = some c) :
    c.length = b.length := by
  obtain ⟨v, _, hw⟩ := Option.bind_eq_some_iff.mp h
  exact length_of_write hw
theorem fill_append {p v r : List α} {i j : ℕ} (x : α) (hi : p.length = i)
    (hj : i + v.length = j) :
    fill (p ++ v ++ r) i j x = some (p ++ List.replicate v.length x ++ r) := by
  rw [fill, slice_append hi hj, Option.bind_some]
  exact write_append hi List.length_replicate

/-- Nothing to fill. -/
theorem fill_self {b c : List α} {i : ℕ} {x : α} (h : fill b i i x = some c) : c = b := by
  obtain ⟨v, hv, hw⟩ := Option.bind_eq_some_iff.mp h
  have hnil : v = [] := List.eq_nil_of_length_eq_zero (by rw [length_of_slice hv, Nat.sub_self])
  rw [hnil, List.length_nil, List.replicate_zero, write] at hw
  split at hw
  case isTrue =>
    rw [List.append_nil, List.length_nil, Nat.add_zero, List.take_append_drop] at hw
    exact (Option.some.inj hw).symm
  case isFalse => cases hw

/-! ### Moving the end of a part -/

/-- `m` moved down over the end of `o`, and the gap behind it filled. -/
theorem copyWithin_fill_shrink {p o m z : List α} {n : ℕ} (x : α) (hn : n ≤ o.length) :
    (copyWithin (p ++ o ++ m ++ z) (p.length + o.length)
        (p.length + o.length + m.length) (p.length + n)).bind
      (fun b => fill b (p.length + n + m.length) (p.length + o.length + m.length) x) =
      some (p ++ o.take n ++ m ++ (List.replicate (o.length - n) x ++ z)) := by
  have hslice : slice (p ++ o ++ m ++ z) (p.length + o.length)
      (p.length + o.length + m.length) = some m := by
    have happ := slice_append (p := p ++ o) (v := m) (r := z) List.length_append rfl
    exact happ
  -- the bytes the move overwrites, and those it leaves behind
  have hsplit : p ++ o ++ m ++ z =
      p ++ o.take n ++ (o.drop n ++ m).take m.length ++
        ((o.drop n ++ m).drop m.length ++ z) := by
    have hold := List.take_append_drop n o
    have hmid := List.take_append_drop m.length (o.drop n ++ m)
    calc p ++ o ++ m ++ z
        = p ++ (o.take n ++ o.drop n) ++ m ++ z := by rw [hold]
      _ = p ++ o.take n ++ (o.drop n ++ m) ++ z := by simp only [List.append_assoc]
      _ = p ++ o.take n ++ ((o.drop n ++ m).take m.length ++
            (o.drop n ++ m).drop m.length) ++ z := by rw [hmid]
      _ = _ := by simp only [List.append_assoc]
  have hp : (p ++ o.take n).length = p.length + n := by
    rw [List.length_append, List.length_take, Nat.min_eq_left hn]
  have hcopy : copyWithin (p ++ o ++ m ++ z) (p.length + o.length)
      (p.length + o.length + m.length) (p.length + n) =
        some (p ++ o.take n ++ m ++ ((o.drop n ++ m).drop m.length ++ z)) := by
    rw [copyWithin, hslice, Option.bind_some, hsplit]
    refine write_append hp ?_
    rw [List.length_take, List.length_append]
    omega
  have hgap : ((o.drop n ++ m).drop m.length).length = o.length - n := by
    rw [List.length_drop, List.length_append, List.length_drop]
    omega
  rw [hcopy, Option.bind_some, ← List.append_assoc, fill_append x ?_ ?_, hgap, List.append_assoc]
  · rw [List.length_append, hp]
  · rw [hgap]
    omega

/-- `m` moved up, over the first of the bytes behind it, and the gap filled. -/
theorem copyWithin_fill_grow {p o m z : List α} {n : ℕ} (x : α) (hn : o.length ≤ n)
    (hz : n - o.length ≤ z.length) :
    (copyWithin (p ++ o ++ m ++ z) (p.length + o.length)
        (p.length + o.length + m.length) (p.length + n)).bind
      (fun b => fill b (p.length + o.length) (p.length + n) x) =
      some (p ++ (o ++ List.replicate (n - o.length) x) ++ m ++ z.drop (n - o.length)) := by
  have hslice : slice (p ++ o ++ m ++ z) (p.length + o.length)
      (p.length + o.length + m.length) = some m := by
    have happ := slice_append (p := p ++ o) (v := m) (r := z) List.length_append rfl
    exact happ
  have hsplit : p ++ o ++ m ++ z =
      p ++ o ++ (m ++ z).take (n - o.length) ++
        ((m ++ z.take (n - o.length)).drop (n - o.length)) ++ z.drop (n - o.length) := by
    have hz' := List.take_append_drop (n - o.length) z
    have hmid := List.take_append_drop (n - o.length) (m ++ z.take (n - o.length))
    have htake : (m ++ z).take (n - o.length) =
        (m ++ z.take (n - o.length)).take (n - o.length) := by
      simp only [List.take_append, List.take_take, Nat.min_eq_left (Nat.sub_le _ _)]
    calc p ++ o ++ m ++ z
        = p ++ o ++ (m ++ z.take (n - o.length)) ++ z.drop (n - o.length) := by
          rw [List.append_assoc _ m z, List.append_assoc _ (m ++ _), List.append_assoc m, hz']
      _ = _ := by
          rw [htake]
          conv_lhs => rw [← hmid]
          simp only [List.append_assoc]
  have hgap : ((m ++ z).take (n - o.length)).length = n - o.length := by
    rw [List.length_take, List.length_append]
    omega
  have hmoved : ((m ++ z.take (n - o.length)).drop (n - o.length)).length = m.length := by
    rw [List.length_drop, List.length_append, List.length_take]
    omega
  have hp : (p ++ o ++ (m ++ z).take (n - o.length)).length = p.length + n := by
    rw [List.length_append, hgap, List.length_append]
    omega
  have hcopy : copyWithin (p ++ o ++ m ++ z) (p.length + o.length)
      (p.length + o.length + m.length) (p.length + n) =
        some (p ++ o ++ (m ++ z).take (n - o.length) ++ m ++ z.drop (n - o.length)) := by
    rw [copyWithin, hslice, Option.bind_some, hsplit]
    exact write_append hp hmoved.symm
  rw [hcopy, Option.bind_some, List.append_assoc (p ++ o ++ _), fill_append x ?_ ?_, hgap]
  · simp only [List.append_assoc]
  · rw [List.length_append]
  · rw [hgap]
    omega

end Buffer
