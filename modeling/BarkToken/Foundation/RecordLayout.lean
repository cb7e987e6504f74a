import Mathlib.Data.List.Basic

/-!
# Records in fixed places

A record is laid out as fields of fixed widths, one behind the other. A field is
written over what was there and may keep some of it. Where every field reads back
what was written, and writes back what was read, the whole record does.
-/

/-- A value of fixed width: how it is written over old symbols, and when they read as it. -/
structure FieldCodec (σ β : Type) where
  width : ℕ
  write : β → List σ → List σ
  Reads : List σ → β → Prop
  length_write : ∀ v p, p.length = width → (write v p).length = width
  reads_write : ∀ v p, p.length = width → Reads (write v p) v
  write_of_reads : ∀ v p, p.length = width → Reads p v → write v p = p

/-- A field of a record: `Same` says that two records have the same value in it. -/
structure RecordField (σ α : Type) where
  width : ℕ
  write : α → List σ → List σ
  Reads : List σ → α → Prop
  Same : α → α → Prop
  same_refl : ∀ x, Same x x
  length_write : ∀ x p, p.length = width → (write x p).length = width
  reads_write : ∀ x p, p.length = width → Reads (write x p) x
  write_of_same : ∀ x y p, p.length = width → Reads p x → Same x y → write y p = p

/-- The field that holds `get x`. -/
def FieldCodec.at {σ α β : Type} (c : FieldCodec σ β) (get : α → β) : RecordField σ α where
  width := c.width
  write x := c.write (get x)
  Reads p x := c.Reads p (get x)
  Same x y := get x = get y
  same_refl _ := rfl
  length_write x := c.length_write (get x)
  reads_write x := c.reads_write (get x)
  write_of_same _ y p hp hread hsame := c.write_of_reads (get y) p hp (hsame ▸ hread)

/-- The fields of a record, in the order they are laid out in. -/
abbrev RecordLayout (σ α : Type) : Type := List (RecordField σ α)

namespace RecordLayout

variable {σ α : Type}

def width : RecordLayout σ α → ℕ
  | [] => 0
  | f :: fields => f.width + width fields

/-- The record written over a buffer. -/
def write : RecordLayout σ α → α → List σ → List σ
  | [], _, _ => []
  | f :: fields, x, b => f.write x (b.take f.width) ++ write fields x (b.drop f.width)

/-- Every field of the buffer reads as the record's. -/
def Reads : RecordLayout σ α → List σ → α → Prop
  | [], _, _ => True
  | f :: fields, b, x => f.Reads (b.take f.width) x ∧ Reads fields (b.drop f.width) x

/-- The position is in a field in which the two records differ. -/
def Touches : RecordLayout σ α → α → α → ℕ → Prop
  | [], _, _, _ => False
  | f :: fields, x, y, i => if i < f.width then ¬ f.Same x y else Touches fields x y (i - f.width)

@[simp] theorem width_nil : width ([] : RecordLayout σ α) = 0 := rfl

@[simp] theorem width_cons (f : RecordField σ α) (fields : RecordLayout σ α) :
    width (f :: fields) = f.width + width fields := rfl

theorem length_write (fields : RecordLayout σ α) (x : α) {b : List σ}
    (h : b.length = width fields) : (write fields x b).length = width fields := by
  induction fields generalizing b with
  | nil => rfl
  | cons f fields ih =>
    rw [width_cons] at h
    have htake : (b.take f.width).length = f.width := by
      rw [List.length_take]
      omega
    have hdrop : (b.drop f.width).length = width fields := by
      rw [List.length_drop]
      omega
    rw [write, List.length_append, f.length_write x _ htake, ih hdrop, width_cons]

/-- What has been written is read. -/
theorem reads_write (fields : RecordLayout σ α) (x : α) {b : List σ}
    (h : b.length = width fields) : Reads fields (write fields x b) x := by
  induction fields generalizing b with
  | nil => trivial
  | cons f fields ih =>
    rw [width_cons] at h
    have htake : (b.take f.width).length = f.width := by
      rw [List.length_take]
      omega
    have hdrop : (b.drop f.width).length = width fields := by
      rw [List.length_drop]
      omega
    have hfirst := f.length_write x _ htake
    refine ⟨?_, ?_⟩
    · rw [write, List.take_left' hfirst]
      exact f.reads_write x _ htake
    · rw [write, List.drop_left' hfirst]
      exact ih hdrop

/-- A record written over its own symbols leaves all of them, and another record
leaves those of the fields that it shares. -/
theorem touches_of_ne (fields : RecordLayout σ α) {x y : α} {b : List σ} {i : ℕ}
    (h : b.length = width fields) (hread : Reads fields b x)
    (hne : (write fields y b)[i]? ≠ b[i]?) : Touches fields x y i := by
  induction fields generalizing b i with
  | nil =>
    obtain rfl := List.eq_nil_of_length_eq_zero h
    exact absurd rfl hne
  | cons f fields ih =>
    rw [width_cons] at h
    have htake : (b.take f.width).length = f.width := by
      rw [List.length_take]
      omega
    have hdrop : (b.drop f.width).length = width fields := by
      rw [List.length_drop]
      omega
    have hfirst := f.length_write y _ htake
    rw [write] at hne
    rw [Touches]
    split
    case isTrue hi =>
      intro hsame
      rw [f.write_of_same x y _ htake hread.1 hsame, List.getElem?_append_left (by omega),
        List.getElem?_take_of_lt hi] at hne
      exact hne rfl
    case isFalse hi =>
      rw [List.getElem?_append_right (by omega), hfirst] at hne
      refine ih hdrop hread.2 ?_
      rw [List.getElem?_drop, Nat.add_sub_cancel' (by omega)]
      exact hne

theorem not_touches_self (fields : RecordLayout σ α) (x : α) (i : ℕ) : ¬ Touches fields x x i := by
  induction fields generalizing i with
  | nil => exact id
  | cons f fields ih =>
    rw [Touches]
    split
    · exact fun h => h (f.same_refl x)
    · exact ih _

/-- What has been read is written back. -/
theorem write_of_reads (fields : RecordLayout σ α) {x : α} {b : List σ}
    (h : b.length = width fields) (hread : Reads fields b x) : write fields x b = b := by
  refine List.ext_getElem? fun i => ?_
  by_contra hne
  exact not_touches_self fields x i (touches_of_ne fields h hread hne)

end RecordLayout
