import Mathlib.Data.List.Basic
import Mathlib.Logic.Equiv.Defs

/-!
# Values of fixed width

A value is written as a fixed number of symbols, and every word of that width is
read as one. A packet of two values is one value again.
-/

/-- A value in `width` symbols; writing and reading undo one another. -/
structure PacketCodec (σ α : Type) where
  width : ℕ
  write : α → List σ
  read : List σ → α
  length_write : ∀ v, (write v).length = width
  read_write : ∀ v, read (write v) = v
  write_read : ∀ b, b.length = width → write (read b) = b

namespace PacketCodec

variable {σ α β : Type}

/-- No value, no symbols. -/
def unit : PacketCodec σ Unit where
  width := 0
  write _ := []
  read _ := ()
  length_write _ := rfl
  read_write _ := rfl
  write_read _ h := (List.eq_nil_of_length_eq_zero h).symm

/-- One symbol. -/
def symbol [Inhabited σ] : PacketCodec σ σ where
  width := 1
  write x := [x]
  read b := b.headD default
  length_write _ := rfl
  read_write _ := rfl
  write_read b h := by
    obtain ⟨x, rfl⟩ := List.length_eq_one_iff.mp h
    rfl

/-- One value behind the other. -/
def pair (c : PacketCodec σ α) (d : PacketCodec σ β) : PacketCodec σ (α × β) where
  width := c.width + d.width
  write v := c.write v.1 ++ d.write v.2
  read b := (c.read (b.take c.width), d.read (b.drop c.width))
  length_write v := by rw [List.length_append, c.length_write, d.length_write]
  read_write v := by
    rw [List.take_left' (c.length_write v.1), List.drop_left' (c.length_write v.1), c.read_write,
      d.read_write]
  write_read b h := by
    have htake : (b.take c.width).length = c.width := by
      rw [List.length_take]
      omega
    have hdrop : (b.drop c.width).length = d.width := by
      rw [List.length_drop]
      omega
    rw [c.write_read _ htake, d.write_read _ hdrop, List.take_append_drop]

/-- The same symbols, read as values of another type. -/
def map (c : PacketCodec σ α) (e : α ≃ β) : PacketCodec σ β where
  width := c.width
  write v := c.write (e.symm v)
  read b := e (c.read b)
  length_write v := c.length_write (e.symm v)
  read_write v := by rw [c.read_write, e.apply_symm_apply]
  write_read b h := by rw [e.symm_apply_apply, c.write_read b h]

variable (c : PacketCodec σ α)

/-- The value at the front of a longer word. -/
theorem read_front (v : α) (y : List σ) : c.read ((c.write v ++ y).take c.width) = v := by
  rw [List.take_left' (c.length_write v), c.read_write]

theorem drop_front (v : α) (y : List σ) : (c.write v ++ y).drop c.width = y :=
  List.drop_left' (c.length_write v)

theorem write_front {b : List σ} (h : c.width ≤ b.length) :
    c.write (c.read (b.take c.width)) ++ b.drop c.width = b := by
  have hlen : (b.take c.width).length = c.width := by
    rw [List.length_take]
    omega
  rw [c.write_read _ hlen, List.take_append_drop]

end PacketCodec
