import Mathlib.Data.List.Nodup

/-!
# Enumerations in one byte

A variant is written as its position among the variants, and a byte is read as
the variant at that position.
-/

/-- An enumeration with its variants in the order of their discriminants. -/
class Discriminant (T : Type) where
  variants : List T
  complete : ∀ t, t ∈ variants
  nodup : variants.Nodup
  short : variants.length ≤ 256

namespace Discriminant

variable {T : Type} [DecidableEq T] [Discriminant T]

/-- The variant that a byte stands for, if any. -/
def tryFrom (T : Type) [Discriminant T] (x : UInt8) : Option T := (variants (T := T))[x.toNat]?

/-- The byte of a variant. -/
def into (t : T) : UInt8 := UInt8.ofNat (variants.idxOf t)

theorem tryFrom_into (t : T) : tryFrom T (into t) = some t := by
  have hlt : variants.idxOf t < variants.length := List.idxOf_lt_length_of_mem (complete t)
  have hbyte : (into t).toNat = variants.idxOf t := by
    rw [into, UInt8.toNat_ofNat_of_lt']
    exact Nat.lt_of_lt_of_le hlt short
  rw [tryFrom, hbyte, List.getElem?_eq_getElem hlt, List.getElem_idxOf]

theorem tryFrom_eq_some {x : UInt8} {t : T} : tryFrom T x = some t ↔ x = into t := by
  constructor
  · intro h
    obtain ⟨hlt, rfl⟩ := List.getElem?_eq_some_iff.mp h
    rw [into, List.Nodup.idxOf_getElem nodup, UInt8.ofNat_toNat]
  · rintro rfl
    exact tryFrom_into t

end Discriminant
