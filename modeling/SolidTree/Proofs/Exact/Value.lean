/-
  SolidTree.Proofs.Exact.Value
  ────────────────────────────
  **EXACT KINDS OF NUMBER.**

  A kind of number is exact if each of its values stands for a real number
  and its operations and its order are those of the reals.  Roundings,
  cosines and sines are left open, so that rationals are exact whatever
  their cosines are taken to be:

      Exact.value a    — the real number that `a` stands for

  Inequalities between exact numbers are shown for what they stand for.
-/
import SolidTree.Number.Real
import SolidTree.Proofs.Exact.Outermost

namespace SolidTree.Scalar

/-! ## §1. Values. -/

/-- Operations and order are those of the reals that the values stand for. -/
class Exact (α : Type) [Scalar α] where
  /-- The real number that a value stands for. -/
  value : α → ℝ
  value_zero : value 0 = 0
  value_literal (m : ℕ) (negative : Bool) (e : ℕ) :
    value (OfScientific.ofScientific m negative e) = OfScientific.ofScientific m negative e
  value_add (a b : α) : value (a + b) = value a + value b
  value_sub (a b : α) : value (a - b) = value a - value b
  value_mul (a b : α) : value (a * b) = value a * value b
  value_div (a b : α) : value (a / b) = value a / value b
  value_neg (a : α) : value (-a) = -value a
  le_iff {a b : α} : a ≤ b ↔ value a ≤ value b
  lt_iff {a b : α} : a < b ↔ value a < value b
  beq_iff {a b : α} : (a == b) = true ↔ value a = value b

attribute [simp] Exact.value_zero Exact.value_literal Exact.value_add Exact.value_sub
  Exact.value_mul Exact.value_div Exact.value_neg

instance : Exact ℚ where
  value := Rat.cast
  value_zero := Rat.cast_zero
  value_literal := Rat.cast_ofScientific
  value_add := Rat.cast_add
  value_sub := Rat.cast_sub
  value_mul := Rat.cast_mul
  value_div := Rat.cast_div
  value_neg := Rat.cast_neg
  le_iff := Rat.cast_le.symm
  lt_iff := Rat.cast_lt.symm
  beq_iff := beq_iff_eq.trans Rat.cast_inj.symm

open scoped Reals in
noncomputable instance : Exact ℝ where
  value := id
  value_zero := rfl
  value_literal _ _ _ := rfl
  value_add _ _ := rfl
  value_sub _ _ := rfl
  value_mul _ _ := rfl
  value_div _ _ := rfl
  value_neg _ := rfl
  le_iff := Iff.rfl
  lt_iff := Iff.rfl
  beq_iff := decide_eq_true_iff

/-! ## §2. Order. -/

theorem leastOf_le_greatestOf {α : Type} [Scalar α] [Ordered α] {xs : List α} (hne : xs ≠ []) :
    leastOf xs ≤ greatestOf xs := by
  obtain ⟨hmem, -⟩ := extreme_spec .min hne
  exact (extreme_spec .max hne).2 _ hmem

variable {α : Type} [Scalar α] [Exact α]

instance : Ordered α where
  le_refl _ := Exact.le_iff.mpr (le_refl _)
  le_trans _ _ _ h h' := Exact.le_iff.mpr ((Exact.le_iff.mp h).trans (Exact.le_iff.mp h'))
  le_total a b := (le_total (Exact.value a) (Exact.value b)).imp Exact.le_iff.mpr Exact.le_iff.mpr
  isNumber _ := Exact.beq_iff.mpr rfl

theorem Exact.neg_le {a b : α} (h : a ≤ b) : -b ≤ -a := by
  rw [Exact.le_iff, Exact.value_neg, Exact.value_neg]
  exact neg_le_neg (Exact.le_iff.mp h)

end SolidTree.Scalar
