/-
  SolidTree.Proofs.Space.Point
  ────────────────────────────
  **POINTS OF SPACE AND THEIR ROTATIONS.**

  A point has one real coordinate per axis.  `turnAbout` moves points by a
  cosine and a sine, the axis kept, in the sense that takes each of the other
  two axes towards the next one; `rotateAbout` does so by an angle in degrees
  and is a one-parameter family of period 360.
-/
import Mathlib.Algebra.Ring.Periodic
import Mathlib.Analysis.SpecialFunctions.Trigonometric.Basic
import SolidTree.Geometry.Axis

namespace SolidTree

/-- A point of space. -/
abbrev Point := Axis → ℝ

namespace Point

/-- The rotation about an axis with this cosine and this sine. -/
def turnAbout (axis : Axis) (c s : ℝ) (p : Point) : Point := fun row =>
  match axis, row with
  | .x, .y => c * p .y - s * p .z
  | .x, .z => s * p .y + c * p .z
  | .y, .z => c * p .z - s * p .x
  | .y, .x => s * p .z + c * p .x
  | .z, .x => c * p .x - s * p .y
  | .z, .y => s * p .x + c * p .y
  | _, _ => p row

/-- The rotation about an axis by an angle in degrees. -/
noncomputable def rotateAbout (axis : Axis) (degrees : ℝ) : Point → Point :=
  turnAbout axis (Real.cos (degrees * (Real.pi / 180))) (Real.sin (degrees * (Real.pi / 180)))

theorem turnAbout_turnAbout (axis : Axis) (c s c' s' : ℝ) (p : Point) :
    turnAbout axis c s (turnAbout axis c' s' p)
      = turnAbout axis (c * c' - s * s') (s * c' + c * s') p := by
  funext row
  cases axis <;> cases row <;> simp only [turnAbout] <;> ring

theorem rotateAbout_add (axis : Axis) (a b : ℝ) :
    rotateAbout axis (a + b) = rotateAbout axis a ∘ rotateAbout axis b := by
  funext p
  unfold rotateAbout
  rw [Function.comp_apply, turnAbout_turnAbout, add_mul, Real.cos_add, Real.sin_add]

theorem rotateAbout_zero (axis : Axis) : rotateAbout axis 0 = id := by
  funext p row
  unfold rotateAbout
  rw [zero_mul, Real.cos_zero, Real.sin_zero]
  cases axis <;> cases row <;> simp [turnAbout]

/-- A full turn brings every point back. -/
theorem rotateAbout_periodic (axis : Axis) : Function.Periodic (rotateAbout axis) 360 := by
  intro a
  have hturn : (a + 360) * (Real.pi / 180) = a * (Real.pi / 180) + 2 * Real.pi := by ring
  unfold rotateAbout
  rw [hturn, Real.cos_add_two_pi, Real.sin_add_two_pi]

end Point

end SolidTree
