/-
  SolidTree.Number.Real
  ─────────────────────
  **REALS AS A SCALAR.**

  The kind of number on which a cosine and a sine are exact at every angle,
  so that sweeps by any angle can be reasoned about.  Nothing is computed
  with it.  There is no infinity among the reals; only a box around nothing
  would show that.  The instance is open where sweeps are the subject, since
  elsewhere reals are just places.
-/
import Mathlib.Analysis.SpecialFunctions.Trigonometric.Basic
import SolidTree.Number.Scalar

namespace SolidTree

namespace Reals

/-- The whole number of the same sign whose magnitude is the whole part of that
of `x`. -/
noncomputable def truncate (x : ℝ) : ℤ := if x < 0 then ⌈x⌉ else ⌊x⌋

/-- Nearest whole number, a half going away from zero. -/
noncomputable def nearest (x : ℝ) : ℤ :=
  if x < 0 then ⌈x - (1 / 2 : ℚ)⌉ else ⌊x + (1 / 2 : ℚ)⌋

noncomputable scoped instance : Scalar ℝ where
  decideLt := inferInstance
  decideLe := inferInstance
  beq a b := decide (a = b)
  abs x := |x|
  floor x := ⌊x⌋
  round x := nearest x
  remainder x y := x - truncate (x / y) * y
  wholePart x := ⌊x⌋.toNat
  infinity := 0
  cosDegrees x := Real.cos (x * (Real.pi / (180 : ℕ)))
  sinDegrees x := Real.sin (x * (Real.pi / (180 : ℕ)))

end Reals

end SolidTree
