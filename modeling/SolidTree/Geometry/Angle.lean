/-
  SolidTree.Geometry.Angle
  ────────────────────────
  **ANGLES IN DEGREES.**

  Angles are reduced to one turn before they are compared; the direction of
  an angle is exact on the four quarter turns, whatever the cosine and sine
  of the scalar make of them.  Round shapes are drawn with a number of
  facets that grows with their diameter, or with the angle that they sweep.
-/
import SolidTree.Number.Scalar

namespace SolidTree.Angle

variable {α : Type} [Scalar α]

/-! ## §1. One turn. -/

/-- The angle in `[0, 360)` that differs from `a` by whole turns. Adding a turn to a
tiny negative remainder can round up to a full turn, which is no turn. -/
def normalize (a : α) : α :=
  let rest := Scalar.remainder a 360.0
  let reduced := if rest < 0 then rest + 360.0 else rest
  if 360.0 ≤ reduced then 0 else reduced

/-- Cosine and sine of an angle, exact on quarter turns. -/
def direction (degrees : α) : α × α :=
  let a := normalize degrees
  if a == 0 then (1.0, 0)
  else if a == 90.0 then (0, 1.0)
  else if a == 180.0 then (-1.0, 0)
  else if a == 270.0 then (0, -1.0)
  else (Scalar.cosDegrees a, Scalar.sinDegrees a)

/-! ## §2. Facets. -/

/-- Facets of a round shape of this diameter, unless it names a number. -/
def facetsOfDiameter (diameter : α) : UInt32 :=
  Scalar.toWord (Scalar.greater (diameter * 3.14 / 0.4) 0)

/-- Facets of a sweep by this angle, unless it names a number. -/
def facetsOfSweep (angle : α) : UInt32 :=
  Scalar.toWord (Scalar.abs angle / 3.14 * 0.4)

end SolidTree.Angle
