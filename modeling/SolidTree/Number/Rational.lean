/-
  SolidTree.Number.Rational
  ─────────────────────────
  **RATIONALS AS A SCALAR.**

  The exact kind of number: every operation of the class but the last three
  is the mathematical one.  A rational has no infinity, and its cosine and
  sine are rational at few angles, so those three are given no meaning here;
  nothing that is true of rational boxes depends on them.
-/
import Mathlib.Algebra.Order.Field.Rat
import Mathlib.Data.Rat.Floor
import SolidTree.Number.Scalar

namespace SolidTree

namespace Rational

/-- The whole number of the same sign whose magnitude is the whole part of that
of `x`. -/
def truncate (x : Rat) : Rat :=
  if x < 0 then -(((-x).floor : Int) : Rat) else ((x.floor : Int) : Rat)

/-- Nearest whole number, a half going away from zero. -/
def round (x : Rat) : Rat :=
  if x < 0 then -(((-x + 1 / 2).floor : Int) : Rat) else (((x + 1 / 2).floor : Int) : Rat)

/-- `x - q * y` for the whole quotient `q` taken towards zero. -/
def remainder (x y : Rat) : Rat :=
  x - truncate (x / y) * y

end Rational

instance : Scalar Rat where
  decideLt := inferInstance
  decideLe := inferInstance
  abs x := if x < 0 then -x else x
  floor x := ((x.floor : Int) : Rat)
  round := Rational.round
  remainder := Rational.remainder
  wholePart x := x.floor.toNat
  infinity := 0
  cosDegrees _ := 0
  sinDegrees _ := 0

end SolidTree
