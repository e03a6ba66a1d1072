/-
  SolidTree.Number.Approximate
  ────────────────────────────
  **CLOSE NUMBERS AND ROUNDED NUMBERS.**

      close ε a b     — `a` and `b` differ by at most `ε`, relative to the
                        larger magnitude but never finer than `ε` itself
      places n x      — `x` rounded to `n` decimals, a half away from zero

  Rounding scales by a power of ten, takes the nearest whole number and
  scales back; each of the three steps rounds to a double.  The power is a
  product of the squares `10, 10², 10⁴, …` that the binary digits of the
  exponent select, and a negative exponent takes its reciprocal.
-/
import SolidTree.Number.Binary64

namespace SolidTree

/-! ## §1. Closeness. -/

namespace Scalar

variable {α : Type} [Scalar α]

/-- Tolerance within which a solved coordinate agrees with a given one. -/
def coordinateTolerance : α := 1e-9

/-- Equal, or apart by at most `tolerance` times the larger magnitude, which counts
as at least one. -/
def close (tolerance a b : α) : Bool :=
  a == b || abs (a - b) ≤ tolerance * greater (greater (abs a) (abs b)) 1.0

end Scalar

/-! ## §2. Rounding to decimal places. -/

namespace Binary64

/-- The power `10 ^ n` of a natural `n` below `2 ^ 32`, every product rounded. -/
def tenToThe (n : Nat) : Float :=
  let step (state : Float × Float) (bit : Nat) : Float × Float :=
    (if n.testBit bit then state.1 * state.2 else state.1, state.2 * state.2)
  ((List.range 32).foldl step (1.0, 10.0)).1

/-- The factor that moves `places` decimals before the point. Counts of places from
`2 ^ 31` on stand for negative exponents. -/
def placesFactor (places : UInt32) : Float :=
  let exponent := places.toInt32.toInt
  if exponent < 0 then 1.0 / tenToThe exponent.natAbs else tenToThe exponent.natAbs

/-- `x` rounded to `places` decimals. A zero result has no sign. -/
def places (places : UInt32) (x : Float) : Float :=
  let factor := placesFactor places
  let rounded := round (x * factor) / factor
  if rounded == 0.0 then 0.0 else rounded

end Binary64

end SolidTree
