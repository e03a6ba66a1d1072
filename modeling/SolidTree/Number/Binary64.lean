/-
  SolidTree.Number.Binary64
  ─────────────────────────
  **DOUBLES AS A SCALAR.**

  A double is unpacked into sign, mantissa and exponent, and the three
  operations that are exact on doubles are done on those integers:

      floor      — the whole number below
      round      — the nearest whole number, a half away from zero
      remainder  — what a whole quotient leaves, with the dividend's sign

  Each has a result that is itself a double, so packing it rounds nothing.
  Sums, products and comparisons are the machine's.
-/
import SolidTree.Number.Scalar

namespace SolidTree

namespace Binary64

open Float.Model (UnpackedFloat)
open Float.Model.UnpackedFloat (Sign)

/-! ## §1. Integers and doubles. -/

/-- The double nearest to `± mantissa · 2 ^ exponent`. -/
def ofScaled (sign : Sign) (mantissa : Nat) (exponent : Int) : Float :=
  .ofModel (Float.Model.pack (.round .binary64 sign mantissa exponent))

/-- The double that is no number. -/
def notANumber : Float := .ofModel (Float.Model.pack .notANumber)

/-- The double above all others. -/
def infinity : Float := .ofModel (Float.Model.pack (.infinity .positive))

/-- A double that is neither infinite nor "not a number". -/
def isFinite (x : Float) : Bool :=
  match x.toModel.unpack with
  | .finite .. | .zero _ => true
  | .infinity _ | .notANumber => false

/-! ## §2. Whole numbers near a double. -/

/-- Greatest whole number that is not above `x`. A double whose exponent is not
negative is whole already. -/
def floor (x : Float) : Float :=
  match x.toModel.unpack with
  | .finite sign mantissa exponent _ =>
    if 0 ≤ exponent then x
    else
      let unit := Nat.pow 2 exponent.natAbs
      match sign with
      | .positive => ofScaled sign (mantissa / unit) 0
      | .negative => ofScaled sign ((mantissa + (unit - 1)) / unit) 0
  | _ => x

/-- Nearest whole number, a half going away from zero. The sign is kept, so a
small negative double gives negative zero. -/
def round (x : Float) : Float :=
  match x.toModel.unpack with
  | .finite sign mantissa exponent _ =>
    if 0 ≤ exponent then x
    else
      let unit := Nat.pow 2 exponent.natAbs
      ofScaled sign ((2 * mantissa + unit) / (2 * unit)) 0
  | _ => x

/-! ## §3. Remainder. -/

/-- `x - q * y` for the whole `q` nearest to `x / y` on the side of zero, without
rounding. There is none for an infinite dividend or a zero divisor. -/
def remainder (x y : Float) : Float :=
  match x.toModel.unpack, y.toModel.unpack with
  | .notANumber, _ | _, .notANumber | .infinity _, _ | _, .zero _ => notANumber
  | .zero _, _ | _, .infinity _ => x
  | .finite sign m e _, .finite _ n f _ =>
    let unit := min e f
    ofScaled sign ((m <<< (e - unit).toNat) % (n <<< (f - unit).toNat)) unit

/-! ## §4. Angles. -/

/-- One degree in radians. -/
def radiansPerDegree : Float := 3.141592653589793 / 180.0

end Binary64

/-! ## §5. The instance. -/

instance : Scalar Float where
  decideLt := inferInstance
  decideLe := inferInstance
  abs := Float.abs
  floor := Binary64.floor
  round := Binary64.round
  remainder := Binary64.remainder
  wholePart x := x.toUInt64.toNat
  infinity := Binary64.infinity
  cosDegrees x := Float.cos (x * Binary64.radiansPerDegree)
  sinDegrees x := Float.sin (x * Binary64.radiansPerDegree)

end SolidTree
