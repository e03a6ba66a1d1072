/-
  SolidTree.Number.Scalar
  ───────────────────────
  **THE NUMBERS THAT COORDINATES ARE MADE OF.**

  Trees, boxes and spans are written over one class `Scalar α`, so that the
  same definitions run on doubles and are reasoned about on an exact field.
  The class asks for the field operations, a decidable order, the absolute
  value, two roundings, a remainder, and the cosine and sine of an angle in
  degrees.  Nothing in it says that the operations are exact.

  Doubles have a value that differs from itself ("not a number"), so the
  smaller and the larger of two scalars are defined here once and for all:

      lesser a b   — the smaller one, and the number if only one is a number
      leastOf xs   — the same over a list, `infinity` when it holds no number
-/
namespace SolidTree

/-! ## §1. The class. -/

/-- A kind of number that coordinates, lengths and angles can be made of. -/
class Scalar (α : Type) extends
    Zero α, Add α, Sub α, Mul α, Div α, Neg α, OfScientific α, BEq α, LT α, LE α where
  /-- The strict order can be decided. -/
  decideLt : DecidableLT α
  /-- The order can be decided. -/
  decideLe : DecidableLE α
  /-- Magnitude. -/
  abs : α → α
  /-- Greatest whole number that is not above the argument. -/
  floor : α → α
  /-- Nearest whole number; a half goes away from zero. -/
  round : α → α
  /-- What a division with a whole quotient leaves; it has the sign of the dividend. -/
  remainder : α → α → α
  /-- Whole part; a negative argument gives zero, and so does one that is no number. -/
  wholePart : α → Nat
  /-- The bound of an interval that has none. A kind of number without such a
  value may name any: only a box around nothing shows it. -/
  infinity : α
  /-- Cosine of an angle in degrees. -/
  cosDegrees : α → α
  /-- Sine of an angle in degrees. -/
  sinDegrees : α → α

attribute [reducible, instance] Scalar.decideLt Scalar.decideLe

namespace Scalar

variable {α : Type} [Scalar α]

/-! ## §2. The smaller and the larger of two. -/

/-- The value equals itself, which every number does. -/
def isNumber (a : α) : Bool := a == a

/-- The smaller of two; if only one of them is a number, that one. -/
def lesser (a b : α) : α :=
  if a ≤ b then a else if isNumber b then b else a

/-- The larger of two; if only one of them is a number, that one. -/
def greater (a b : α) : α :=
  if b ≤ a then a else if isNumber b then b else a

/-- The smallest number of a list, `infinity` if it holds none. -/
def leastOf (xs : List α) : α :=
  match xs.filter isNumber with
  | [] => infinity
  | x :: rest => rest.foldl lesser x

/-- The largest number of a list, `-infinity` if it holds none. -/
def greatestOf (xs : List α) : α :=
  match xs.filter isNumber with
  | [] => -infinity
  | x :: rest => rest.foldl greater x

/-! ## §3. Words. -/

/-- Whole part as a 32-bit word, the largest word where it does not fit. -/
def toWord (a : α) : UInt32 :=
  UInt32.ofNat (min (wholePart a) 4294967295)

end Scalar

end SolidTree
