/-
  SolidTree.Number.Shortest
  ─────────────────────────
  **THE FEWEST DIGITS THAT READ BACK.**

  A double is one point of an interval of reals that all round to it.  Its
  shortest decimal is found on the grids of 1, 2, 3, … significant digits:

      atGrid i k   — of the two multiples of `10 ^ k` next to the double, the
                     nearer one that lies in the interval
      shortest     — the first grid that has one

  A grid with any point in the interval has one of the double's two
  neighbours in it, so no shorter decimal is missed.  Only an exact tie
  between two neighbours is left open; the writer of a format decides it.
  Seventeen digits tell every two doubles apart, so the search is finite.
-/
import SolidTree.Number.Binary64

namespace SolidTree

/-- The number `significand · 10 ^ exponent`. -/
structure Decimal where
  significand : Nat
  exponent : Int
  deriving Repr, DecidableEq

/-- Which of two decimals at the same distance is taken. -/
inductive Tie where
  /-- The larger one. -/
  | up
  /-- The one with an even last digit. -/
  | even
  deriving Repr, DecidableEq

namespace Decimal

/-- Number of digits that a natural number is written with. -/
def length (n : Nat) : Nat := (Nat.toDigits 10 n).length

/-- `⟨p, q⟩` with `10 ^ k = p / q`. -/
def power (k : Int) : Nat × Nat := (Nat.pow 10 k.toNat, Nat.pow 10 (-k).toNat)

/-- The same number without trailing zeros in its significand. At most `n` zeros
are taken off. -/
def trim : (n : Nat) → Decimal → Decimal
  | 0, d => d
  | n + 1, d =>
    if d.significand % 10 = 0 then trim n ⟨d.significand / 10, d.exponent + 1⟩ else d

end Decimal

/-! ## §1. The reals that round to a double. -/

/-- A double and the ends of its rounding interval, as numerators over one
denominator. The ends belong to the interval iff the mantissa is even. -/
structure RoundingInterval where
  low : Nat
  value : Nat
  high : Nat
  denominator : Nat
  closed : Bool

namespace RoundingInterval

/-- The interval of `mantissa · 2 ^ exponent`. It reaches half a unit up and half a
unit down, but only a quarter down where the doubles below are twice as dense. -/
def ofDouble (mantissa : Nat) (exponent : Int) : RoundingInterval :=
  let below := if mantissa = Nat.pow 2 52 ∧ -1074 < exponent then 1 else 2
  let scale := Nat.pow 2 (exponent - 2).toNat
  { low := (4 * mantissa - below) * scale
    value := 4 * mantissa * scale
    high := (4 * mantissa + 2) * scale
    denominator := Nat.pow 2 (2 - exponent).toNat
    closed := mantissa % 2 == 0 }

/-- The decimal `c · 10 ^ k` rounds to the double. -/
def contains (i : RoundingInterval) (c : Nat) (k : Int) : Bool :=
  let (p, q) := Decimal.power k
  let point := c * p * i.denominator
  if i.closed then i.low * q ≤ point && point ≤ i.high * q
  else i.low * q < point && point < i.high * q

/-- Multiple of `10 ^ k` at or below the double. -/
def below (i : RoundingInterval) (k : Int) : Nat :=
  let (p, q) := Decimal.power k
  i.value * q / (i.denominator * p)

/-- Whether the double lies nearer to `(c + 1) · 10 ^ k` than to `c · 10 ^ k`; the
rule for ties decides in the middle. -/
def nearerAbove (i : RoundingInterval) (tie : Tie) (c : Nat) (k : Int) : Bool :=
  let (p, q) := Decimal.power k
  let twice := 2 * i.value * q
  let middle := (2 * c + 1) * p * i.denominator
  if twice = middle then
    match tie with
    | .up => true
    | .even => c % 2 == 1
  else middle < twice

/-- Of the two neighbours on the grid of `10 ^ k`, the nearer one that rounds to the
double. -/
def atGrid (i : RoundingInterval) (tie : Tie) (k : Int) : Option Nat :=
  let c := i.below k
  match i.contains c k, i.contains (c + 1) k with
  | true, true => some (if i.nearerAbove tie c k then c + 1 else c)
  | true, false => some c
  | false, true => some (c + 1)
  | false, false => none

/-- The `k` with `10 ^ (k - 1) ≤ value < 10 ^ k`. -/
def magnitude (i : RoundingInterval) : Int :=
  if i.denominator ≤ i.value then Decimal.length (i.value / i.denominator)
  else 1 - Decimal.length (i.denominator / i.value)

/-- First grid from `10 ^ k` downwards with a decimal that rounds to the double;
`n` grids are tried before the last one. -/
def search (i : RoundingInterval) (tie : Tie) : (n : Nat) → (k : Int) → Decimal
  | 0, k => ⟨i.below k, k⟩
  | n + 1, k =>
    match i.atGrid tie k with
    | some c => ⟨c, k⟩
    | none => search i tie n (k - 1)

/-- Shortest decimal of the double, and the nearest of those. -/
def shortest (i : RoundingInterval) (tie : Tie) : Decimal :=
  (i.search tie 17 (i.magnitude - 1)).trim 1

end RoundingInterval

end SolidTree
