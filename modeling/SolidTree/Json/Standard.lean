/-
  SolidTree.Json.Standard
  ───────────────────────
  **THE LIBRARY THAT PROGRAMS RUN WITH.**

  It takes the digits of a number into a 64-bit word, as many as fit, and
  scales that word by a power of ten in one step:

      51.248178375505404  →  51248178375505404 / 10¹⁵

  The word is rounded to a double, and so is the quotient, which is not always
  the double nearest to the number.  It is for numbers of few digits.
-/
import SolidTree.Json.Library
import SolidTree.Json.Reader
import SolidTree.Json.Text

namespace SolidTree.JsonLibrary

/-! ## §1. Scaling. -/

/-- A number with some digits behind it, as many as a 64-bit word holds, and how many digits
are left over. -/
def extend (n : Nat) : (digits : List Char) → Nat × Nat
  | [] => (n, 0)
  | c :: rest =>
    let longer := 10 * n + (c.toNat - '0'.toNat)
    if longer < UInt64.size then extend longer rest else (n, rest.length + 1)

/-- A power of ten. -/
def powerOfTen (n : Nat) : Float := Float.ofScientific 1 false n

/-- A word scaled by a power of ten; there is none if it gets too large. -/
def scale? (n : UInt64) (exponent : Int) : Option Float :=
  let x := n.toFloat
  if 308 < exponent then if n = 0 then some x else none
  else if 0 ≤ exponent then
    (some (x * powerOfTen exponent.toNat)).filter Binary64.isFinite
  else if -308 ≤ exponent then some (x / powerOfTen (-exponent).toNat)
  -- There is no larger power to divide by, so it takes two of them; after that nothing is left.
  else if -616 ≤ exponent then some (x / powerOfTen 308 / powerOfTen (-exponent - 308).toNat)
  else some 0

/-- The double of the parts of a number. -/
def ofParts? (p : Numeral.Parts) : Option Float :=
  let (whole, left) := extend 0 p.whole
  let (n, dropped) := extend whole p.fraction
  let exponent := p.exponent + left - (p.fraction.length - dropped : Nat)
  (scale? n.toUInt64 exponent).map fun x => if p.negative then -x else x

/-- The double of a number. -/
def scaled? (written : String) : Option Float :=
  let (negative, cs) := match written.toList with
    | '-' :: rest => (true, rest)
    | cs => (false, cs)
  (Numeral.unsigned? negative cs).bind ofParts?

/-! ## §2. The library. -/

/-- The library that programs run with. -/
instance standard : JsonLibrary where
  ofFloat := Json.ofFloat
  ofNat := Json.ofNat
  float? := scaled?
  natural? := Numeral.natural?
  levels := 127
  compactText := Json.compactText
  prettyText := Json.prettyText
  parse? := Json.parse?

end SolidTree.JsonLibrary
