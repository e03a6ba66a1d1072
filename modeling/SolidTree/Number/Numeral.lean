/-
  SolidTree.Number.Numeral
  ────────────────────────
  **DOUBLES AS TEXT.**

  Writing: the digits are the shortest that read back; a `NumberStyle` says
  how they are laid out.  Three styles are used:

      plain       — messages and generated source: never an exponent
      coordinate  — measures: `plain`, and a zero has no sign
      lossless    — serialized trees: `.0` on whole numbers, an exponent
                    below 10⁻⁵ and from 10¹⁶ on, `null` for what is no number

  Reading: an optional sign, digits with an optional point, an optional
  exponent; or one of the words `inf`, `infinity` and `nan`.
-/
import SolidTree.Number.Shortest

namespace SolidTree

/-! ## §1. Styles. -/

/-- How the digits of a double are laid out. -/
structure NumberStyle where
  /-- Which of two shortest decimals at the same distance is written. -/
  tie : Tie
  /-- Whether a number with this decimal exponent is written without one. -/
  positional : Int → Bool
  /-- What follows the digits of a whole number. -/
  whole : String
  /-- A negative zero shows its sign. -/
  signedZero : Bool
  /-- Text of "not a number". -/
  notANumber : String
  /-- Text of an infinity, given whether it is negative. -/
  infinite : Bool → String

namespace NumberStyle

/-- Messages and generated source show every digit in its place. -/
def plain : NumberStyle where
  tie := .up
  positional _ := true
  whole := ""
  signedZero := true
  notANumber := "NaN"
  infinite negative := if negative then "-inf" else "inf"

/-- Measures are shown plainly, and both zeros alike. -/
def coordinate : NumberStyle := { plain with signedZero := false }

/-- Serialized trees tell whole doubles from integers, and have no text for an
infinity. -/
def lossless : NumberStyle where
  tie := .even
  positional e := -5 ≤ e && e < 16
  whole := ".0"
  signedZero := true
  notANumber := "null"
  infinite _ := "null"

/-! ## §2. Writing. -/

/-- Digits with the point after the first `point` of them, zeros filled in on the
side where digits are missing. -/
def placePoint (digits : List Char) (point : Int) (whole : String) : List Char :=
  if point ≤ 0 then '0' :: '.' :: (List.replicate (-point).toNat '0' ++ digits)
  else if digits.length ≤ point.toNat then
    digits ++ List.replicate (point.toNat - digits.length) '0' ++ whole.toList
  else digits.take point.toNat ++ '.' :: digits.drop point.toNat

/-- One digit, the others after a point, and the exponent with its sign. -/
def placeExponent (digits : List Char) (exponent : Int) : List Char :=
  let fraction := match digits.drop 1 with
    | [] => []
    | rest => '.' :: rest
  let sign := if exponent < 0 then '-' else '+'
  digits.take 1 ++ fraction ++ 'e' :: sign :: Nat.toDigits 10 exponent.natAbs

/-- Text of a positive decimal. -/
def decimal (style : NumberStyle) (d : Decimal) : List Char :=
  let digits := Nat.toDigits 10 d.significand
  let point := d.exponent + digits.length
  if style.positional (point - 1) then placePoint digits point style.whole
  else placeExponent digits (point - 1)

/-- Text of a double. -/
def chars (style : NumberStyle) (x : Float) : List Char :=
  match x.toModel.unpack with
  | .notANumber => style.notANumber.toList
  | .infinity sign => (style.infinite (sign == .negative)).toList
  | .zero sign =>
    let zero := placePoint ['0'] 1 style.whole
    if sign == .negative && style.signedZero then '-' :: zero else zero
  | .finite sign mantissa exponent _ =>
    let magnitude := style.decimal ((RoundingInterval.ofDouble mantissa exponent).shortest style.tie)
    if sign == .negative then '-' :: magnitude else magnitude

/-- Text of a double. -/
def text (style : NumberStyle) (x : Float) : String := String.ofList (style.chars x)

end NumberStyle

/-! ## §3. Reading. -/

namespace Numeral

/-- Value of a list of decimal digits. -/
def natural (digits : List Char) : Nat :=
  digits.foldl (fun n c => 10 * n + (c.toNat - '0'.toNat)) 0

/-- A number as it is written: sign, digits before and after the point, exponent. -/
structure Parts where
  negative : Bool
  whole : List Char
  fraction : List Char
  exponent : Int

/-- The exponent after its letter: an optional sign and at least one digit. -/
def exponent? (cs : List Char) : Option Int :=
  let (negative, digits) := match cs with
    | '-' :: rest => (true, rest)
    | '+' :: rest => (false, rest)
    | _ => (false, cs)
  if digits.isEmpty || !digits.all Char.isDigit then none
  else
    let n : Int := natural digits
    some (if negative then -n else n)

/-- Digits with an optional point and an optional exponent, and at least one digit
before the exponent. -/
def unsigned? (negative : Bool) (cs : List Char) : Option Parts :=
  let whole := cs.takeWhile Char.isDigit
  let (fraction, rest) := match cs.dropWhile Char.isDigit with
    | '.' :: rest => (rest.takeWhile Char.isDigit, rest.dropWhile Char.isDigit)
    | rest => ([], rest)
  if whole.isEmpty && fraction.isEmpty then none
  else match rest with
    | [] => some ⟨negative, whole, fraction, 0⟩
    | e :: digits =>
      if e = 'e' || e = 'E' then
        (exponent? digits).map fun exponent => ⟨negative, whole, fraction, exponent⟩
      else none

/-- The double nearest to a written number. -/
def Parts.toFloat (p : Parts) : Float :=
  let exponent := p.exponent - p.fraction.length
  let magnitude :=
    Float.ofScientific (natural (p.whole ++ p.fraction)) (exponent < 0) exponent.natAbs
  if p.negative then -magnitude else magnitude

/-- One of the words for a value that has no digits, in any case. -/
def word? (cs : List Char) : Option Float :=
  match String.ofList (cs.map Char.toLower) with
  | "inf" | "infinity" => some Binary64.infinity
  | "nan" => some Binary64.notANumber
  | _ => none

/-- Reads a double; nothing may stand before or after the number. -/
def float? (text : String) : Option Float :=
  let (negative, cs) := match text.toList with
    | '-' :: rest => (true, rest)
    | '+' :: rest => (false, rest)
    | cs => (false, cs)
  match word? cs with
  | some x => some (if negative then -x else x)
  | none => (unsigned? negative cs).map Parts.toFloat

/-- Reads a natural number below `bound`: digits after an optional plus sign. -/
def natural? (bound : Nat) (text : String) : Option Nat :=
  let digits := match text.toList with
    | '+' :: rest => rest
    | cs => cs
  if digits.isEmpty || !digits.all Char.isDigit then none
  else
    let n := natural digits
    if n < bound then some n else none

end Numeral

end SolidTree
