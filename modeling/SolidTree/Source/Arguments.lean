/-
  SolidTree.Source.Arguments
  ──────────────────────────
  **ARGUMENT LISTS AS TEXT.**

  Arguments are separated by commas, a key stands before an equals sign, a
  list in brackets.  Numbers are rounded to a number of decimals and then
  written with the digits that are left.
-/
import SolidTree.Number.Approximate
import SolidTree.Number.Numeral
import SolidTree.Source.Lines
import SolidTree.Tree.Argument

namespace SolidTree

/-- How generated source is formatted. -/
structure Format where
  /-- What stands before a line, once for every block around it. -/
  indent : String := "  "
  /-- How many decimals of a number are kept. -/
  precision : UInt32 := 4
  deriving Repr, DecidableEq

namespace Source

/-- Texts with a comma and a blank between them. -/
def separated : List (List Char) → List Char
  | [] => []
  | [text] => text
  | text :: rest => text ++ ',' :: ' ' :: separated rest

/-- An integer in decimal digits. -/
def integer (n : Int) : List Char :=
  let digits := Nat.toDigits 10 n.natAbs
  if n < 0 then '-' :: digits else digits

/-- A number, rounded to `precision` decimals. -/
def rounded (precision : UInt32) (x : Float) : List Char :=
  NumberStyle.plain.chars (Binary64.places precision x)

mutual

/-- A value as text. -/
def value (precision : UInt32) : Value Float → List Char
  | .number x => rounded precision x
  | .integer n => integer n.toInt
  | .boolean b => (if b then "true" else "false").toList
  | .text s => quote s.toList
  | .list items => '[' :: (separated (values precision items) ++ [']'])

/-- Values as texts. -/
def values (precision : UInt32) : List (Value Float) → List (List Char)
  | [] => []
  | v :: rest => value precision v :: values precision rest

end

/-- An argument as text. -/
def argument (precision : UInt32) (entry : Option String × Value Float) : List Char :=
  match entry.1 with
  | some key => key.toList ++ '=' :: value precision entry.2
  | none => value precision entry.2

/-- An argument list as text. -/
def arguments (precision : UInt32) (a : Arguments Float) : List Char :=
  separated (a.entries.map (argument precision))

end Source

end SolidTree
