/-
  SolidTree.Json.Library
  ──────────────────────
  **THE LIBRARY FOR JSON.**

  Trees are printed and read with a library that knows nothing of trees.  It
  is a parameter of all that is written over it:

      ofFloat, ofNat           — the values that numbers are printed as
      float?, natural?         — what a number in a text is read as
      levels                   — how deep it enters a value
      compactText, prettyText  — values printed
      parse?                   — texts read

  Which fields a record has, and how cases and absent values are told apart,
  is not up to the library.
-/
import SolidTree.Json.Value

namespace SolidTree

/-- A library that prints and reads JSON. -/
class JsonLibrary where
  /-- The value that a double is printed as. -/
  ofFloat : Float → Json
  /-- The value that a natural number is printed as. -/
  ofNat : Nat → Json
  /-- The double that a number is read as, given how it is written. -/
  float? : (written : String) → Option Float
  /-- The natural number below `bound` that a number is read as. -/
  natural? : (bound : Nat) → (written : String) → Option Nat
  /-- How many levels of arrays and objects may be entered. What is passed over is not
  entered, so a text may spell a value of more levels. -/
  levels : Nat
  /-- A value in one line. -/
  compactText : Json → String
  /-- A value over several lines. -/
  prettyText : Json → String
  /-- The value that a text spells. -/
  parse? : (text : String) → Option Json

end SolidTree
