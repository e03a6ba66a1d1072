/-
  SolidTree.Text.Snake
  ────────────────────
  **NAMES IN SNAKE CASE.**

  A name in camel case becomes lowercase words joined by underscores.  Runs
  of capitals stay together: the last capital of a run starts a word only if
  a lowercase letter follows it.
-/
import SolidTree.Text.Letter

namespace SolidTree.Snake

/-- A word starts at `c`: it is a capital after a lowercase letter or a digit, or a
capital after another one and before a lowercase letter. -/
def startsWord (previous : Option Char) (c : Char) (next : Option Char) : Bool :=
  match previous with
  | none => false
  | some p =>
    Letter.isUpper c
      && (Letter.isLower p || p.isDigit || (Letter.isUpper p && next.any Letter.isLower))

/-- The characters after `previous` in lowercase, an underscore before each word. -/
def convert (previous : Option Char) : List Char → List Char
  | [] => []
  | c :: rest =>
    let word := Letter.lower c ++ convert (some c) rest
    if startsWord previous c rest.head? then '_' :: word else word

/-- The name in snake case. -/
def ofCamel (name : String) : String := String.ofList (convert none name.toList)

end SolidTree.Snake
