/-
  SolidTree.Tree.Argument
  ───────────────────────
  **ARGUMENT LISTS OF CALLS.**

  Every shape and every operator is written as a call with arguments.  An
  argument has a key unless it is positional, and its value is a number, an
  integer, a truth value, a text or a list of values.  Order is kept, and a
  key may occur more than once: a look-up finds its first value.
-/
import SolidTree.Geometry.Vector

namespace SolidTree

/-! ## §1. Values. -/

/-- The value of an argument. -/
inductive Value (α : Type) where
  | number (x : α)
  | integer (n : Int64)
  | boolean (b : Bool)
  | text (s : String)
  | list (items : List (Value α))
  deriving Repr

namespace Value

variable {α : Type}

/-- A count. -/
def count (n : UInt32) : Value α := .integer n.toUInt64.toInt64

/-- A position in a list; positions from `2 ^ 63` on wrap around to negative ones. -/
def position (n : UInt64) : Value α := .integer n.toInt64

/-- Some numbers in a row. -/
def numbers (xs : List α) : Value α := .list (xs.map .number)

/-- The components of a vector. -/
def vector (v : Vec3 α) : Value α := numbers v.toList

/-- Lists of positions. -/
def positions (paths : List (List UInt64)) : Value α :=
  .list (paths.map fun path => .list (path.map position))

end Value

/-! ## §2. Argument lists. -/

/-- The arguments of a call in order; an entry without a key is positional. -/
structure Arguments (α : Type) where
  entries : List (Option String × Value α) := []

namespace Arguments

variable {α : Type}

/-- One more argument with a key. -/
def add (a : Arguments α) (key : String) (value : Value α) : Arguments α :=
  ⟨a.entries ++ [(some key, value)]⟩

/-- One more argument with a key, if there is a value. -/
def addSome (a : Arguments α) (key : String) : (value : Option (Value α)) → Arguments α
  | some value => a.add key value
  | none => a

/-- One more argument without a key. -/
def addPositional (a : Arguments α) (value : Value α) : Arguments α :=
  ⟨a.entries ++ [(none, value)]⟩

/-- The first value under a key. -/
def get? (a : Arguments α) (key : String) : Option (Value α) :=
  (a.entries.find? fun entry => entry.1 == some key).map Prod.snd

/-- There are no arguments. -/
def isEmpty (a : Arguments α) : Bool := a.entries.isEmpty

end Arguments

end SolidTree
