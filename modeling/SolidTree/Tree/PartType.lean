/-
  SolidTree.Tree.PartType
  ───────────────────────
  **PART TYPES.**

  A part type declares the members that all of its parts share, adds the
  members that depend on the part at hand, and says how the geometry is
  finished.  Declarations are kept in a `Layout`, in which a field stands
  where it was declared first and holds what was declared last.
-/
import SolidTree.Tree.Part

namespace SolidTree

variable {α : Type}

/-! ## §1. Layouts. -/

/-- Members declared by name, in order of first declaration. -/
structure Layout (α : Type) where
  members : List (String × Member α) := []

namespace Layout

/-- The members with one more declaration. -/
def declare (field : String) (m : Member α) : List (String × Member α) → List (String × Member α)
  | [] => [(field, m)]
  | (name, old) :: rest =>
    if name = field then (name, m) :: rest else (name, old) :: declare field m rest

/-- The layout with one more declaration. -/
def add (l : Layout α) (field : String) (m : Member α) : Layout α := ⟨declare field m l.members⟩

/-- A structural child. -/
def child (l : Layout α) (field : String) (n : Node α) : Layout α := l.add field ⟨.child, n⟩

/-- A hole. -/
def hole (l : Layout α) (field : String) (n : Node α) : Layout α := l.add field ⟨.hole, n⟩

/-- A miscellaneous item. -/
def misc (l : Layout α) (field : String) (n : Node α) : Layout α := l.add field ⟨.misc, n⟩

/-- The part with every declared member set, in order. -/
def replay (l : Layout α) (p : Part α) : Part α :=
  l.members.foldl (fun p entry => p.set entry.1 entry.2) p

end Layout

/-! ## §2. Types. -/

/-- A type of parts that differ in one size. -/
structure PartType (α : Type) where
  name : String
  layout : Layout α := {}
  /-- Members that depend on the size. -/
  init : (size : α) → Part α → Except (Fault α) (Part α) := fun _ p => .ok p
  finish : Finish := .asBuilt

namespace PartType

/-- The part of a type and a size. -/
def part (t : PartType α) (size : α) : Except (Fault α) (Part α) :=
  t.init size { t.layout.replay { name := t.name } with finish := some t.finish }

/-- The part of a type and a size, as a node. -/
def build (t : PartType α) (size : α) : Except (Fault α) (Node α) := do
  let p ← t.part size
  return .part {} p

end PartType

end SolidTree
