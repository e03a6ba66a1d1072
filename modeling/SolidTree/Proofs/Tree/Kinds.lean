/-
  SolidTree.Proofs.Tree.Kinds
  ───────────────────────────
  **NAMES TELL KINDS APART.**

  Each kind of operator and each kind of leaf has a name of its own: the
  names are listed in the order of the constructors, and none is there twice.
-/
import Mathlib.Logic.Basic
import SolidTree.Tree.Operator
import SolidTree.Tree.Primitive

namespace SolidTree

variable {α : Type}

/-- In a list without repetitions a name has one position. -/
theorem position_unique {names : List String} (hnodup : names.Nodup) {name : String} {i j : Nat}
    (hi : names[i]? = some name) (hj : names[j]? = some name) : i = j :=
  (List.getElem?_inj (List.getElem?_eq_some_iff.mp hi).1 hnodup).mp (hi.trans hj.symm)

/-! ## §1. Operators. -/

namespace Operator

/-- The names of the operators, in the order of the constructors. -/
def names : List String :=
  ["translate", "rotate", "scale", "mirror", "linear_extrude", "rotate_extrude", "offset",
    "projection", "color", "slide", "hull", "minkowski", "render"]

theorem names_nodup : names.Nodup := by decide

theorem getElem?_names (op : Operator α) : names[op.ctorIdx]? = some op.name := by
  cases op <;> rfl

theorem name_eq_iff {op other : Operator α} :
    op.name = other.name ↔ op.ctorIdx = other.ctorIdx := by
  constructor
  · intro h
    exact position_unique names_nodup (getElem?_names op) (h ▸ getElem?_names other)
  · intro h
    rw [← Option.some_inj, ← getElem?_names, ← getElem?_names, h]

theorem sameKind_iff (op other : Operator α) :
    op.sameKind other = true ↔ op.ctorIdx = other.ctorIdx := by
  unfold sameKind
  rw [beq_iff_eq, name_eq_iff]

end Operator

/-! ## §2. Leaves. -/

namespace Primitive

/-- The names of the leaves, in the order of the constructors. -/
def names : List String :=
  ["cube", "cylinder", "sphere", "circle", "square", "text", "polygon", "polyhedron", "import"]

theorem names_nodup : names.Nodup := by decide

theorem getElem?_names (s : Primitive α) : names[s.ctorIdx]? = some s.name := by
  cases s <;> rfl

theorem ctorIdx_eq_of_name {s other : Primitive α} (h : s.name = other.name) :
    s.ctorIdx = other.ctorIdx :=
  position_unique names_nodup (getElem?_names s) (h ▸ getElem?_names other)

end Primitive

end SolidTree
