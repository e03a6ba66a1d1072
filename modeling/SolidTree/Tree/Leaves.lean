/-
  SolidTree.Tree.Leaves
  ─────────────────────
  **THE LEAVES OF A TREE.**

  `n.leaves` lists the shapes of a tree in order, each under the operators
  above it.  Set operations are passed through, a part shows its structural
  children and its miscellaneous items, and tags stay behind except those
  of the shapes themselves.
-/
import SolidTree.Tree.Measure

namespace SolidTree

variable {α : Type}

/-- A shape under operators, the outermost one first. -/
structure Leaf (α : Type) where
  operators : List (Operator α)
  tag : Tag
  shape : Primitive α

namespace Leaf

/-- The leaf under one more operator. -/
def under (leaf : Leaf α) (op : Operator α) : Leaf α :=
  { leaf with operators := op :: leaf.operators }

/-- The leaf as a tree of its own. -/
def toNode (leaf : Leaf α) : Node α :=
  leaf.operators.foldr (fun op n => .apply {} op [n]) (.leaf leaf.tag leaf.shape)

theorem toNode_under (leaf : Leaf α) (op : Operator α) :
    (leaf.under op).toNode = .apply {} op [leaf.toNode] := rfl

end Leaf

mutual

/-- The leaves of a tree. -/
def Node.leaves : Node α → List (Leaf α)
  | .leaf tag shape => [⟨[], tag, shape⟩]
  | .apply _ op children => (leavesOfAll children).map (·.under op)
  | .compose _ _ operands => leavesOfAll operands
  | .part _ ⟨_, children, _, miscellaneous, _⟩ =>
    leavesOfSlots children ++ leavesOfSlots miscellaneous

/-- The leaves of each tree of a list. -/
def leavesOfAll : List (Node α) → List (Leaf α)
  | [] => []
  | n :: rest => n.leaves ++ leavesOfAll rest

/-- The leaves of each member of a list. -/
def leavesOfSlots : List (Slot (Node α)) → List (Leaf α)
  | [] => []
  | ⟨_, n⟩ :: rest => n.leaves ++ leavesOfSlots rest

end

theorem leavesOfAll_eq_flatMap (ns : List (Node α)) : leavesOfAll ns = ns.flatMap Node.leaves := by
  induction ns with
  | nil => rfl
  | cons n rest ih => rw [leavesOfAll, ih, List.flatMap_cons]

theorem leavesOfSlots_eq_flatMap (slots : List (Slot (Node α))) :
    leavesOfSlots slots = slots.flatMap (·.node.leaves) := by
  induction slots with
  | nil => rfl
  | cons s rest ih => rw [leavesOfSlots, ih, List.flatMap_cons]

end SolidTree
