/-
  SolidTree.Tree.Measure
  ──────────────────────
  **THE EXTENTS OF A TREE.**

  A tree is measured from the leaves up, every node once:

      leaf          — its closed form
      operator      — its readings over those of the children
      union         — outermost on every edge
      intersection  — innermost on every edge
      difference    — its first operand
      part          — the union of its structural children

  Tags do not matter.  `extentsOfAll` and `extentsOfSlots` are the same
  measure along lists.
-/
import SolidTree.Tree.Node

namespace SolidTree

variable {α : Type} [Scalar α]

namespace Extents

/-! ## §1. Overlaps. -/

/-- The innermost of some readings on a side, or the first fault. -/
def innermost (side : Side) (readings : List (Reading α)) : Except (Fault α) α := do
  let values ← readings.mapM id
  return match side with
    | .min => Scalar.greatestOf values
    | .max => Scalar.leastOf values

/-- The extents of an intersection: innermost on every edge. -/
def intersection (xs : List (Extents α)) : Extents α :=
  ofFn fun e => innermost e.side (xs.map (·.get e))

/-- The extents of a set operation; only a union may be one of nothing. -/
def compose (op : SetOperation) (xs : List (Extents α)) : Extents α :=
  match op, xs with
  | .union, _ => union xs
  | _, [] => failed (.emptyComposite op.name)
  | .difference, first :: _ => first
  | .intersection, _ => intersection xs

end Extents

/-! ## §2. Trees. -/

mutual

/-- The extents of a tree. -/
def Node.extents : Node α → Extents α
  | .leaf _ shape => shape.extents
  | .apply _ op children => op.extents (extentsOfAll children)
  | .compose _ op operands => .compose op (extentsOfAll operands)
  | .part _ ⟨_, children, _, _, _⟩ => .union (extentsOfSlots children)

/-- The extents of each tree of a list. -/
def extentsOfAll : List (Node α) → List (Extents α)
  | [] => []
  | n :: rest => n.extents :: extentsOfAll rest

/-- The extents of each member of a list. -/
def extentsOfSlots : List (Slot (Node α)) → List (Extents α)
  | [] => []
  | ⟨_, n⟩ :: rest => n.extents :: extentsOfSlots rest

end

theorem extentsOfAll_eq_map (ns : List (Node α)) : extentsOfAll ns = ns.map Node.extents := by
  induction ns with
  | nil => rfl
  | cons n rest ih => rw [extentsOfAll, ih, List.map_cons]

theorem extentsOfSlots_eq_map (slots : List (Slot (Node α))) :
    extentsOfSlots slots = slots.map (·.node.extents) := by
  induction slots with
  | nil => rfl
  | cons s rest ih => rw [extentsOfSlots, ih, List.map_cons]

/-- The extents of a part: those of its structural children. -/
def Assembly.extents (p : Part α) : Extents α := .union (p.children.map (·.node.extents))

/-- A tag does not change the extents. -/
@[simp] theorem Node.extents_withTag (n : Node α) (t : Tag) :
    (n.withTag t).extents = n.extents := by
  cases n <;> rfl

theorem Node.extents_part (t : Tag) (p : Part α) : (Node.part t p).extents = p.extents := by
  rw [Assembly.extents, ← extentsOfSlots_eq_map]
  rfl

end SolidTree
