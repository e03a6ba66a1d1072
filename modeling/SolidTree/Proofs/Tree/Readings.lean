/-
  SolidTree.Proofs.Tree.Readings
  ──────────────────────────────
  **HOW EXTENTS ARE READ.**

  What the measure of a tree says, one equation for each way in which a node
  is made from others: operators over children, set operations on operands,
  unions of one element and of several.
-/
import SolidTree.Tree.Measure

namespace SolidTree

variable {α : Type} [Scalar α]

/-! ## §1. Unions. -/

namespace Extents

theorem get_union (xs : List (Extents α)) (e : Edge) :
    (union xs).get e = outermost e.side (xs.map (·.get e)) := get_ofFn _ e

theorem get_intersection (xs : List (Extents α)) (e : Edge) :
    (intersection xs).get e = innermost e.side (xs.map (·.get e)) := get_ofFn _ e

theorem outermost_singleton (side : Side) (r : Reading α) : outermost side [r] = r := by
  cases r <;> rfl

theorem union_singleton (x : Extents α) : union [x] = x := by
  refine ext_get fun e => ?_
  rw [get_union, List.map_singleton, outermost_singleton]

end Extents

/-! ## §2. Operators. -/

/-- An operator reads the union of its operands, of which there has to be one. -/
theorem Operator.get_extents (op : Operator α) {xs : List (Extents α)} (hne : xs ≠ []) :
    (op.extents xs).get = op.reading (Extents.union xs).get xs := by
  obtain ⟨x, rest, rfl⟩ := List.exists_cons_of_ne_nil hne
  funext e
  exact Extents.get_ofFn _ e

/-! ## §3. Nodes. -/

namespace Node

theorem extents_apply (tag : Tag) (op : Operator α) (children : List (Node α)) :
    (Node.apply tag op children).extents = op.extents (children.map extents) := by
  rw [← extentsOfAll_eq_map]
  rfl

theorem extents_compose (tag : Tag) (op : SetOperation) (operands : List (Node α)) :
    (Node.compose tag op operands).extents = .compose op (operands.map extents) := by
  rw [← extentsOfAll_eq_map]
  rfl

end Node

end SolidTree
