/-
  SolidTree.Tree.Composition
  ──────────────────────────
  **UNIONS, DIFFERENCES AND INTERSECTIONS.**

  A plain composite takes further operands into itself, so a chain of
  unions is one node; a node with a tag, or of another kind, is one operand.
  Symmetric shapes and the rims of flat shapes are composites too.
-/
import SolidTree.Tree.Transform

namespace SolidTree

namespace Node

variable {α : Type}

/-! ## §1. Operands. -/

/-- The operands of the node, if it is a plain composite by this operation; else the
node itself is the only one. -/
def operandsFor (n : Node α) (op : SetOperation) : List (Node α) :=
  match n with
  | .compose tag own operands => if tag.isPlain ∧ own = op then operands else [n]
  | _ => [n]

/-- The node with further operands. -/
def composeWith (n : Node α) (op : SetOperation) (others : List (Node α)) : Node α :=
  .compose {} op (n.operandsFor op ++ others)

/-- The node and another one. -/
def unionWith (n other : Node α) : Node α := n.composeWith .union [other]

/-- The node without some others. -/
def subtractAll (n : Node α) (others : List (Node α)) : Node α := n.composeWith .difference others

/-- The node without another one. -/
def subtract (n other : Node α) : Node α := n.subtractAll [other]

/-- What the node and another one have in common. -/
def intersectWith (n other : Node α) : Node α := n.composeWith .intersection [other]

/-- The union of some nodes. -/
def unionAll (ns : List (Node α)) : Node α := .compose {} .union ns

/-- The convex hull around some nodes. -/
def hullOf (ns : List (Node α)) : Node α := .apply {} .hull ns

/-- The sum of some nodes: all sums of one point of each. -/
def minkowski (ns : List (Node α)) : Node α := .apply {} .minkowski ns

variable [Scalar α]

/-! ## §2. Composites of a node and its own image. -/

/-- The node and its mirror image in the plane through `center` normal to an axis. -/
def symmetryOn (n : Node α) (axis : Axis) (center : α) : Node α :=
  (n.mirrorOn axis center).unionWith n

/-- The band between a flat node and its offset: a rim outside of the node for a
positive `r`, a skin inside of it for a negative one. -/
def invertedOffset (n : Node α) (r : α) : Node α :=
  if r < 0 then n.subtract (n.offset r) else (n.offset r).subtract n

end Node

end SolidTree
