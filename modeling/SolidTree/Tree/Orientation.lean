/-
  SolidTree.Tree.Orientation
  ──────────────────────────
  **TURNING ONE FACE INTO ANOTHER.**

  `n.turnFace a b` turns a node so that what faced `a` faces `b`.  Faces are
  named by edges.  A face goes to its neighbours by one or two quarter turns
  and to the opposite face by half a turn.
-/
import SolidTree.Tree.Transform

namespace SolidTree

variable {α : Type} [Scalar α]

/-- The turns, one after the other, that bring face `a` to face `b`. -/
def Edge.turnsTo (a b : Edge) : List (Axis × α) :=
  match a, b with
  | .left, .right | .right, .left | .front, .back | .back, .front => [(.z, 180.0)]
  | .top, .bottom | .bottom, .top => [(.x, 180.0)]
  | .left, .top => [(.y, 90.0), (.z, 90.0)]
  | .left, .bottom | .right, .top => [(.y, -90.0), (.z, 90.0)]
  | .right, .bottom => [(.y, 90.0), (.z, -90.0)]
  | .left, .front | .right, .back | .front, .right | .back, .left => [(.z, -90.0)]
  | .left, .back | .right, .front | .front, .left | .back, .right => [(.z, 90.0)]
  | .front, .top => [(.x, 90.0), (.z, 180.0)]
  | .front, .bottom | .bottom, .front => [(.x, -90.0), (.z, 180.0)]
  | .back, .top | .bottom, .back => [(.x, -90.0)]
  | .back, .bottom | .top, .back => [(.x, 90.0)]
  | .bottom, .left => [(.x, -90.0), (.z, -90.0)]
  | .bottom, .right => [(.x, -90.0), (.z, 90.0)]
  | .top, .front => [(.x, -90.0), (.y, 180.0)]
  | .top, .left => [(.x, 90.0), (.z, -90.0)]
  | .top, .right => [(.x, 90.0), (.z, 90.0)]
  | _, _ => []

/-- The node turned so that what faced `a` faces `b`. -/
def Node.turnFace (n : Node α) (a b : Edge) : Node α :=
  (a.turnsTo b).foldl (fun n turn => n.rotateOn turn.1 turn.2) n

end SolidTree
