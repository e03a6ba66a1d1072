/-
  SolidTree.Tree.Transform
  ────────────────────────
  **WRAPPING NODES IN TRANSFORMATIONS.**

  Everything here goes through `Node.transform`, which keeps trees small:
  an operator over a plain operator of its kind merges with it where that
  keeps the geometry, and an operator over a plain union takes over the
  operands.  A translation or a rotation by nothing is no node at all.
-/
import SolidTree.Tree.Measure

namespace SolidTree

namespace Node

variable {α : Type} [Scalar α]

/-! ## §1. The general step. -/

/-- The node under an operator. -/
def transform (n : Node α) (op : Operator α) : Node α :=
  match n with
  | .apply tag inner children =>
    match tag.isPlain && op.sameKind inner, op.merge inner with
    | true, .ok (some merged) => .apply {} merged children
    | _, _ => .apply {} op [n]
  | .compose tag .union (first :: rest) =>
    if tag.isPlain then .apply {} op (first :: rest) else .apply {} op [n]
  | _ => .apply {} op [n]

/-! ## §2. Translations. -/

/-- The node moved by an offset. -/
def translate (n : Node α) (offset : Vec3 α) : Node α :=
  if offset.isZero then n else n.transform (.translate offset)

/-- The node moved along one axis. -/
def translateOn (n : Node α) (axis : Axis) (distance : α) : Node α :=
  n.translate ((0 : Vec3 α).set axis distance)

/-! ## §3. Rotations. -/

/-- The node turned about X, then about Y, then about Z. -/
def rotate (n : Node α) (degrees : Vec3 α) : Node α :=
  let reduced := degrees.map Angle.normalize
  if reduced.isZero then n else n.transform (.rotate reduced)

/-- The node turned about one axis. -/
def rotateOn (n : Node α) (axis : Axis) (degrees : α) : Node α :=
  n.rotate ((0 : Vec3 α).set axis degrees)

/-- The node turned about a point. -/
def rotateAround (n : Node α) (degrees center : Vec3 α) : Node α :=
  if (degrees.map Angle.normalize).isZero then n
  else ((n.translate (-center)).rotate degrees).translate center

/-- Half a turn about X or about Y. -/
def upsideDown (n : Node α) (aboutX : Bool) : Node α :=
  n.rotateOn (if aboutX then .x else .y) 180.0

/-! ## §4. Scaling and mirroring. -/

/-- The node with lengths multiplied along the axes. -/
def scale (n : Node α) (factors : Vec3 α) : Node α := n.transform (.scale factors)

/-- The mirror image in the plane through the origin with this normal. -/
def mirror (n : Node α) (normal : Vec3 α) : Node α := n.transform (.mirror normal)

/-- The mirror image in the plane through `center` that is normal to an axis. -/
def mirrorOn (n : Node α) (axis : Axis) (center : α) : Node α :=
  ((n.translateOn axis (-center)).mirror ((0 : Vec3 α).set axis 1.0)).translateOn axis center

/-! ## §5. Flat shapes, color, sweeps. -/

/-- The shadow of the node on the XY plane, or its cut with it. -/
def project (n : Node α) (cut : Bool) : Node α := n.transform (.projection cut)

/-- The flat node with its outline moved out by `r`, corners rounded. -/
def offset (n : Node α) (r : α) : Node α := n.transform (.offset (some r) none false)

/-- The flat node with its outline moved out by `delta`, corners kept or cut off. -/
def offsetDelta (n : Node α) (delta : α) (chamfer : Bool) : Node α :=
  n.transform (.offset none (some delta) chamfer)

/-- The convex hull of the node. -/
def hull (n : Node α) : Node α := n.transform .hull

/-- The node in a color. -/
def color (n : Node α) (name : String) (alpha : Option α) : Node α :=
  n.transform (.color name alpha)

/-- The node swept along a vector. -/
def slide (n : Node α) (offset : Vec3 α) : Node α := n.transform (.slide offset)

/-- The node, drawn once and kept. -/
def cacheRender (n : Node α) (convexity : UInt32) : Node α := n.transform (.render convexity)

/-- The flat node extruded upwards. -/
def linearExtrude (n : Node α) (height : α) (options : ExtrudeOptions α) : Node α :=
  n.transform (.linearExtrude height options)

/-- The flat node swept about the Z axis. -/
def rotationalExtrude (n : Node α) (angle : α) (convexity segments : Option UInt32) : Node α :=
  n.transform (.revolve angle convexity segments)

end Node

end SolidTree
