/-
  SolidTree.Tree.Placement
  ────────────────────────
  **PUTTING NODES WHERE THEY BELONG.**

      align           — an edge or a center per axis onto its target
      volume          — a cuboid over three spans
      boundingNode    — the cuboid that is the box of a node
      divide          — a node cut in two by a plane
      extrudeAlong    — a flat node extruded so that it covers a span
      revolveOn       — a flat node swept about a vertical axis

  All of them measure a node first, so they fail where the edges they need
  are not known.
-/
import SolidTree.Geometry.Span
import SolidTree.Tree.Composition
import SolidTree.Tree.Orientation

namespace SolidTree

variable {α : Type} [Scalar α]

/-! ## §1. Alignment. -/

/-- Where to put the low edge, the center or the high edge on one axis. -/
structure Target (α : Type) where
  low : Option α := none
  center : Option α := none
  high : Option α := none
  deriving Repr, DecidableEq

/-- Where to put a node; each axis takes at most one target. -/
abbrev Alignment (α : Type) := Vec3 (Target α)

namespace Alignment

omit [Scalar α]

/-- The node stays where it is. -/
def free : Alignment α := ⟨{}, {}, {}⟩

/-- An edge is to be put at a coordinate. -/
def edge (a : Alignment α) (e : Edge) (value : α) : Alignment α :=
  let target := a.get e.axis
  a.set e.axis (match e.side with
    | .min => { target with low := some value }
    | .max => { target with high := some value })

/-- The center on an axis is to be put at a coordinate. -/
def center (a : Alignment α) (axis : Axis) (value : α) : Alignment α :=
  a.set axis { a.get axis with center := some value }

end Alignment

/-- How far to move along an axis to reach the target there. -/
def Target.offset (t : Target α) (axis : Axis) (measure : Extents α) : Except (Fault α) α := do
  match t.low, t.center, t.high with
  | none, none, none => return 0
  | some a, none, none =>
    let low ← measure.get (.on axis .min)
    return a - low
  | none, some a, none =>
    let middle ← measure.middle axis
    return a - middle
  | none, none, some a =>
    let high ← measure.get (.on axis .max)
    return a - high
  | _, _, _ => throw (.invalidArgument (.targets axis))

namespace Node

/-- The node moved onto its targets. -/
def align (n : Node α) (a : Alignment α) : Except (Fault α) (Node α) := do
  let measure := n.extents
  let x ← a.x.offset .x measure
  let y ← a.y.offset .y measure
  let z ← a.z.offset .z measure
  return n.translate ⟨x, y, z⟩

/-! ## §2. Cuboids. -/

/-- A cuboid around the origin. -/
def cube (size : Vec3 α) : Node α := .leaf {} (.cube size)

/-- The cuboid that fills a box. -/
def ofBox (b : BoundingBox α) : Node α := (cube b.size).translate b.center

/-- The cuboid over three spans. -/
def volume (x y z : SpanSpec α) : Except (Fault α) (Node α) := do
  let x ← x.resolve
  let y ← y.resolve
  let z ← z.resolve
  return (cube ⟨x.distance, y.distance, z.distance⟩).translate ⟨x.center, y.center, z.center⟩

/-- The cuboid that fills the box of the node. -/
def boundingNode (n : Node α) : Except (Fault α) (Node α) := do
  let b ← n.extents.box
  return ofBox b

/-- The parts of the node below and above a plane normal to an axis, each ending
`gap` before the plane. The plane has to pass through the inside of the box. -/
def divide (n : Node α) (axis : Axis) (position gap : α) :
    Except (Fault α) (Node α × Node α) := do
  let b ← n.extents.box
  let low := b.min.get axis
  let high := b.max.get axis
  if low < position ∧ position < high then
    let below := b.set (.on axis .max) (position - gap)
    let above := b.set (.on axis .min) (position + gap)
    return (n.intersectWith (ofBox below), n.intersectWith (ofBox above))
  else throw (.invalidArgument (.plane axis position low high))

/-! ## §3. Extrusions in place. -/

/-- The flat node extruded along an axis so that it covers a span. It grows towards
the high end of the axis, or towards the low end if it is reversed. -/
def extrudeAlong (n : Node α) (axis : Axis) (span : SpanSpec α) (reversed : Bool)
    (options : ExtrudeOptions α) : Except (Fault α) (Node α) := do
  let solved ← span.resolve
  let side : Side := if reversed then .min else .max
  let target := if reversed then solved.start else solved.finish
  let edge := Edge.on axis side
  let oriented := (n.linearExtrude solved.distance options).turnFace .top edge
  oriented.align (Alignment.free.edge edge target)

end Node

/-- Where a swept profile goes. -/
structure RevolveOptions (α : Type) where
  /-- The angles that it sweeps; a full turn if nothing is given. -/
  angle : SpanSpec α := {}
  /-- Distance of the profile from the axis. -/
  radius : α
  centerX : α
  centerY : α
  /-- The heights that it covers. Their distance is the depth of the profile. -/
  z : SpanSpec α := {}
  convexity : Option UInt32 := none
  segments : Option UInt32 := none

/-- Start and length of the sweep. -/
def RevolveOptions.sweep (o : RevolveOptions α) : Except (Fault α) (α × α) :=
  if o.angle.count = 0 then .ok (0, 360.0)
  else do
    let solved ← o.angle.resolve
    return (solved.start, solved.distance)

/-- The flat node pushed out from a vertical axis, swept about it, and put in place. -/
def Node.revolveOn (n : Node α) (o : RevolveOptions α) : Except (Fault α) (Node α) := do
  let depth ← n.extents.span .y
  let z ← { o.z with distance? := some depth }.resolve
  let (start, sweep) ← o.sweep
  let swept := (n.translateOn .x o.radius).rotationalExtrude sweep o.convexity o.segments
  let placed := (swept.rotateOn .z start).translate ⟨o.centerX, o.centerY, 0⟩
  placed.align (Alignment.free.edge .bottom z.start)

end SolidTree
