/-
  SolidTree.Tree.Operator
  ───────────────────────
  **OPERATORS AND THEIR EFFECT ON BOXES.**

  An operator applies to the union of its children.  It maps the readings of
  the union to its own readings, edge by edge:

      translate  adds          rotate   permutes and negates
      scale      multiplies    mirror   swaps and negates
      extrude    lifts         revolve  sweeps radii over an angle

  and `minkowski` alone looks at the children one by one.  Two operators of
  one kind may merge into one; `Operator.merge` says when that keeps the
  geometry.
-/
import SolidTree.Geometry.QuarterTurn
import SolidTree.Tree.Argument

namespace SolidTree

/-! ## §1. Operators. -/

/-- How a linear extrusion is done, besides its height. -/
structure ExtrudeOptions (α : Type) where
  center : Bool
  convexity : UInt32
  twist : α
  slices : Option UInt32
  scale : α
  deriving Repr, DecidableEq

/-- Straight up from the ground, neither twisted nor scaled. -/
def ExtrudeOptions.straight {α : Type} [Scalar α] : ExtrudeOptions α where
  center := false
  convexity := 10
  twist := 0
  slices := none
  scale := 1.0

/-- A transformation of the union of its children. -/
inductive Operator (α : Type) where
  | translate (offset : Vec3 α)
  /-- By angles in degrees: about X, then about Y, then about Z. -/
  | rotate (degrees : Vec3 α)
  | scale (factors : Vec3 α)
  /-- In the plane through the origin with this normal. -/
  | mirror (normal : Vec3 α)
  | linearExtrude (height : α) (options : ExtrudeOptions α)
  | rotateExtrude (angle : α) (convexity : Option UInt32) (segments : UInt32)
  | offset (r delta : Option α) (chamfer : Bool)
  | projection (cut : Bool)
  | color (name : String) (alpha : Option α)
  /-- A sweep along a vector. -/
  | slide (offset : Vec3 α)
  | hull
  | minkowski
  /-- Drawn once and kept. -/
  | render (convexity : UInt32)
  deriving Repr, DecidableEq

namespace Operator

variable {α : Type}

/-- Name of the call. -/
def name : Operator α → String
  | .translate _ => "translate"
  | .rotate _ => "rotate"
  | .scale _ => "scale"
  | .mirror _ => "mirror"
  | .linearExtrude .. => "linear_extrude"
  | .rotateExtrude .. => "rotate_extrude"
  | .offset .. => "offset"
  | .projection _ => "projection"
  | .color .. => "color"
  | .slide _ => "slide"
  | .hull => "hull"
  | .minkowski => "minkowski"
  | .render _ => "render"

/-- Arguments of the call. -/
def arguments : Operator α → Arguments α
  | .translate v | .scale v | .mirror v | .slide v => Arguments.add {} "v" (.vector v)
  | .rotate a => Arguments.add {} "a" (.vector a)
  | .linearExtrude height options =>
    Arguments.add {} "height" (.number height)
      |>.add "center" (.boolean options.center)
      |>.add "convexity" (.count options.convexity)
      |>.add "twist" (.number options.twist)
      |>.addSome "slices" (options.slices.map .count)
      |>.add "scale" (.number options.scale)
  | .rotateExtrude angle convexity segments =>
    Arguments.add {} "angle" (.number angle)
      |>.addSome "convexity" (convexity.map .count)
      |>.add "$fn" (.count segments)
  | .offset r delta chamfer =>
    Arguments.addSome {} "r" (r.map .number)
      |>.addSome "delta" (delta.map .number)
      |>.add "chamfer" (.boolean chamfer)
  | .projection cut => Arguments.add {} "cut" (.boolean cut)
  | .color name alpha =>
    Arguments.addPositional {} (.text name) |>.addSome "alpha" (alpha.map .number)
  | .hull | .minkowski => {}
  | .render convexity => Arguments.add {} "convexity" (.count convexity)

/-- Two operators are of one kind when they are calls of one name. -/
def sameKind (op other : Operator α) : Bool := op.name == other.name

variable [Scalar α]

/-- A rotation with its angles reduced to one turn. -/
def ofAngles (degrees : Vec3 α) : Operator α := .rotate (degrees.map Angle.normalize)

/-- A sweep about the Z axis, with the facets of its angle unless they are given. -/
def revolve (angle : α) (convexity segments : Option UInt32) : Operator α :=
  .rotateExtrude angle convexity (segments.getD (Angle.facetsOfSweep angle))

/-! ## §2. Merging. -/

/-- A rotation by `outer` after one by `inner` is a rotation by their sum. Since the
axes turn in the order X, Y, Z, that is so for an outer rotation about Z alone,
for one about Y if the inner one leaves Z alone, and for one about X if the inner
one is about X alone. -/
def sumsWith (outer inner : Vec3 α) : Bool :=
  (outer.x == 0 && outer.y == 0)
    || (inner.z == 0 && outer.x == 0 && outer.z == 0)
    || (inner.y == 0 && inner.z == 0 && outer.y == 0 && outer.z == 0)

/-- One operator for `outer` after `inner`; `none` if they are of one kind but two
are needed, and a fault if they are of different kinds. -/
def merge (outer inner : Operator α) : Except (Fault α) (Option (Operator α)) :=
  match outer, inner with
  | .translate v, .translate w => .ok (some (.translate (v + w)))
  | .rotate a, .rotate b => .ok (if sumsWith a b then some (ofAngles (a + b)) else none)
  | _, _ =>
    if outer.sameKind inner then .ok none
    else .error (.invalidOperand (.kinds outer.name inner.name))

/-! ## §3. Readings. -/

/-- Edge of an extrusion: its floor is the bottom of the profile, and only a
profile that does not turn keeps its sides. -/
def extrudedReading (height : α) (options : ExtrudeOptions α) (child : Edge → Reading α)
    (e : Edge) : Except (Fault α) α := do
  match e with
  | .bottom =>
    let floor ← child .bottom
    return if options.center then floor - height / 2.0 else floor
  | .top =>
    let floor ← child .bottom
    return if options.center then floor + height / 2.0 else floor + height
  | _ =>
    if options.twist == 0 then
      let side ← child e
      return side * options.scale
    else throw (.unsupportedTransform (.twist options.twist))

/-- The quarter turns strictly between two angles less than a full turn apart. -/
def quartersBetween (start stop : α) : List α :=
  let first := Scalar.floor (start / 90.0) * 90.0 + 90.0
  [first, first + 90.0, first + 180.0, first + 270.0].takeWhile (· < stop)

/-- Edge of a partial sweep of the radii from `left` to `right`. It is reached at an
end of the sweep or at a quarter turn in between, on the inner or on the outer
radius. A profile on the negative side sweeps the same radii half a turn ahead. -/
def sectorEdge (angle left right : α) (e : Edge) : α :=
  let (inner, outer, phase) : α × α × α :=
    if right ≤ 0 then (-right, -left, 180.0) else (left, right, 0)
  let (start, stop) := if 0 ≤ angle then (phase, phase + angle) else (phase + angle, phase)
  let values := (start :: stop :: quartersBetween start stop).flatMap fun a =>
    let (cos, sin) := Angle.direction a
    let component := match e.axis with
      | .x => cos
      | _ => sin
    [inner * component, outer * component]
  match e.side with
  | .min => Scalar.leastOf values
  | .max => Scalar.greatestOf values

/-- Edge of a profile that is swept about the Z axis. The depth of the profile
becomes the height, and it always reaches the origin. -/
def revolvedReading (angle : α) (child : Edge → Reading α) (e : Edge) :
    Except (Fault α) α := do
  let left ← child .left
  let right ← child .right
  if left < 0 ∧ 0 < right then
    throw (.unsupportedTransform (.profile left right))
  match e with
  | .top =>
    let front ← child .front
    return Scalar.greater front 0
  | .bottom =>
    let back ← child .back
    return Scalar.lesser back 0
  | _ =>
    if 360.0 ≤ Scalar.abs angle then
      let radius := Scalar.greater right (-left)
      return match e.side with
        | .min => -radius
        | .max => radius
    else return sectorEdge angle left right e

/-- Edge of a shape that grows by `r` in the XY plane. -/
def grownReading (r : α) (child : Edge → Reading α) (e : Edge) : Except (Fault α) α := do
  let a ← child e
  match e.axis, e.side with
  | .z, _ => return a
  | _, .min => return a - r
  | _, .max => return a + r

/-- Edge of a mirror image. More than one axis may not be flipped. -/
def mirroredReading (normal : Vec3 α) (child : Edge → Reading α) (e : Edge) :
    Except (Fault α) α := do
  if 1 < (Axis.all.filter fun axis => normal.get axis != 0).length then
    throw (.unsupportedTransform (.mirror normal))
  if normal.get e.axis != 0 then
    let a ← child e.opposite
    return -a
  else child e

/-- Edge of a scaled element; a negative factor swaps low and high. -/
def scaledReading (factors : Vec3 α) (child : Edge → Reading α) (e : Edge) :
    Except (Fault α) α := do
  let low ← child (.on e.axis .min)
  let high ← child (.on e.axis .max)
  let factor := factors.get e.axis
  return Extents.outer e.side (low * factor) (high * factor)

/-- Sum of the readings of all children. -/
def summedReading (readings : List (Reading α)) : Except (Fault α) α := do
  match ← readings.mapM id with
  | [] => return 0
  | a :: rest => return rest.foldl (· + ·) a

/-- Edge of the operator over children with these extents, of which `child` are the
readings of the union. -/
def reading (op : Operator α) (child : Edge → Reading α) (children : List (Extents α))
    (e : Edge) : Except (Fault α) α := do
  match op with
  | .translate v =>
    let a ← child e
    return a + v.get e.axis
  | .rotate degrees =>
    let turn ← QuarterTurn.ofDegrees degrees
    turn.reading child e
  | .scale factors => scaledReading factors child e
  | .mirror normal => mirroredReading normal child e
  | .linearExtrude height options => extrudedReading height options child e
  | .rotateExtrude angle _ _ => revolvedReading angle child e
  | .offset (some r) _ _ => if 0 ≤ r then grownReading r child e else child e
  | .projection _ =>
    match e.axis with
    | .z => return 0
    | _ => child e
  | .minkowski => summedReading (children.map (·.get e))
  | .offset none _ _ | .color .. | .slide _ | .hull | .render _ => child e

/-- All edges of the operator over children with these extents. There has to be a
child. -/
def extents (op : Operator α) (children : List (Extents α)) : Extents α :=
  if children.isEmpty then .failed (.emptyComposite op.name)
  else
    let union := Extents.union children
    .ofFn (op.reading union.get children)

end Operator

end SolidTree
