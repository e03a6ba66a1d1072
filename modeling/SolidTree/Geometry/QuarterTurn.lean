/-
  SolidTree.Geometry.QuarterTurn
  ──────────────────────────────
  **EXACT ROTATIONS.**

  A rotation by quarter turns maps every axis onto an axis, perhaps
  flipped.  Its matrix has entries -1, 0 and 1, so the edges of a turned box
  are edges of the box before, some with their sign changed:

      ofDegrees? angles  — X first, then Y, then Z; none unless every angle
                           is a quarter turn within a small tolerance
      source e           — the edge that lands on `e`, and whether it is
                           negated on the way
-/
import SolidTree.Geometry.Angle
import SolidTree.Geometry.Extents

namespace SolidTree

/-- A matrix of integers, by rows; those built here permute and flip axes. -/
structure QuarterTurn where
  rows : Vec3 (Vec3 Int)
  deriving Repr, DecidableEq

namespace QuarterTurn

/-! ## §1. Matrices. -/

/-- The turn that moves nothing. -/
def identity : QuarterTurn := ⟨⟨1, 0, 0⟩, ⟨0, 1, 0⟩, ⟨0, 0, 1⟩⟩

/-- The entry in a row and a column. -/
def entry (t : QuarterTurn) (row column : Axis) : Int := (t.rows.get row).get column

/-- The turn `t` after the turn `s`. -/
def after (t s : QuarterTurn) : QuarterTurn :=
  ⟨.ofFn fun row => .ofFn fun column =>
    t.entry row .x * s.entry .x column + t.entry row .y * s.entry .y column
      + t.entry row .z * s.entry .z column⟩

/-- Cosine and sine of a number of quarter turns. -/
def cosSin (quarters : Nat) : Int × Int :=
  match quarters % 4 with
  | 0 => (1, 0)
  | 1 => (0, 1)
  | 2 => (-1, 0)
  | _ => (0, -1)

/-- Quarter turns about one axis. -/
def about (axis : Axis) (quarters : Nat) : QuarterTurn :=
  let (c, s) := cosSin quarters
  match axis with
  | .x => ⟨⟨1, 0, 0⟩, ⟨0, c, -s⟩, ⟨0, s, c⟩⟩
  | .y => ⟨⟨c, 0, s⟩, ⟨0, 1, 0⟩, ⟨-s, 0, c⟩⟩
  | .z => ⟨⟨c, -s, 0⟩, ⟨s, c, 0⟩, ⟨0, 0, 1⟩⟩

/-- Quarter turns about X, then about Y, then about Z. -/
def ofQuarters (quarters : Vec3 Nat) : QuarterTurn :=
  ((about .z quarters.z).after (about .y quarters.y)).after (about .x quarters.x)

/-! ## §2. From angles. -/

variable {α : Type} [Scalar α]

/-- How far an angle may be from a quarter turn. -/
def tolerance : α := 1e-9

/-- The number of quarter turns in an angle, up to whole turns. An angle is refused
if it is farther than the tolerance from the nearest quarter turn. -/
def quarters? (angle : α) : Option Nat :=
  let a := Angle.normalize angle
  let turns := Scalar.round (a / 90.0)
  if tolerance < Scalar.abs (a - turns * 90.0) then none
  else some (Scalar.wholePart turns % 4)

/-- The turn of three angles in degrees. -/
def ofDegrees (angles : Vec3 α) : Except (Fault α) QuarterTurn :=
  match quarters? angles.x, quarters? angles.y, quarters? angles.z with
  | some x, some y, some z => .ok (ofQuarters ⟨x, y, z⟩)
  | _, _, _ => .error (.unsupportedTransform (.rotation angles))

/-! ## §3. Edges under a turn. -/

/-- The edge whose coordinate lands on `e`, and whether it is negated on the way. -/
def source (t : QuarterTurn) (e : Edge) : Edge × Bool :=
  let column := (Axis.all.find? fun a => t.entry e.axis a != 0).getD e.axis
  if 0 < t.entry e.axis column then (.on column e.side, false)
  else (.on column e.side.opposite, true)

/-- The reading at an edge after the turn, given the readings before. -/
def reading (t : QuarterTurn) (before : Edge → Reading α) (e : Edge) :
    Except (Fault α) α := do
  let (source, negated) := t.source e
  let a ← before source
  return if negated then -a else a

/-- The box of a turned box. -/
def turnBox (t : QuarterTurn) (b : BoundingBox α) : BoundingBox α :=
  .ofFn fun e =>
    let (source, negated) := t.source e
    if negated then -b.get source else b.get source

end QuarterTurn

end SolidTree
