/-
  SolidTree.Fault
  ───────────────
  **WHAT CAN GO WRONG WITH A MODEL.**

  A fault records its cause with the values that show it; `Fault.message`
  is the only place where a cause becomes a sentence.

      unsupportedTransform    — the box of a transformation has no exact form
      insufficientParameters  — a span is given by fewer than two quantities
      inconsistentCoordinate  — a given quantity differs from the solved one
      emptyComposite          — nothing to measure or to draw
      invalidOperand          — an operator does not take this operand
      invalidArgument         — a value outside of what is accepted
      undefinedExtent         — an edge that geometry alone would show
-/
import SolidTree.Geometry.Vector
import SolidTree.Number.Numeral

namespace SolidTree

/-! ## §1. Causes. -/

/-- A transformation whose box has no exact form. -/
inductive Inexact (α : Type) where
  /-- A rotation by something else than quarter turns. -/
  | rotation (degrees : Vec3 α)
  /-- A mirror plane that is not normal to an axis. -/
  | mirror (normal : Vec3 α)
  /-- An extrusion that turns on its way up. -/
  | twist (degrees : α)
  /-- A revolved profile with points on both sides of the revolution axis. -/
  | profile (left right : α)
  deriving Repr, DecidableEq

/-- One of the four quantities of a span. -/
inductive Quantity where
  | start
  | center
  | finish
  | distance
  deriving Repr, DecidableEq

/-- An operand that an operator does not take. -/
inductive Mismatch where
  /-- Two operators of different kinds do not merge. -/
  | kinds (outer inner : String)
  /-- A pair needs two items. -/
  | loneItem
  deriving Repr, DecidableEq

/-- A value outside of what is accepted. -/
inductive Rejected (α : Type) where
  /-- Two targets on one axis. -/
  | targets (axis : Axis)
  /-- A cutting plane that misses the inside of the object. -/
  | plane (axis : Axis) (position low high : α)
  deriving Repr, DecidableEq

/-- An edge that only drawn geometry would show. -/
inductive Unmeasured where
  /-- A text reaches to an edge that depends on its glyphs. -/
  | glyphs (edge : Edge)
  /-- A shape is given by no points at all. -/
  | noPoints (shape : String)
  /-- A mesh is kept in another file. -/
  | imported (file : String)
  deriving Repr, DecidableEq

/-- A failure to build, measure or draw a model. -/
inductive Fault (α : Type) where
  | unsupportedTransform (cause : Inexact α)
  | insufficientParameters
  | inconsistentCoordinate (quantity : Quantity) (specified calculated : α)
  | emptyComposite (composite : String)
  | invalidOperand (cause : Mismatch)
  | invalidArgument (cause : Rejected α)
  | undefinedExtent (cause : Unmeasured)
  deriving Repr, DecidableEq

/-! ## §2. Sentences. -/

/-- Name of the quantity. -/
def Quantity.name : Quantity → String
  | .start => "from"
  | .center => "center"
  | .finish => "to"
  | .distance => "distance"

private def number (x : Float) : String := NumberStyle.plain.text x

private def triple (v : Vec3 Float) : String :=
  "[" ++ ", ".intercalate (v.toList.map number) ++ "]"

/-- Why the box has no exact form. -/
def Inexact.message : Inexact Float → String
  | .rotation degrees => "rotate(a=" ++ triple degrees ++ ") is not a multiple of 90 degrees"
  | .mirror normal => "mirror(v=" ++ triple normal ++ ") spans more than one axis"
  | .twist degrees => "linear_extrude with twist=" ++ number degrees ++ " has no exact extent"
  | .profile left right =>
    "rotate_extrude of a profile crossing the axis (left=" ++ number left
      ++ ", right=" ++ number right ++ ")"

/-- Why the operand is not taken. -/
def Mismatch.message : Mismatch → String
  | .kinds outer inner => "cannot combine " ++ outer ++ " with " ++ inner
  | .loneItem => "pair of one"

/-- Why the value is not accepted. -/
def Rejected.message : Rejected Float → String
  | .targets axis =>
    "align takes only one of " ++ (Edge.on axis .min).name ++ ", " ++ axis.centerName
      ++ " and " ++ (Edge.on axis .max).name
  | .plane axis position low high =>
    axis.name ++ " = " ++ number position ++ " does not divide the object, which spans "
      ++ number low ++ " to " ++ number high

/-- Why the edge is not known. -/
def Unmeasured.message : Unmeasured → String
  | .glyphs edge =>
    "text " ++ edge.name ++ " edge depends on glyph metrics; anchor it with halign/valign"
  | .noPoints shape => shape ++ " has no points"
  | .imported file => "imported file " ++ file ++ " has no known extent"

/-- The failure in one sentence. -/
def Fault.message : Fault Float → String
  | .unsupportedTransform cause => "Unsupported transform: " ++ cause.message
  | .insufficientParameters =>
    "Insufficient parameters: at least two of from, center, to, distance are required"
  | .inconsistentCoordinate quantity specified calculated =>
    "Inconsistent coordinate: calculated " ++ quantity.name ++ " incompatible with specified "
      ++ quantity.name ++ " (specified: " ++ number specified
      ++ ", calculated: " ++ number calculated ++ ")"
  | .emptyComposite composite => "Empty composite: " ++ composite ++ " has no children"
  | .invalidOperand cause => "Invalid operand: " ++ cause.message
  | .invalidArgument cause => "Invalid argument: " ++ cause.message
  | .undefinedExtent cause => "Undefined extent: " ++ cause.message

end SolidTree
