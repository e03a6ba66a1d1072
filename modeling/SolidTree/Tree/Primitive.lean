/-
  SolidTree.Tree.Primitive
  ────────────────────────
  **LEAF SHAPES.**

  Solids are centered on the origin and flat shapes lie in the XY plane, so
  the edges of most shapes follow from their sizes.  Two shapes have edges
  that cannot be known: a text, whose anchored edges alone are, and an
  imported mesh, which has none.

      name, arguments  — the call that draws the shape
      reading          — the coordinate of one of its edges
-/
import SolidTree.Geometry.Angle
import SolidTree.Geometry.Extents
import SolidTree.Tree.Argument

namespace SolidTree

/-! ## §1. Texts. -/

/-- Where a text is anchored from side to side. -/
inductive HAlign where
  | left
  | center
  | right
  deriving Repr, DecidableEq

/-- Where a text is anchored from top to bottom. -/
inductive VAlign where
  | top
  | center
  | baseline
  | bottom
  deriving Repr, DecidableEq

namespace HAlign

/-- The anchors in order. -/
def all : List HAlign := [.left, .center, .right]

/-- Name of the anchor. -/
def name : HAlign → String
  | .left => "left"
  | .center => "center"
  | .right => "right"

end HAlign

namespace VAlign

/-- The anchors in order. -/
def all : List VAlign := [.top, .center, .baseline, .bottom]

/-- Name of the anchor. -/
def name : VAlign → String
  | .top => "top"
  | .center => "center"
  | .baseline => "baseline"
  | .bottom => "bottom"

end VAlign

/-- A line of text. -/
structure TextShape (α : Type) where
  text : String
  size : α
  font : Option String := none
  halign : Option HAlign := none
  valign : Option VAlign := none
  spacing : Option α := none
  direction : Option String := none
  language : Option String := none
  script : Option String := none
  segments : Option UInt32 := none
  deriving Repr, DecidableEq

namespace TextShape

variable {α : Type}

/-- The text ends at the origin on this edge. A text is anchored left and on its
baseline unless it says otherwise, and it is flat. -/
def isAnchored (t : TextShape α) : Edge → Bool
  | .left => t.halign == none || t.halign == some .left
  | .right => t.halign == some .right
  | .back => t.valign == none || t.valign == some .baseline || t.valign == some .bottom
  | .front => t.valign == some .top
  | .bottom | .top => true

/-- The coordinate of an edge, known where the text is anchored. -/
def reading [Zero α] (t : TextShape α) (e : Edge) : Reading α :=
  if t.isAnchored e then .ok 0 else .error (.undefinedExtent (.glyphs e))

/-- Arguments of the call. -/
def arguments (t : TextShape α) : Arguments α :=
  Arguments.add {} "text" (.text t.text)
    |>.add "size" (.number t.size)
    |>.addSome "font" (t.font.map .text)
    |>.addSome "halign" (t.halign.map (.text ∘ HAlign.name))
    |>.addSome "valign" (t.valign.map (.text ∘ VAlign.name))
    |>.addSome "spacing" (t.spacing.map .number)
    |>.addSome "direction" (t.direction.map .text)
    |>.addSome "language" (t.language.map .text)
    |>.addSome "script" (t.script.map .text)
    |>.addSome "$fn" (t.segments.map .count)

end TextShape

/-! ## §2. Shapes. -/

/-- A leaf of the tree. -/
inductive Primitive (α : Type) where
  | cube (size : Vec3 α)
  | cylinder (height diameter : α) (topDiameter : Option α) (segments : UInt32)
  | sphere (diameter : α) (segments : UInt32)
  | circle (diameter : α) (segments : UInt32)
  | square (width depth : α)
  | text (shape : TextShape α)
  | polygon (points : List (Vec2 α)) (paths : Option (List (List UInt64)))
      (convexity : Option UInt32)
  | polyhedron (points : List (Vec3 α)) (faces : List (List UInt64)) (convexity : UInt32)
  | imported (file : String) (convexity : Option UInt32) (layer : Option String)
  deriving Repr, DecidableEq

namespace Primitive

variable {α : Type}

/-- Name of the call. -/
def name : Primitive α → String
  | .cube .. => "cube"
  | .cylinder .. => "cylinder"
  | .sphere .. => "sphere"
  | .circle .. => "circle"
  | .square .. => "square"
  | .text .. => "text"
  | .polygon .. => "polygon"
  | .polyhedron .. => "polyhedron"
  | .imported .. => "import"

/-- Arguments of the call. A cylinder with a diameter of its own at the top is
written with both. -/
def arguments : Primitive α → Arguments α
  | .cube size => Arguments.add {} "size" (.vector size) |>.add "center" (.boolean true)
  | .cylinder height diameter topDiameter segments =>
    let sides := match topDiameter with
      | none => Arguments.add {} "h" (.number height) |>.add "d" (.number diameter)
      | some top =>
        Arguments.add {} "h" (.number height) |>.add "d1" (.number diameter)
          |>.add "d2" (.number top)
    sides.add "$fn" (.count segments) |>.add "center" (.boolean true)
  | .sphere diameter segments | .circle diameter segments =>
    Arguments.add {} "d" (.number diameter) |>.add "$fn" (.count segments)
  | .square width depth =>
    Arguments.add {} "size" (.numbers [width, depth]) |>.add "center" (.boolean true)
  | .text shape => shape.arguments
  | .polygon points paths convexity =>
    Arguments.add {} "points" (.list (points.map fun p => .numbers [p.x, p.y]))
      |>.addSome "paths" (paths.map .positions)
      |>.addSome "convexity" (convexity.map .count)
  | .polyhedron points faces convexity =>
    Arguments.add {} "points" (.list (points.map .vector))
      |>.add "faces" (.positions faces)
      |>.add "convexity" (.count convexity)
  | .imported file convexity layer =>
    Arguments.add {} "file" (.text file)
      |>.addSome "convexity" (convexity.map .count)
      |>.addSome "layer" (layer.map .text)

/-- The shape drawn with this many facets; only round shapes and texts have facets. -/
def withSegments (shape : Primitive α) (count : UInt32) : Primitive α :=
  match shape with
  | .cylinder height diameter topDiameter _ => .cylinder height diameter topDiameter count
  | .sphere diameter _ => .sphere diameter count
  | .circle diameter _ => .circle diameter count
  | .text shape => .text { shape with segments := some count }
  | shape => shape

/-- A polygon of one outline and some holes. Where there are holes but no outline,
every point belongs to the outline. -/
def polygonWithHoles (points : List (Vec2 α)) (outline : Option (List UInt64))
    (holes : List (List UInt64)) (convexity : Option UInt32) : Primitive α :=
  let outline := match outline with
    | some path => some path
    | none =>
      if holes.isEmpty then none else some ((List.range points.length).map UInt64.ofNat)
  .polygon points (outline.map (· :: holes)) convexity

variable [Scalar α]

/-- A text of the usual size. -/
def ofText (text : String) : TextShape α := { text, size := 10.0 }

/-- A cylinder with the facets of its diameter. -/
def ofCylinder (height diameter : α) : Primitive α :=
  .cylinder height diameter none (Angle.facetsOfDiameter diameter)

/-- A truncated cone with the facets of its lower diameter. -/
def ofCone (height bottom top : α) : Primitive α :=
  .cylinder height bottom (some top) (Angle.facetsOfDiameter bottom)

/-- A sphere with the facets of its diameter. -/
def ofSphere (diameter : α) : Primitive α := .sphere diameter (Angle.facetsOfDiameter diameter)

/-- A circle with the facets of its diameter. -/
def ofCircle (diameter : α) : Primitive α := .circle diameter (Angle.facetsOfDiameter diameter)

/-! ## §3. Edges. -/

/-- The edge of a length that is centered on the origin. -/
def centered (e : Edge) (length : α) : α :=
  match e.side with
  | .min => -length / 2.0
  | .max => length / 2.0

/-- The edge of a centered rectangle in the XY plane. -/
def flat (e : Edge) (width depth : α) : α :=
  match e.axis with
  | .x => centered e width
  | .y => centered e depth
  | .z => 0

/-- The outermost of some coordinates on a side. -/
def extreme (side : Side) (xs : List α) : α :=
  match side with
  | .min => Scalar.leastOf xs
  | .max => Scalar.greatestOf xs

/-- The coordinate of an edge of the shape. -/
def reading (shape : Primitive α) (e : Edge) : Reading α :=
  match shape with
  | .cube size => .ok (centered e (size.get e.axis))
  | .cylinder height diameter topDiameter _ =>
    match e.axis with
    | .z => .ok (centered e height)
    | .x | .y => .ok (centered e (Scalar.greater diameter (topDiameter.getD 0)))
  | .sphere diameter _ => .ok (centered e diameter)
  | .circle diameter _ => .ok (flat e diameter diameter)
  | .square width depth => .ok (flat e width depth)
  | .text shape => shape.reading e
  | .polygon points _ _ =>
    match e.axis with
    | .z => .ok 0
    | axis =>
      if points.isEmpty then .error (.undefinedExtent (.noPoints shape.name))
      else .ok (extreme e.side (points.map fun p => if axis = .x then p.x else p.y))
  | .polyhedron points _ _ =>
    if points.isEmpty then .error (.undefinedExtent (.noPoints shape.name))
    else .ok (extreme e.side (points.map (·.get e.axis)))
  | .imported file _ _ => .error (.undefinedExtent (.imported file))

/-- All edges of the shape. -/
def extents (shape : Primitive α) : Extents α := .ofFn shape.reading

end Primitive

end SolidTree
