/-
  SolidTree.Codec.Geometry
  ────────────────────────
  **VECTORS, SPANS, BOXES AND AXES AS JSON.**

  A vector is an array of its components.  A span and a box are objects with
  the fields of their types; axes, sides and edges are capitalized names.
-/
import SolidTree.Codec.Decoder
import SolidTree.Geometry.Box
import SolidTree.Geometry.Span

namespace SolidTree

open JsonLibrary (ofFloat)

section

variable [JsonLibrary]

/-! ## §1. Vectors. -/

namespace Vec3

/-- A triple as JSON. -/
def toJson (v : Vec3 Float) : Json := .ofList ofFloat v.toList

/-- A triple from JSON. -/
def decoder : Decoder (Vec3 Float) := fun room j =>
  match Decoder.float.list room j with
  | some [x, y, z] => some ⟨x, y, z⟩
  | _ => none

end Vec3

namespace Vec2

/-- A pair as JSON. -/
def toJson (v : Vec2 Float) : Json := .ofList ofFloat [v.x, v.y]

/-- A pair from JSON. -/
def decoder : Decoder (Vec2 Float) := fun room j =>
  match Decoder.float.list room j with
  | some [x, y] => some ⟨x, y⟩
  | _ => none

end Vec2

/-! ## §2. Spans. -/

/-- The names of the four quantities. -/
def Quantity.names : List String :=
  [Quantity.start, .center, .finish, .distance].map Quantity.name

namespace SpanSpec

/-- What is known of a span, as JSON. -/
def toJson (s : SpanSpec Float) : Json :=
  .ofFields
    [("from", .ofOption ofFloat s.start?), ("center", .ofOption ofFloat s.center?),
      ("to", .ofOption ofFloat s.finish?), ("distance", .ofOption ofFloat s.distance?)]

/-- What is known of a span, from JSON. -/
def decoder : Decoder (SpanSpec Float) := .record Quantity.names fun r => do
  let start? ← r.optional "from" .float
  let center? ← r.optional "center" .float
  let finish? ← r.optional "to" .float
  let distance? ← r.optional "distance" .float
  return { start?, center?, finish?, distance? }

end SpanSpec

namespace Span

/-- A solved span as JSON. -/
def toJson (s : Span Float) : Json :=
  .ofFields
    [("from", ofFloat s.start), ("center", ofFloat s.center), ("to", ofFloat s.finish),
      ("distance", ofFloat s.distance)]

/-- A solved span from JSON. -/
def decoder : Decoder (Span Float) := .record Quantity.names fun r => do
  let start ← r.required "from" .float
  let center ← r.required "center" .float
  let finish ← r.required "to" .float
  let distance ← r.required "distance" .float
  return { start, center, finish, distance }

end Span

/-! ## §3. Boxes. -/

namespace BoundingBox

/-- A box as JSON. -/
def toJson (b : BoundingBox Float) : Json :=
  .ofFields [("min", b.min.toJson), ("max", b.max.toJson)]

/-- A box from JSON. -/
def decoder : Decoder (BoundingBox Float) := .record ["min", "max"] fun r => do
  let min ← r.required "min" Vec3.decoder
  let max ← r.required "max" Vec3.decoder
  return { min, max }

end BoundingBox

end

/-! ## §4. Names. -/

namespace Axis

/-- Name of an axis in JSON. -/
def tagName : Axis → String
  | .x => "X"
  | .y => "Y"
  | .z => "Z"

/-- An axis as JSON. -/
def toJson (a : Axis) : Json := .ofString a.tagName

/-- An axis from JSON. -/
def decoder : Decoder Axis := .named all tagName

end Axis

namespace Side

/-- Name of a side in JSON. -/
def tagName : Side → String
  | .min => "Min"
  | .max => "Max"

/-- A side as JSON. -/
def toJson (s : Side) : Json := .ofString s.tagName

/-- A side from JSON. -/
def decoder : Decoder Side := .named [.min, .max] tagName

end Side

namespace Edge

/-- Name of an edge in JSON. -/
def tagName : Edge → String
  | .left => "Left"
  | .right => "Right"
  | .back => "Back"
  | .front => "Front"
  | .bottom => "Bottom"
  | .top => "Top"

/-- An edge as JSON. -/
def toJson (e : Edge) : Json := .ofString e.tagName

/-- An edge from JSON. -/
def decoder : Decoder Edge := .named all tagName

end Edge

end SolidTree
