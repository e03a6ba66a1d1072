/-
  SolidTree.Codec.Shape
  ─────────────────────
  **SHAPES AND OPERATORS AS JSON.**

  Each shape and each operator is a case with its data under its name; an
  operator without data is its bare name.  Fields are written in the order
  of the types, absent values as `null`.
-/
import SolidTree.Codec.Geometry
import SolidTree.Tree.Operator
import SolidTree.Tree.Primitive

namespace SolidTree

open JsonLibrary (ofFloat)

variable [JsonLibrary]

/-- A 32-bit word as JSON. -/
def Json.ofWord (n : UInt32) : Json := JsonLibrary.ofNat n.toNat

/-- Lists of positions as JSON. -/
def Json.ofPaths (paths : List (List UInt64)) : Json :=
  .ofList (.ofList fun n : UInt64 => JsonLibrary.ofNat n.toNat) paths

/-- Lists of positions from JSON. -/
def Decoder.paths : Decoder (List (List UInt64)) := Decoder.longWord.list.list

/-! ## §1. Texts. -/

namespace TextShape

/-- A text shape as JSON. -/
def toJson (t : TextShape Float) : Json :=
  .ofFields
    [("text", .ofString t.text), ("size", ofFloat t.size),
      ("font", .ofOption .ofString t.font),
      ("halign", .ofOption (fun a => .ofString (HAlign.name a)) t.halign),
      ("valign", .ofOption (fun a => .ofString (VAlign.name a)) t.valign),
      ("spacing", .ofOption ofFloat t.spacing),
      ("direction", .ofOption .ofString t.direction),
      ("language", .ofOption .ofString t.language),
      ("script", .ofOption .ofString t.script),
      ("segments", .ofOption .ofWord t.segments)]

/-- The names of the fields. -/
def names : List String :=
  ["text", "size", "font", "halign", "valign", "spacing", "direction", "language", "script",
    "segments"]

/-- A text shape from JSON. -/
def decoder : Decoder (TextShape Float) := .record names fun r => do
  let text ← r.required "text" .text
  let size ← r.required "size" .float
  let font ← r.defaulted "font" none Decoder.text.option
  let halign ← r.defaulted "halign" none (Decoder.named HAlign.all HAlign.name).option
  let valign ← r.defaulted "valign" none (Decoder.named VAlign.all VAlign.name).option
  let spacing ← r.defaulted "spacing" none Decoder.float.option
  let direction ← r.defaulted "direction" none Decoder.text.option
  let language ← r.defaulted "language" none Decoder.text.option
  let script ← r.defaulted "script" none Decoder.text.option
  let segments ← r.defaulted "segments" none Decoder.word.option
  return { text, size, font, halign, valign, spacing, direction, language, script, segments }

end TextShape

/-! ## §2. Shapes. -/

namespace Primitive

/-- A shape as JSON. -/
def toJson : Primitive Float → Json
  | .cube size => .tagged "Cube" (.ofFields [("size", size.toJson)])
  | .cylinder height diameter topDiameter segments =>
    .tagged "Cylinder" (.ofFields
      [("height", ofFloat height), ("diameter", ofFloat diameter),
        ("top_diameter", .ofOption ofFloat topDiameter), ("segments", .ofWord segments)])
  | .sphere diameter segments =>
    .tagged "Sphere" (.ofFields [("diameter", ofFloat diameter), ("segments", .ofWord segments)])
  | .circle diameter segments =>
    .tagged "Circle" (.ofFields [("diameter", ofFloat diameter), ("segments", .ofWord segments)])
  | .square width depth =>
    .tagged "Square" (.ofFields [("width", ofFloat width), ("depth", ofFloat depth)])
  | .text shape => .tagged "Text" shape.toJson
  | .polygon points paths convexity =>
    .tagged "Polygon" (.ofFields
      [("points", .ofList Vec2.toJson points), ("paths", .ofOption .ofPaths paths),
        ("convexity", .ofOption .ofWord convexity)])
  | .polyhedron points faces convexity =>
    .tagged "Polyhedron" (.ofFields
      [("points", .ofList Vec3.toJson points), ("faces", .ofPaths faces),
        ("convexity", .ofWord convexity)])
  | .imported file convexity layer =>
    .tagged "Import" (.ofFields
      [("file", .ofString file), ("convexity", .ofOption .ofWord convexity),
        ("layer", .ofOption .ofString layer)])

/-- The cases of shapes. -/
def cases : List (String × Decoder (Primitive Float)) :=
  [("Cube", .record ["size"] fun r => do
      let size ← r.required "size" Vec3.decoder
      return .cube size),
    ("Cylinder", .record ["height", "diameter", "top_diameter", "segments"] fun r => do
      let height ← r.required "height" .float
      let diameter ← r.required "diameter" .float
      let topDiameter ← r.optional "top_diameter" .float
      let segments ← r.required "segments" .word
      return .cylinder height diameter topDiameter segments),
    ("Sphere", .record ["diameter", "segments"] fun r => do
      let diameter ← r.required "diameter" .float
      let segments ← r.required "segments" .word
      return .sphere diameter segments),
    ("Circle", .record ["diameter", "segments"] fun r => do
      let diameter ← r.required "diameter" .float
      let segments ← r.required "segments" .word
      return .circle diameter segments),
    ("Square", .record ["width", "depth"] fun r => do
      let width ← r.required "width" .float
      let depth ← r.required "depth" .float
      return .square width depth),
    ("Text", TextShape.decoder.map .text),
    ("Polygon", .record ["points", "paths", "convexity"] fun r => do
      let points ← r.required "points" Vec2.decoder.list
      let paths ← r.optional "paths" .paths
      let convexity ← r.optional "convexity" .word
      return .polygon points paths convexity),
    ("Polyhedron", .record ["points", "faces", "convexity"] fun r => do
      let points ← r.required "points" Vec3.decoder.list
      let faces ← r.required "faces" .paths
      let convexity ← r.required "convexity" .word
      return .polyhedron points faces convexity),
    ("Import", .record ["file", "convexity", "layer"] fun r => do
      let file ← r.required "file" .text
      let convexity ← r.optional "convexity" .word
      let layer ← r.optional "layer" .text
      return .imported file convexity layer)]

/-- A shape from JSON. -/
def decoder : Decoder (Primitive Float) := .variant [] cases

end Primitive

/-! ## §3. Operators. -/

namespace ExtrudeOptions

/-- Options of an extrusion as JSON. -/
def toJson (o : ExtrudeOptions Float) : Json :=
  .ofFields
    [("center", .boolean o.center), ("convexity", .ofWord o.convexity),
      ("twist", ofFloat o.twist), ("slices", .ofOption .ofWord o.slices),
      ("scale", ofFloat o.scale)]

/-- Options of an extrusion from JSON. -/
def decoder : Decoder (ExtrudeOptions Float) :=
  .record ["center", "convexity", "twist", "slices", "scale"] fun r => do
    let center ← r.required "center" .boolean
    let convexity ← r.required "convexity" .word
    let twist ← r.required "twist" .float
    let slices ← r.optional "slices" .word
    let scale ← r.required "scale" .float
    return { center, convexity, twist, slices, scale }

end ExtrudeOptions

namespace Operator

/-- An operator as JSON. -/
def toJson : Operator Float → Json
  | .translate v => .tagged "Translate" v.toJson
  | .rotate v => .tagged "Rotate" v.toJson
  | .scale v => .tagged "Scale" v.toJson
  | .mirror v => .tagged "Mirror" v.toJson
  | .linearExtrude height options =>
    .tagged "LinearExtrude"
      (.ofFields [("height", ofFloat height), ("options", options.toJson)])
  | .rotateExtrude angle convexity segments =>
    .tagged "RotateExtrude" (.ofFields
      [("angle", ofFloat angle), ("convexity", .ofOption .ofWord convexity),
        ("segments", .ofWord segments)])
  | .offset r delta chamfer =>
    .tagged "Offset" (.ofFields
      [("r", .ofOption ofFloat r), ("delta", .ofOption ofFloat delta),
        ("chamfer", .boolean chamfer)])
  | .projection cut => .tagged "Projection" (.ofFields [("cut", .boolean cut)])
  | .color name alpha =>
    .tagged "Color" (.ofFields [("name", .ofString name), ("alpha", .ofOption ofFloat alpha)])
  | .slide v => .tagged "Slide" v.toJson
  | .hull => .ofString "Hull"
  | .minkowski => .ofString "Minkowski"
  | .render convexity => .tagged "Render" (.ofFields [("convexity", .ofWord convexity)])

/-- The cases of operators with data. -/
def cases : List (String × Decoder (Operator Float)) :=
  [("Translate", Vec3.decoder.map .translate), ("Rotate", Vec3.decoder.map .rotate),
    ("Scale", Vec3.decoder.map .scale), ("Mirror", Vec3.decoder.map .mirror),
    ("LinearExtrude", .record ["height", "options"] fun r => do
      let height ← r.required "height" .float
      let options ← r.required "options" ExtrudeOptions.decoder
      return .linearExtrude height options),
    ("RotateExtrude", .record ["angle", "convexity", "segments"] fun r => do
      let angle ← r.required "angle" .float
      let convexity ← r.optional "convexity" .word
      let segments ← r.required "segments" .word
      return .rotateExtrude angle convexity segments),
    ("Offset", .record ["r", "delta", "chamfer"] fun r => do
      let radius ← r.optional "r" .float
      let delta ← r.optional "delta" .float
      let chamfer ← r.required "chamfer" .boolean
      return .offset radius delta chamfer),
    ("Projection", .record ["cut"] fun r => do
      let cut ← r.required "cut" .boolean
      return .projection cut),
    ("Color", .record ["name", "alpha"] fun r => do
      let name ← r.required "name" .text
      let alpha ← r.optional "alpha" .float
      return .color name alpha),
    ("Slide", Vec3.decoder.map .slide),
    ("Render", .record ["convexity"] fun r => do
      let convexity ← r.required "convexity" .word
      return .render convexity)]

/-- An operator from JSON. -/
def decoder : Decoder (Operator Float) :=
  .variant [("Hull", .hull), ("Minkowski", .minkowski)] cases

end Operator

end SolidTree
