/-
  SolidTree.Codec.Tree
  ────────────────────
  **TREES AS JSON.**

  A node is an object with its kind, its modifier and, if there is one, its
  comment; the kind is a case with the data of the node.  The finish of a
  part is not written, so what is read is drawn as it was built.

  Decoding follows the value: a node holds a decoder for the nodes inside of
  it, and `Node.decoder` ties the knot once for every level that may be
  entered.
-/
import SolidTree.Codec.Shape
import SolidTree.Source.Arguments
import SolidTree.Tree.Part

namespace SolidTree

/-! ## §1. Writing. -/

/-- A node as JSON, given its kind. -/
def Tag.toJson (t : Tag) (kind : Json) : Json :=
  let comment := match t.comment with
    | some comment => [("comment", Json.ofString comment)]
    | none => []
  .ofFields ([("kind", kind), ("modifier", .ofString t.modifier.name)] ++ comment)

/-- Name of a set operation in JSON. -/
def SetOperation.tagName : SetOperation → String
  | .union => "Union"
  | .difference => "Difference"
  | .intersection => "Intersection"

/-- A part as JSON, given its members. -/
def Assembly.fieldsJson (name : String) (children holes miscellaneous : List Json) : Json :=
  .ofFields
    [("name", .ofString name), ("children", .array children), ("holes", .array holes),
      ("miscellaneous", .array miscellaneous)]

section

variable [JsonLibrary]

mutual

/-- A tree as JSON. -/
def Node.toJson : Node Float → Json
  | .leaf tag shape => tag.toJson (.tagged "Primitive" shape.toJson)
  | .apply tag op children =>
    tag.toJson (.tagged "Transform"
      (.ofFields [("op", op.toJson), ("children", .array (nodesToJson children))]))
  | .compose tag op operands => tag.toJson (.tagged op.tagName (.array (nodesToJson operands)))
  | .part tag ⟨name, children, holes, miscellaneous, _⟩ =>
    tag.toJson (.tagged "Part"
      (Assembly.fieldsJson name (slotsToJson children) (slotsToJson holes)
        (slotsToJson miscellaneous)))

/-- Each tree of a list as JSON. -/
def nodesToJson : List (Node Float) → List Json
  | [] => []
  | n :: rest => n.toJson :: nodesToJson rest

/-- Each member of a list as JSON. -/
def slotsToJson : List (Slot (Node Float)) → List Json
  | [] => []
  | ⟨field, n⟩ :: rest =>
    .ofFields [("field", .ofOption .ofString field), ("node", n.toJson)] :: slotsToJson rest

end

theorem nodesToJson_eq_map (ns : List (Node Float)) : nodesToJson ns = ns.map Node.toJson := by
  induction ns with
  | nil => rfl
  | cons n rest ih => rw [nodesToJson, ih, List.map_cons]

/-- A part as JSON. -/
def Assembly.toJson (p : Part Float) : Json :=
  fieldsJson p.name (slotsToJson p.children) (slotsToJson p.holes) (slotsToJson p.miscellaneous)

end

/-! ## §2. Reading. -/

/-- A member from JSON, given a decoder of its node. -/
def Slot.decoder {ν : Type} (node : Decoder ν) : Decoder (Slot ν) :=
  .record ["field", "node"] fun r => do
    let field ← r.optional "field" .text
    let node ← r.required "node" node
    return ⟨field, node⟩

/-- A part from JSON, given a decoder of the nodes in it. -/
def Assembly.decoder {ν : Type} (node : Decoder ν) : Decoder (Assembly ν) :=
  .record ["name", "children", "holes", "miscellaneous"] fun r => do
    let name ← r.required "name" .text
    let children ← r.required "children" (Slot.decoder node).list
    let holes ← r.required "holes" (Slot.decoder node).list
    let miscellaneous ← r.required "miscellaneous" (Slot.decoder node).list
    return { name, children, holes, miscellaneous }

namespace Node

variable [JsonLibrary]

/-- The cases of nodes, each waiting for its tag, given a decoder of the nodes inside. -/
def cases (node : Decoder (Node Float)) : List (String × Decoder (Tag → Node Float)) :=
  [("Primitive", Primitive.decoder.map fun shape tag => .leaf tag shape),
    ("Transform", .record ["op", "children"] fun r => do
      let op ← r.required "op" Operator.decoder
      let children ← r.required "children" node.list
      return fun tag => .apply tag op children),
    ("Union", node.list.map fun operands tag => .compose tag .union operands),
    ("Difference", node.list.map fun operands tag => .compose tag .difference operands),
    ("Intersection", node.list.map fun operands tag => .compose tag .intersection operands),
    ("Part", (Assembly.decoder node).map fun p tag => .part tag p)]

/-- A node from JSON, given a decoder of the nodes inside. -/
def outerDecoder (node : Decoder (Node Float)) : Decoder (Node Float) :=
  .record ["kind", "modifier", "comment"] fun r => do
    let ofTag ← r.required "kind" (.variant [] (cases node))
    let modifier ← r.defaulted "modifier" .none (.named Modifier.all Modifier.name)
    let comment ← r.defaulted "comment" none Decoder.text.option
    return ofTag { modifier, comment }

/-- A tree of at most `levels` nodes one in another, from JSON. -/
def decoderTo : (levels : Nat) → Decoder (Node Float)
  | 0 => fun _ _ => none
  | levels + 1 => outerDecoder (decoderTo levels)

/-- A tree from JSON. There is no room for more nodes one in another than there is for
objects. -/
def decoder : Decoder (Node Float) := decoderTo JsonLibrary.levels

/-- The tree of a text. -/
def read? (source : String) : Option (Node Float) := decoder.read? source

end Node

/-! ## §3. Members and formats. -/

namespace Member

variable [JsonLibrary]

/-- Name of a role in JSON. -/
def tagName : Role → String
  | .child => "Child"
  | .hole => "Hole"
  | .misc => "Misc"

/-- A member as JSON. -/
def toJson (m : Member Float) : Json := .tagged (tagName m.role) m.node.toJson

/-- A member from JSON. -/
def decoder : Decoder (Member Float) :=
  .variant [] (Role.all.map fun role => (tagName role, Node.decoder.map fun n => ⟨role, n⟩))

end Member

namespace Format

variable [JsonLibrary]

/-- A format as JSON. -/
def toJson (f : Format) : Json :=
  .ofFields [("indent", .ofString f.indent), ("precision", .ofWord f.precision)]

/-- A format from JSON; what is left out is as usual. -/
def decoder : Decoder Format := .record ["indent", "precision"] fun r => do
  let usual : Format := {}
  let indent ← r.defaulted "indent" usual.indent .text
  let precision ← r.defaulted "precision" usual.precision .word
  return { indent, precision }

end Format

end SolidTree
