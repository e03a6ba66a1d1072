/-
  SolidTree.Json.Value
  ────────────────────
  **JSON VALUES.**

  A value keeps what its text says: the fields of an object in order and
  with repetitions, and a number as it is written, so no digit is lost
  before it is known what the number is for.
-/
namespace SolidTree

/-- A JSON value. A text is `none` if one of its escapes names half of a surrogate
pair: such a text can be passed over but not used. -/
inductive Json where
  | null
  | boolean (b : Bool)
  /-- A number as it is written. -/
  | number (written : String)
  | text (s : Option String)
  | array (items : List Json)
  | object (fields : List (Option String × Json))
  deriving Repr

namespace Json

/-- A text. -/
def ofString (s : String) : Json := .text (some s)

/-- A value if there is one. -/
def ofOption {β : Type} (encode : β → Json) : Option β → Json
  | some b => encode b
  | none => .null

/-- Values in a row. -/
def ofList {β : Type} (encode : β → Json) (items : List β) : Json := .array (items.map encode)

/-- Named fields in a row. -/
def ofFields (fields : List (String × Json)) : Json :=
  .object (fields.map fun (name, value) => (some name, value))

/-- A value under a name that says what it is. -/
def tagged (name : String) (value : Json) : Json := ofFields [(name, value)]

end Json

end SolidTree
