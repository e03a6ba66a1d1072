/-
  SolidTree.Codec.Decoder
  ───────────────────────
  **DECODING JSON VALUES.**

  A decoder turns a value into what it stands for, or refuses it.  It knows
  how much room for nesting is left: entering an array or an object takes
  one level, and the library says how many there are.  What a decoder passes
  over takes no room.

      record    — an object with known fields, or an array of them in order
      variant   — one of several cases: a bare name for a case without data,
                  an object with the name as its only field for any case
-/
import SolidTree.Json.Library

namespace SolidTree

/-- Turns a value into what it stands for, with some room for nesting left. -/
abbrev Decoder (β : Type) := (room : Nat) → Json → Option β

namespace Decoder

variable {β γ : Type}

/-! ## §1. Plain values. -/

/-- What is decoded, changed by a function. -/
def map (f : β → γ) (d : Decoder β) : Decoder γ := fun room j => (d room j).map f

/-- A double. -/
def float [JsonLibrary] : Decoder Float := fun _ j =>
  match j with
  | .number written => JsonLibrary.float? written
  | _ => none

/-- A natural number below `bound`. -/
def natural [JsonLibrary] (bound : Nat) : Decoder Nat := fun _ j =>
  match j with
  | .number written => JsonLibrary.natural? bound written
  | _ => none

/-- A 32-bit word. -/
def word [JsonLibrary] : Decoder UInt32 := (natural UInt32.size).map UInt32.ofNat

/-- A 64-bit word. -/
def longWord [JsonLibrary] : Decoder UInt64 := (natural UInt64.size).map UInt64.ofNat

/-- A truth value. -/
def boolean : Decoder Bool := fun _ j =>
  match j with
  | .boolean b => some b
  | _ => none

/-- A text. -/
def text : Decoder String := fun _ j =>
  match j with
  | .text s => s
  | _ => none

/-- A value or `null`. -/
def option (d : Decoder β) : Decoder (Option β) := fun room j =>
  match j with
  | .null => some none
  | j => (d room j).map some

/-! ## §2. Arrays. -/

/-- An array of any length. -/
def list (d : Decoder β) : Decoder (List β) := fun room j =>
  match room, j with
  | room + 1, .array items => items.mapM (d room)
  | _, _ => none

/-! ## §3. Records. -/

/-- The fields of a record that were found. -/
structure Fields where
  /-- Room left inside of the record. -/
  room : Nat
  /-- The record was written as an array. -/
  positional : Bool
  /-- The fields, each under its name. -/
  found : List (String × Json)

namespace Fields

/-- The value of a field. -/
def get? (r : Fields) (name : String) : Option Json := r.found.lookup name

/-- A field that has to be there. -/
def required (r : Fields) (name : String) (d : Decoder β) : Option β :=
  (r.get? name).bind (d r.room)

/-- A field that may be left out of an object; then it is `none`. -/
def optional (r : Fields) (name : String) (d : Decoder β) : Option (Option β) :=
  match r.get? name with
  | some j => d.option r.room j
  | none => if r.positional then none else some none

/-- A field that may be left out of an object and off the end of an array. -/
def defaulted (r : Fields) (name : String) (default : β) (d : Decoder β) : Option β :=
  match r.get? name with
  | some j => d r.room j
  | none => some default

end Fields

/-- No name stands for two fields. -/
def distinct : List (String × Json) → Bool
  | [] => true
  | (name, _) :: rest => (rest.lookup name).isNone && distinct rest

/-- The fields of a record with these names. An object may have other fields besides,
which are passed over, but a known one only once; an array has at most as many
items as there are names. -/
def fields? (names : List String) (room : Nat) (j : Json) : Option Fields :=
  match room, j with
  | room + 1, .object fields => do
    let named ← fields.mapM fun (name, value) => name.map fun name => (name, value)
    let known := named.filter fun (name, _) => names.contains name
    if distinct known then some ⟨room, false, known⟩ else none
  | room + 1, .array items =>
    if items.length ≤ names.length then some ⟨room, true, names.zip items⟩ else none
  | _, _ => none

/-- A record with these names. -/
def record (names : List String) (read : Fields → Option β) : Decoder β := fun room j =>
  (fields? names room j).bind read

/-! ## §4. Variants. -/

/-- One case of several: the cases without data, and the cases with data. -/
def variant (bare : List (String × β)) (cases : List (String × Decoder β)) : Decoder β :=
  fun room j =>
    match room, j with
    | _, .text (some name) => bare.lookup name
    | room + 1, .object [(some name, j)] =>
      match bare.lookup name, j with
      | some b, .null => some b
      | some _, _ => none
      | none, j => (cases.lookup name).bind fun d => d room j
    | _, _ => none

/-- One of some values by its name. -/
def named (values : List β) (name : β → String) : Decoder β :=
  variant (values.map fun b => (name b, b)) []

/-! ## §5. Texts. -/

/-- What a text stands for. -/
def read? [JsonLibrary] (d : Decoder β) (source : String) : Option β :=
  (JsonLibrary.parse? source).bind (d JsonLibrary.levels)

end Decoder

end SolidTree
