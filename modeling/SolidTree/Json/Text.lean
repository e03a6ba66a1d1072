/-
  SolidTree.Json.Text
  ───────────────────
  **THE TEXT OF JSON VALUES.**

  A number is written with the shortest digits that it can be told by.  Two
  layouts are written: compact, without any blanks, and pretty, with one item
  a line and two blanks for every level.
-/
import SolidTree.Json.Value
import SolidTree.Number.Numeral

namespace SolidTree.Json

/-! ## §1. Numbers. -/

/-- A double; only a finite one has a number. -/
def ofFloat (x : Float) : Json :=
  if Binary64.isFinite x then .number (NumberStyle.lossless.text x) else .null

/-- A natural number. -/
def ofNat (n : Nat) : Json := .number (String.ofList (Nat.toDigits 10 n))

/-! ## §2. Texts. -/

/-- The four hexadecimal digits of a code unit. -/
def hexDigits (n : Nat) : List Char :=
  let digits := Nat.toDigits 16 n
  List.replicate (4 - digits.length) '0' ++ digits

/-- The characters that a character of a text is written with. -/
def escapeChar (c : Char) : List Char :=
  match c with
  | '"' => ['\\', '"']
  | '\\' => ['\\', '\\']
  | '\x08' => ['\\', 'b']
  | '\x0c' => ['\\', 'f']
  | '\n' => ['\\', 'n']
  | '\r' => ['\\', 'r']
  | '\t' => ['\\', 't']
  | c => if c.toNat < 0x20 then '\\' :: 'u' :: hexDigits c.toNat else [c]

/-- A text in quotes. A text that names no characters is written as the empty one. -/
def quote (s : Option String) : List Char :=
  '"' :: ((s.getD "").toList.flatMap escapeChar ++ ['"'])

/-- Texts with a separator between them. -/
def separated (separator : List Char) : List (List Char) → List Char
  | [] => []
  | [item] => item
  | item :: rest => item ++ separator ++ separated separator rest

/-! ## §3. Compact layout. -/

mutual

/-- The value without blanks. -/
def compact : Json → List Char
  | .null => "null".toList
  | .boolean b => (if b then "true" else "false").toList
  | .number written => written.toList
  | .text s => quote s
  | .array items => '[' :: (separated [','] (compactItems items) ++ [']'])
  | .object fields => '\x7b' :: (separated [','] (compactFields fields) ++ ['\x7d'])

/-- Each value of a list. -/
def compactItems : List Json → List (List Char)
  | [] => []
  | j :: rest => compact j :: compactItems rest

/-- Each field of a list. -/
def compactFields : List (Option String × Json) → List (List Char)
  | [] => []
  | (name, j) :: rest => (quote name ++ ':' :: compact j) :: compactFields rest

end

theorem compactItems_eq_map (js : List Json) : compactItems js = js.map compact := by
  induction js with
  | nil => rfl
  | cons j rest ih => rw [compactItems, ih, List.map_cons]

/-! ## §4. Pretty layout. -/

/-- A new line at a depth. -/
def newLine (depth : Nat) : List Char := '\n' :: List.replicate (2 * depth) ' '

/-- Items on lines of their own between two brackets; no items leave no lines. -/
def bracketed (opening closing : Char) (depth : Nat) (items : List (List Char)) : List Char :=
  if items.isEmpty then [opening, closing]
  else
    opening :: (newLine (depth + 1) ++ separated (',' :: newLine (depth + 1)) items
      ++ newLine depth ++ [closing])

mutual

/-- The value with one item a line, at a depth. -/
def pretty (depth : Nat) : Json → List Char
  | .null => "null".toList
  | .boolean b => (if b then "true" else "false").toList
  | .number written => written.toList
  | .text s => quote s
  | .array items => bracketed '[' ']' depth (prettyItems (depth + 1) items)
  | .object fields => bracketed '\x7b' '\x7d' depth (prettyFields (depth + 1) fields)

/-- Each value of a list. -/
def prettyItems (depth : Nat) : List Json → List (List Char)
  | [] => []
  | j :: rest => pretty depth j :: prettyItems depth rest

/-- Each field of a list. -/
def prettyFields (depth : Nat) : List (Option String × Json) → List (List Char)
  | [] => []
  | (name, j) :: rest => (quote name ++ ':' :: ' ' :: pretty depth j) :: prettyFields depth rest

end

/-- The compact text of a value. -/
def compactText (j : Json) : String := String.ofList j.compact

/-- The pretty text of a value. -/
def prettyText (j : Json) : String := String.ofList (j.pretty 0)

end SolidTree.Json
