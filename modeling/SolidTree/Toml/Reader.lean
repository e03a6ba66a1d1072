/-
  SolidTree.Toml.Reader
  ─────────────────────
  **READING A SETTINGS FILE.**

  A file is lines: headers of tables, and keys with values.  Values may
  stretch over several lines where they are arrays or texts between triple
  quotes.  Arrays and tables within a line may be nested 79 deep, and a
  dotted key may have 79 parts.

      Toml.parse?   — the entries of a file
-/
import SolidTree.Toml.Scalar

namespace SolidTree.Toml

/-! ## §1. Gaps and line ends. -/

/-- The text after blanks, line ends and comments. A comment ends in a line end. -/
def gap? : (inComment : Bool) → List Char → Option (List Char)
  | false, ' ' :: rest | false, '\t' :: rest | false, '\n' :: rest => gap? false rest
  | _, '\r' :: '\n' :: rest => gap? false rest
  | false, '#' :: rest => gap? true rest
  | false, cs => some cs
  | true, '\n' :: rest => gap? false rest
  | true, c :: rest => if isShown c then gap? true rest else none
  | true, [] => none

/-- The text after the end of a line, which may have a comment. -/
def afterLine? (cs : List Char) : Option (List Char) :=
  let rest := match skipBlanks cs with
    | '#' :: comment => comment.dropWhile isShown
    | rest => rest
  match rest with
  | [] => some []
  | rest => afterNewline? rest

/-! ## §2. Keys. -/

/-- A character of a key without quotes. -/
def isKeyChar (c : Char) : Bool := c.isAlphanum || c = '_' || c = '-'

/-- One part of a key. -/
def keyPart? : Reader String
  | '"' :: rest => (basic? rest).map fun (key, rest) => (String.ofList key, rest)
  | '\'' :: rest => (literal? rest).map fun (key, rest) => (String.ofList key, rest)
  | cs =>
    let key := cs.takeWhile isKeyChar
    if key.isEmpty then none else some (String.ofList key, cs.dropWhile isKeyChar)

/-- The parts of a dotted key but for the last, and the last one. -/
def key? : (parts : Nat) → Reader (List String × String)
  | 0, _ => none
  | parts + 1, cs => do
    let (part, rest) ← keyPart? (skipBlanks cs)
    match skipBlanks rest with
    | '.' :: rest =>
      let ((path, key), rest) ← key? parts rest
      return ((part :: path, key), rest)
    | rest => return (([], part), rest)

/-- The greatest number of parts of a key. -/
def maxParts : Nat := 79

/-! ## §3. Values. -/

/-- The rest of an array, its items read by `item`. -/
def items? (item : Reader Toml) : (bound : Nat) → Reader (List Toml)
  | 0, _ => none
  | bound + 1, cs => do
    match ← gap? false cs with
    | ']' :: rest => return ([], rest)
    | rest =>
      let (v, rest) ← item rest
      match ← gap? false rest with
      | ',' :: rest =>
        let (vs, rest) ← items? item bound rest
        return (v :: vs, rest)
      | ']' :: rest => return ([v], rest)
      | _ => none

/-- A key and its value, read by `item`. -/
def pair? (item : Reader Toml) : Reader (List String × String × Toml) := fun cs => do
  let ((path, key), rest) ← key? maxParts cs
  let rest ← after? '=' rest
  let (v, rest) ← item (skipBlanks rest)
  return ((path, key, v), rest)

/-- The rest of a table within a line that has an entry. -/
def pairs? (item : Reader Toml) : (bound : Nat) → Reader (List (List String × String × Toml))
  | 0, _ => none
  | bound + 1, cs => do
    let (first, rest) ← pair? item cs
    match skipBlanks rest with
    | ',' :: rest =>
      let (others, rest) ← pairs? item bound rest
      return (first :: others, rest)
    | '\x7d' :: rest => return ([first], rest)
    | _ => none

/-- A value that may nest so many levels of arrays and tables. -/
def value? (room : Nat) : Reader Toml := fun cs =>
  match room, cs with
  | room + 1, '[' :: rest =>
    (items? (value? room) (rest.length + 1) rest).map fun (vs, rest) => (.array vs, rest)
  | room + 1, '\x7b' :: rest =>
    match skipBlanks rest with
    | '\x7d' :: rest => some (.table [], rest)
    | inner => do
      let (pairs, rest) ← pairs? (value? room) (inner.length + 1) inner
      let entries ← ofPairs pairs
      return (.table entries, rest)
  | _, '"' :: _ | _, '\'' :: _ => (text? cs).map fun (s, rest) => (.text (String.ofList s), rest)
  | _, _ => word? cs

/-- The greatest depth of nesting. -/
def maxDepth : Nat := 79

/-! ## §4. Lines. -/

/-- A line that says something. -/
def line? : Reader Line
  | '[' :: '[' :: rest => do
    let ((path, key), rest) ← key? maxParts rest
    let rest ← after? ']' rest
    let rest ← after? ']' rest
    return (.arrayHeader path key, rest)
  | '[' :: rest => do
    let ((path, key), rest) ← key? maxParts rest
    let rest ← after? ']' rest
    return (.header path key, rest)
  | cs => do
    let ((path, key, v), rest) ← pair? (value? maxDepth) cs
    return (.pair path key v, rest)

/-- All lines that say something, in order. -/
def lines? : (bound : Nat) → List Char → Option (List Line)
  | 0, _ => none
  | bound + 1, cs =>
    match skipBlanks cs with
    | [] => some []
    | c :: rest =>
      if c = '#' || c = '\n' || c = '\r' then
        (afterLine? (c :: rest)).bind (lines? bound)
      else do
        let (line, rest) ← line? (c :: rest)
        let rest ← afterLine? rest
        let lines ← lines? bound rest
        return line :: lines

/-- The entries of a file. A byte order mark in front is passed over. -/
def parse? (source : String) : Option (List (String × Toml)) :=
  let cs := match source.toList with
    | '\ufeff' :: rest => rest
    | cs => cs
  (lines? (cs.length + 1) cs).bind ofLines

end SolidTree.Toml
