/-
  SolidTree.Toml.Written
  ──────────────────────
  **TEXTS AS THEY ARE WRITTEN INTO A SETTINGS FILE.**

  A text is written in the first form that holds it without escapes, tabs
  apart:

      "…"          — double quotes
      '…'          — single quotes
      """…"""      — triple double quotes
      three single quotes, likewise

  and, if none of them does, in double quotes with escapes: triple ones if
  the text has several lines.  A text of several lines starts on the line
  after the triple quotes.
-/
namespace SolidTree.Toml

/-! ## §1. What a text holds. -/

/-- A control character that has to be escaped. -/
def needsEscape (c : Char) : Bool :=
  c ≠ '\t' && c ≠ '\n' && (c.toNat < 0x20 || c.toNat = 0x7f)

/-- Length of the longest run of a character, given the length of the run so far. -/
def longestRun (quote : Char) : (run : Nat) → List Char → Nat
  | run, [] => run
  | run, c :: rest =>
    if c = quote then longestRun quote (run + 1) rest else max run (longestRun quote 0 rest)

/-! ## §2. Escapes. -/

/-- A code point in four hexadecimal digits at least, capital letters. -/
def hexNumber (n : Nat) : List Char :=
  let digits := (Nat.toDigits 16 n).map Char.toUpper
  List.replicate (4 - digits.length) '0' ++ digits

/-- The escape of a character, unless it stands for itself. -/
def escape? (multiline : Bool) (c : Char) : Option (List Char) :=
  match c with
  | '\x08' => some ['\\', 'b']
  | '\t' => some ['\\', 't']
  | '\n' => if multiline then none else some ['\\', 'n']
  | '\x0c' => some ['\\', 'f']
  | '\r' => some ['\\', 'r']
  | '\\' => some ['\\', '\\']
  | c => if needsEscape c then some ('\\' :: 'u' :: hexNumber c.toNat) else none

/-- The characters of a text in double quotes. So many quotes in a row stand for
themselves, and the next one is escaped. -/
def escaped (multiline : Bool) (quotes : Nat) : (run : Nat) → List Char → List Char
  | _, [] => []
  | run, '"' :: rest =>
    if run < quotes then '"' :: escaped multiline quotes (run + 1) rest
    else '\\' :: '"' :: escaped multiline quotes 0 rest
  | _, c :: rest =>
    match escape? multiline c with
    | some cs => cs ++ escaped multiline quotes 0 rest
    | none => c :: escaped multiline quotes 0 rest

/-! ## §3. Forms. -/

/-- A text in double quotes. -/
def inQuotes (cs : List Char) : List Char := '"' :: (escaped false 0 0 cs ++ ['"'])

/-- The line end between triple quotes and a text of several lines. -/
def lead (cs : List Char) : List Char := if cs.contains '\n' then ['\n'] else []

/-- A text in triple double quotes. -/
def inTripleQuotes (cs : List Char) : List Char :=
  ['"', '"', '"'] ++ lead cs ++ escaped true 2 0 cs ++ ['"', '"', '"']

/-- A text in triple single quotes. -/
def inTripleSingleQuotes (cs : List Char) : List Char :=
  ['\'', '\'', '\''] ++ lead cs ++ cs ++ ['\'', '\'', '\'']

/-- A text as it is written. -/
def written (s : String) : List Char :=
  let cs := s.toList
  let hasControl := cs.any needsEscape
  let hasBackslash := cs.contains '\\'
  let hasNewline := cs.contains '\n'
  let doubles := longestRun '"' 0 cs
  let singles := longestRun '\'' 0 cs
  if !hasControl && !hasBackslash && doubles = 0 && !hasNewline then inQuotes cs
  else if !hasControl && singles = 0 && !hasNewline then '\'' :: (cs ++ ['\''])
  else if !hasControl && !hasBackslash && doubles ≤ 2 then inTripleQuotes cs
  else if !hasControl && singles ≤ 2 then inTripleSingleQuotes cs
  else if hasNewline then inTripleQuotes cs
  else inQuotes cs

end SolidTree.Toml
