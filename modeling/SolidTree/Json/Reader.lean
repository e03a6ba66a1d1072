/-
  SolidTree.Json.Reader
  ─────────────────────
  **READING JSON.**

  A text is cut into tokens, and the tokens make a value:

      Token.scan    — texts, numbers, words and punctuation; blanks are left out
      Json.parse?   — one value and nothing after it

  The syntax is the strict one: no leading zeros or plus signs, no trailing
  commas, no comments, no control characters in texts.  Every token takes at
  least one character and every value at least one token, which bounds the
  work by the length of the text.
-/
import SolidTree.Json.Value

namespace SolidTree.Json

/-! ## §1. Tokens. -/

/-- A token of JSON text. -/
inductive Token where
  | null
  | boolean (b : Bool)
  | number (written : String)
  | text (s : Option String)
  | openArray
  | closeArray
  | openObject
  | closeObject
  | comma
  | colon
  deriving Repr, DecidableEq

/-! ## §2. Texts. -/

/-- What a text is made of before surrogates are joined: characters, and code units
that are given by number. -/
inductive Piece where
  | char (c : Char)
  | unit (n : Nat)
  deriving Repr, DecidableEq

/-- Value of a hexadecimal digit. -/
def hexDigit? (c : Char) : Option Nat :=
  if '0' ≤ c ∧ c ≤ '9' then some (c.toNat - '0'.toNat)
  else if 'a' ≤ c ∧ c ≤ 'f' then some (c.toNat - 'a'.toNat + 10)
  else if 'A' ≤ c ∧ c ≤ 'F' then some (c.toNat - 'A'.toNat + 10)
  else none

/-- Value of some hexadecimal digits. -/
def hexNumber? (digits : List Char) : Option Nat :=
  digits.foldlM (fun n c => (hexDigit? c).map (16 * n + ·)) 0

/-- The character that a letter stands for after a backslash. -/
def unescape? : Char → Option Char
  | '"' => some '"'
  | '\\' => some '\\'
  | '/' => some '/'
  | 'b' => some '\x08'
  | 'f' => some '\x0c'
  | 'n' => some '\n'
  | 'r' => some '\r'
  | 't' => some '\t'
  | _ => none

/-- The pieces of a text up to its closing quote, and what follows it. -/
def pieces? : List Char → Option (List Piece × List Char)
  | [] => none
  | '"' :: rest => some ([], rest)
  | '\\' :: 'u' :: a :: b :: c :: d :: rest => do
    let n ← hexNumber? [a, b, c, d]
    let (ps, rest) ← pieces? rest
    return (.unit n :: ps, rest)
  | '\\' :: e :: rest => do
    let c ← unescape? e
    let (ps, rest) ← pieces? rest
    return (.char c :: ps, rest)
  | c :: rest =>
    if c.toNat < 0x20 then none
    else do
      let (ps, rest) ← pieces? rest
      return (.char c :: ps, rest)

/-- A code unit that starts a surrogate pair. -/
def isHighSurrogate (n : Nat) : Bool := 0xd800 ≤ n && n < 0xdc00

/-- A code unit that ends a surrogate pair. -/
def isLowSurrogate (n : Nat) : Bool := 0xdc00 ≤ n && n < 0xe000

/-- The characters of some pieces; there are none if a surrogate stands alone. -/
def join? : List Piece → Option (List Char)
  | [] => some []
  | .char c :: rest => (join? rest).map (c :: ·)
  | .unit n :: .unit m :: rest =>
    if isHighSurrogate n && isLowSurrogate m then
      (join? rest).map (Char.ofNat (0x10000 + (n - 0xd800) * 0x400 + (m - 0xdc00)) :: ·)
    else if isHighSurrogate n || isLowSurrogate n then none
    else (join? (.unit m :: rest)).map (Char.ofNat n :: ·)
  | .unit n :: rest =>
    if isHighSurrogate n || isLowSurrogate n then none
    else (join? rest).map (Char.ofNat n :: ·)

/-! ## §3. Numbers. -/

/-- At least one digit at the start, and what follows the digits. -/
def digits? (cs : List Char) : Option (List Char × List Char) :=
  match cs.takeWhile Char.isDigit with
  | [] => none
  | digits => some (digits, cs.dropWhile Char.isDigit)

/-- The whole part of a number: one zero, or digits that start with another one. -/
def wholePart? : List Char → Option (List Char × List Char)
  | '0' :: rest => some (['0'], rest)
  | cs => digits? cs

/-- The fraction of a number, if a point follows. -/
def fraction? : List Char → Option (List Char × List Char)
  | '.' :: rest => do
    let (digits, rest) ← digits? rest
    return ('.' :: digits, rest)
  | cs => some ([], cs)

/-- The exponent of a number, if its letter follows. -/
def exponent? : List Char → Option (List Char × List Char)
  | [] => some ([], [])
  | e :: cs =>
    if e = 'e' ∨ e = 'E' then do
      let (sign, cs) := match cs with
        | '+' :: rest => (['+'], rest)
        | '-' :: rest => (['-'], rest)
        | _ => ([], cs)
      let (digits, rest) ← digits? cs
      return (e :: (sign ++ digits), rest)
    else some ([], e :: cs)

/-- A number at the start, as it is written, and what follows it. -/
def number? (cs : List Char) : Option (String × List Char) := do
  let (sign, cs) := match cs with
    | '-' :: rest => (['-'], rest)
    | _ => ([], cs)
  let (whole, cs) ← wholePart? cs
  let (fraction, cs) ← fraction? cs
  let (exponent, cs) ← exponent? cs
  return (String.ofList (sign ++ whole ++ fraction ++ exponent), cs)

/-! ## §4. Scanning. -/

/-- What follows a word at the start. -/
def afterWord? (word : List Char) (cs : List Char) : Option (List Char) :=
  if word.isPrefixOf cs then some (cs.drop word.length) else none

/-- The token at the start, and what follows it. -/
def token? : List Char → Option (Token × List Char)
  | [] => none
  | '[' :: rest => some (.openArray, rest)
  | ']' :: rest => some (.closeArray, rest)
  | '\x7b' :: rest => some (.openObject, rest)
  | '\x7d' :: rest => some (.closeObject, rest)
  | ',' :: rest => some (.comma, rest)
  | ':' :: rest => some (.colon, rest)
  | '"' :: rest => do
    let (ps, rest) ← pieces? rest
    return (.text ((join? ps).map String.ofList), rest)
  | 'n' :: rest => (afterWord? ['u', 'l', 'l'] rest).map fun rest => (.null, rest)
  | 't' :: rest => (afterWord? ['r', 'u', 'e'] rest).map fun rest => (.boolean true, rest)
  | 'f' :: rest => (afterWord? ['a', 'l', 's', 'e'] rest).map fun rest => (.boolean false, rest)
  | cs => (number? cs).map fun (written, rest) => (.number written, rest)

/-- A character that may stand between tokens. -/
def isBlank (c : Char) : Bool := c = ' ' || c = '\n' || c = '\t' || c = '\r'

/-- The tokens of a text of at most `n` of them. -/
def scan : (n : Nat) → List Char → Option (List Token)
  | n, cs =>
    match cs.dropWhile isBlank, n with
    | [], _ => some []
    | _, 0 => none
    | c :: cs, n + 1 => do
      let (token, rest) ← token? (c :: cs)
      let tokens ← scan n rest
      return token :: tokens

/-! ## §5. Values. -/

mutual

/-- The value at the start, and what follows it. At most `n` values are read one in
another or one after another. -/
def value? : (n : Nat) → List Token → Option (Json × List Token)
  | _, .null :: rest => some (.null, rest)
  | _, .boolean b :: rest => some (.boolean b, rest)
  | _, .number written :: rest => some (.number written, rest)
  | _, .text s :: rest => some (.text s, rest)
  | _, .openArray :: .closeArray :: rest => some (.array [], rest)
  | _, .openObject :: .closeObject :: rest => some (.object [], rest)
  | n + 1, .openArray :: rest => do
    let (items, rest) ← items? n rest
    return (.array items, rest)
  | n + 1, .openObject :: rest => do
    let (fields, rest) ← fields? n rest
    return (.object fields, rest)
  | _, _ => none

/-- Values separated by commas up to the end of their array. -/
def items? : (n : Nat) → List Token → Option (List Json × List Token)
  | 0, _ => none
  | n + 1, tokens => do
    match ← value? n tokens with
    | (j, .comma :: rest) =>
      let (items, rest) ← items? n rest
      return (j :: items, rest)
    | (j, .closeArray :: rest) => return ([j], rest)
    | _ => none

/-- Fields separated by commas up to the end of their object. -/
def fields? : (n : Nat) → List Token → Option (List (Option String × Json) × List Token)
  | n + 1, .text name :: .colon :: tokens => do
    match ← value? n tokens with
    | (j, .comma :: rest) =>
      let (fields, rest) ← fields? n rest
      return ((name, j) :: fields, rest)
    | (j, .closeObject :: rest) => return ([(name, j)], rest)
    | _ => none
  | _, _ => none

end

/-- The value of a text that holds nothing else. -/
def parse? (text : String) : Option Json := do
  let cs := text.toList
  let tokens ← scan cs.length cs
  match ← value? tokens.length tokens with
  | (j, []) => return j
  | _ => none

end SolidTree.Json
