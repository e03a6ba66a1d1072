/-
  SolidTree.Toml.Scalar
  ─────────────────────
  **TEXTS, NUMBERS AND MOMENTS OF A SETTINGS FILE.**

  Four kinds of texts: in double quotes, where a backslash starts an escape,
  or in single quotes, where nothing does; on one line, or between triple
  quotes over several lines.  A line end in a text is one line feed.

  Everything else that is no bracket is a word, and a word is a truth value,
  an integer, a float or a moment as a whole.
-/
import SolidTree.Json.Reader
import SolidTree.Number.Numeral
import SolidTree.Toml.Value

namespace SolidTree.Toml

/-- Reads something off the start of a text. -/
abbrev Reader (β : Type) := List Char → Option (β × List Char)

/-! ## §1. Blanks and line ends. -/

/-- A blank within a line. -/
def isBlank (c : Char) : Bool := c = ' ' || c = '\t'

/-- The text after the blanks in front. -/
def skipBlanks (cs : List Char) : List Char := cs.dropWhile isBlank

/-- A character that texts and comments may hold on one line. -/
def isShown (c : Char) : Bool := c = '\t' || (0x20 ≤ c.toNat && c.toNat ≠ 0x7f)

/-- The text after a line feed, with or without a carriage return before it. -/
def afterNewline? : List Char → Option (List Char)
  | '\n' :: rest => some rest
  | '\r' :: '\n' :: rest => some rest
  | _ => none

/-! ## §2. Escapes. -/

/-- The character that a letter stands for after a backslash. -/
def unescape? : Char → Option Char
  | 'b' => some '\x08'
  | 't' => some '\t'
  | 'n' => some '\n'
  | 'f' => some '\x0c'
  | 'r' => some '\r'
  | '"' => some '"'
  | '\\' => some '\\'
  | _ => none

/-- The character of some hexadecimal digits. -/
def charOfHex? (digits : List Char) : Option Char :=
  (Json.hexNumber? digits).bind fun n =>
    if h : n.isValidChar then some (Char.ofNatAux n h) else none

/-! ## §3. Texts. -/

/-- What follows the first three quotes that end a text: up to two more quotes are part
of the text. -/
def closing (quote : Char) (cs : List Char) : List Char × List Char :=
  let extra := (cs.takeWhile (· = quote)).take 2
  (extra, cs.drop extra.length)

/-- The rest of a text in double quotes. -/
def basic? : Reader (List Char)
  | '"' :: rest => some ([], rest)
  | '\\' :: 'u' :: a :: b :: c :: d :: rest => do
    let char ← charOfHex? [a, b, c, d]
    let (cs, rest) ← basic? rest
    return (char :: cs, rest)
  | '\\' :: 'U' :: a :: b :: c :: d :: e :: f :: g :: h :: rest => do
    let char ← charOfHex? [a, b, c, d, e, f, g, h]
    let (cs, rest) ← basic? rest
    return (char :: cs, rest)
  | '\\' :: e :: rest => do
    let char ← unescape? e
    let (cs, rest) ← basic? rest
    return (char :: cs, rest)
  | c :: rest =>
    if isShown c && c ≠ '\\' then do
      let (cs, rest) ← basic? rest
      return (c :: cs, rest)
    else none
  | [] => none

/-- The rest of a text between triple double quotes. A backslash at the end of a line
skips to the next character that is neither blank nor a line end. -/
def basicLines? : (skipping : Bool) → Reader (List Char)
  | true, ' ' :: rest | true, '\t' :: rest | true, '\n' :: rest => basicLines? true rest
  | true, '\r' :: '\n' :: rest => basicLines? true rest
  | _, '"' :: '"' :: '"' :: rest => some (closing '"' rest)
  | _, '\\' :: 'u' :: a :: b :: c :: d :: rest => do
    let char ← charOfHex? [a, b, c, d]
    let (cs, rest) ← basicLines? false rest
    return (char :: cs, rest)
  | _, '\\' :: 'U' :: a :: b :: c :: d :: e :: f :: g :: h :: rest => do
    let char ← charOfHex? [a, b, c, d, e, f, g, h]
    let (cs, rest) ← basicLines? false rest
    return (char :: cs, rest)
  | _, '\\' :: e :: rest =>
    match unescape? e with
    | some char => do
      let (cs, rest) ← basicLines? false rest
      return (char :: cs, rest)
    | none =>
      if (afterNewline? (skipBlanks (e :: rest))).isSome then
        if e = '\r' then basicLines? true rest
        else if isBlank e || e = '\n' then basicLines? true rest
        else none
      else none
  | _, '\r' :: '\n' :: rest => do
    let (cs, rest) ← basicLines? false rest
    return ('\n' :: cs, rest)
  | _, c :: rest =>
    if (isShown c && c ≠ '\\') || c = '\n' then do
      let (cs, rest) ← basicLines? false rest
      return (c :: cs, rest)
    else none
  | _, [] => none

/-- The rest of a text in single quotes. -/
def literal? : Reader (List Char)
  | '\'' :: rest => some ([], rest)
  | c :: rest =>
    if isShown c then do
      let (cs, rest) ← literal? rest
      return (c :: cs, rest)
    else none
  | [] => none

/-- The rest of a text between triple single quotes. -/
def literalLines? : Reader (List Char)
  | '\'' :: '\'' :: '\'' :: rest => some (closing '\'' rest)
  | '\r' :: '\n' :: rest => do
    let (cs, rest) ← literalLines? rest
    return ('\n' :: cs, rest)
  | c :: rest =>
    if isShown c || c = '\n' then do
      let (cs, rest) ← literalLines? rest
      return (c :: cs, rest)
    else none
  | [] => none

/-- The text without a line end right at its start. -/
def skipFirstNewline (cs : List Char) : List Char := (afterNewline? cs).getD cs

/-- A text of any kind. -/
def text? : Reader (List Char)
  | '"' :: '"' :: '"' :: rest => basicLines? false (skipFirstNewline rest)
  | '"' :: rest => basic? rest
  | '\'' :: '\'' :: '\'' :: rest => literalLines? (skipFirstNewline rest)
  | '\'' :: rest => literal? rest
  | _ => none

/-! ## §4. Numbers. -/

/-- Digits without the underscores between them. -/
def grouped? (isDigit : Char → Bool) : List Char → Option (List Char)
  | [] => none
  | [c] => if isDigit c then some [c] else none
  | c :: '_' :: rest => if isDigit c then (grouped? isDigit rest).map (c :: ·) else none
  | c :: rest => if isDigit c then (grouped? isDigit rest).map (c :: ·) else none

/-- Decimal digits without a zero in front of others. -/
def whole? (cs : List Char) : Option (List Char) :=
  match cs with
  | ['0'] => some cs
  | '0' :: _ => none
  | _ => grouped? Char.isDigit cs

/-- A sign, if there is one, and what follows it. -/
def splitSign (cs : List Char) : Bool × List Char :=
  match cs with
  | '-' :: rest => (true, rest)
  | '+' :: rest => (false, rest)
  | _ => (false, cs)

/-- The number of some digits in a base, if they are digits of it. -/
def inBase? (base : Nat) (cs : List Char) : Option Nat := do
  let isDigit (c : Char) : Bool := match Json.hexDigit? c with
    | some n => n < base
    | none => false
  let digits ← grouped? isDigit cs
  let values ← digits.mapM Json.hexDigit?
  return values.foldl (fun n d => base * n + d) 0

/-- An integer of 64 bits, decimal with a sign, or in another base without one. -/
def integer? (cs : List Char) : Option Int := do
  let n ← match cs with
    | '0' :: 'x' :: digits => (inBase? 16 digits).map Int.ofNat
    | '0' :: 'o' :: digits => (inBase? 8 digits).map Int.ofNat
    | '0' :: 'b' :: digits => (inBase? 2 digits).map Int.ofNat
    | _ =>
      let (negative, digits) := splitSign cs
      (whole? digits).map fun digits =>
        let n : Int := Numeral.natural digits
        if negative then -n else n
  if Int64.minValue.toInt ≤ n ∧ n ≤ Int64.maxValue.toInt then some n else none

/-- Digits that may be followed by an exponent, and the exponent with its letter. -/
def splitExponent (cs : List Char) : List Char × List Char :=
  (cs.takeWhile (fun c => c ≠ 'e' && c ≠ 'E'), cs.dropWhile (fun c => c ≠ 'e' && c ≠ 'E'))

/-- The text that reads as a float without underscores: a whole part, then a fraction,
an exponent, or both. -/
def plainFloat? (cs : List Char) : Option (List Char) := do
  let (negative, magnitude) := splitSign cs
  let (mantissa, exponent) := splitExponent magnitude
  let exponent ← match exponent with
    | [] => some []
    | e :: power =>
      let (_, digits) := splitSign power
      let digits ← grouped? Char.isDigit digits
      some (e :: (power.takeWhile (fun c => c = '+' || c = '-') ++ digits))
  let whole ← whole? (mantissa.takeWhile (· ≠ '.'))
  let fraction ← match mantissa.dropWhile (· ≠ '.') with
    | [] => if exponent.isEmpty then none else some []
    | point :: digits => (grouped? Char.isDigit digits).map (point :: ·)
  return (if negative then ['-'] else []) ++ whole ++ fraction ++ exponent

/-- A float. One above all doubles is refused. -/
def float? (cs : List Char) : Option Float :=
  match (splitSign cs).2 with
  | ['i', 'n', 'f'] | ['n', 'a', 'n'] => Numeral.float? (String.ofList cs)
  | _ => (plainFloat? cs).bind fun plain =>
    (Numeral.float? (String.ofList plain)).filter fun x => !(x == Binary64.infinity)

/-! ## §5. Moments. -/

/-- A number of exactly so many digits within bounds. -/
def field? (count low high : Nat) : Reader Nat := fun cs =>
  let digits := cs.take count
  let n := Numeral.natural digits
  if digits.length = count ∧ digits.all Char.isDigit ∧ low ≤ n ∧ n ≤ high then
    some (n, cs.drop count)
  else none

/-- The text after a character that has to be there. -/
def after? (c : Char) : List Char → Option (List Char)
  | d :: rest => if d = c then some rest else none
  | [] => none

/-- Days of a month. -/
def daysOf (year month : Nat) : Nat :=
  let isLeap := year % 4 = 0 ∧ (year % 100 ≠ 0 ∨ year % 400 = 0)
  if month = 2 then (if isLeap then 29 else 28)
  else if month = 4 ∨ month = 6 ∨ month = 9 ∨ month = 11 then 30
  else 31

/-- The text after a date. -/
def afterDate? (cs : List Char) : Option (List Char) := do
  let (year, cs) ← field? 4 0 9999 cs
  let cs ← after? '-' cs
  let (month, cs) ← field? 2 1 12 cs
  let cs ← after? '-' cs
  let (_, cs) ← field? 2 1 (daysOf year month) cs
  return cs

/-- The text after a time of day. -/
def afterTime? (cs : List Char) : Option (List Char) := do
  let (_, cs) ← field? 2 0 23 cs
  let cs ← after? ':' cs
  let (_, cs) ← field? 2 0 59 cs
  let cs ← after? ':' cs
  let (_, cs) ← field? 2 0 60 cs
  match cs with
  | '.' :: digits =>
    if (digits.takeWhile Char.isDigit).isEmpty then none
    else some (digits.dropWhile Char.isDigit)
  | cs => some cs

/-- The text after a distance from universal time, if there is one. -/
def afterOffset? (cs : List Char) : Option (List Char) :=
  match cs with
  | 'Z' :: rest | 'z' :: rest => some rest
  | '+' :: rest | '-' :: rest => do
    let (_, rest) ← field? 2 0 23 rest
    let rest ← after? ':' rest
    let (_, rest) ← field? 2 0 59 rest
    return rest
  | cs => some cs

/-- The word is a time of day with a distance from universal time or without one. -/
def isZonedTime (cs : List Char) : Bool := ((afterTime? cs).bind afterOffset?) == some []

/-- The word is a date, a time, or a date and a time. -/
def isMoment (cs : List Char) : Bool :=
  afterTime? cs == some []
    || match afterDate? cs with
      | some [] => true
      | some ('T' :: time) | some ('t' :: time) => isZonedTime time
      | _ => false

/-! ## §6. Words. -/

/-- A character of a word. -/
def isWordChar (c : Char) : Bool :=
  c.isAlphanum || c = '+' || c = '-' || c = '_' || c = '.' || c = ':'

/-- A value that is one word, or a date and a time with a blank between them. -/
def word? : Reader Toml := fun cs =>
  let word := cs.takeWhile isWordChar
  let rest := cs.dropWhile isWordChar
  match String.ofList word with
  | "true" => some (.boolean true, rest)
  | "false" => some (.boolean false, rest)
  | written =>
    if isMoment word then
      let time := (rest.drop 1).takeWhile isWordChar
      if afterDate? word = some [] ∧ rest.head? = some ' ' ∧ isZonedTime time then
        some (.moment (written ++ " " ++ String.ofList time), rest.drop (time.length + 1))
      else some (.moment written, rest)
    else match integer? word with
      | some n => some (.integer n, rest)
      | none => (float? word).map fun x => (.float x, rest)

end SolidTree.Toml
