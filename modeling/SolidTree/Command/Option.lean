/-
  SolidTree.Command.Option
  ────────────────────────
  **OPTIONS AND ARGUMENTS OF A COMMAND LINE.**

  A `Signature` says which options a command has and how many arguments by
  position it takes.  Words are taken one by one, from left to right:

      --name, -n            — a flag
      --name v, --name=v    — an option with a value
      -n v, -nv, -n=v       — the same, by its letter
      --                    — every word after it is an argument

  Letters may be bundled.  The first word that does not fit ends the
  reading, and so does a request for help; every option may be given once.
-/
namespace SolidTree

/-! ## §1. Signatures. -/

/-- What an option does. -/
inductive OptionKind where
  | help
  | flag
  /-- It has a value, which may start with a hyphen if `anyWord` is set. -/
  | value (anyWord : Bool) (accepts : String → Bool)

/-- An option of a command. -/
structure CommandOption where
  long : String
  short? : Option Char := none
  kind : OptionKind

/-- The options and arguments of a command. -/
structure Signature where
  options : List CommandOption
  /-- How many arguments by position have to be given. -/
  arguments : Nat := 0

/-- Why a command line is not carried out. -/
inductive Refusal where
  | misuse
  | helpWanted
  deriving Repr, DecidableEq

/-! ## §2. Words. -/

/-- What was found on a command line so far. -/
structure Found where
  flags : List String := []
  values : List (String × String) := []
  arguments : List String := []
  /-- An option that waits for its value. -/
  pending : Option CommandOption := none
  /-- All words from here on are arguments. -/
  onlyArguments : Bool := false

namespace Found

/-- The option was given. -/
def has (f : Found) (name : String) : Bool :=
  f.flags.contains name || (f.values.lookup name).isSome

/-- The value of an option. -/
def value? (f : Found) (name : String) : Option String := f.values.lookup name

/-- One more flag. -/
def addFlag (f : Found) (name : String) : Except Refusal Found :=
  if f.has name then .error .misuse else .ok { f with flags := name :: f.flags }

/-- The value of an option. -/
def addValue (f : Found) (option : CommandOption) (value : String) : Except Refusal Found :=
  match option.kind with
  | .value _ accepts =>
    if f.has option.long || !accepts value then .error .misuse
    else .ok { f with values := (option.long, value) :: f.values, pending := none }
  | _ => .error .misuse

/-- One more argument by position. -/
def addArgument (f : Found) (s : Signature) (word : String) : Except Refusal Found :=
  if f.arguments.length < s.arguments then .ok { f with arguments := f.arguments ++ [word] }
  else .error .misuse

end Found

namespace Signature

/-- An option by its name. -/
def ofLong? (s : Signature) (name : String) : Option CommandOption :=
  s.options.find? (·.long == name)

/-- An option by its letter. -/
def ofShort? (s : Signature) (letter : Char) : Option CommandOption :=
  s.options.find? (·.short? == some letter)

/-- Takes an option by its name, with the value that is attached to it. -/
def takeLong (s : Signature) (f : Found) (name : String) (attached : Option String) :
    Except Refusal Found :=
  match s.ofLong? name with
  | none => .error .misuse
  | some option =>
    match option.kind, attached with
    | .help, none => .error .helpWanted
    | .flag, none => f.addFlag option.long
    | .value .., none => .ok { f with pending := some option }
    | .value .., some value => f.addValue option value
    | _, some _ => .error .misuse

/-- Takes a bundle of letters. The first option with a value takes what is left. -/
def takeShort (s : Signature) (f : Found) : List Char → Except Refusal Found
  | [] => .ok f
  | letter :: rest =>
    match s.ofShort? letter with
    | none => .error .misuse
    | some option =>
      match option.kind, rest with
      | .help, _ => .error .helpWanted
      | .flag, _ => do
        let f ← f.addFlag option.long
        s.takeShort f rest
      | .value .., [] => .ok { f with pending := some option }
      | .value .., '=' :: value => f.addValue option (String.ofList value)
      | .value .., value => f.addValue option (String.ofList value)

/-- Takes a word that no option waits for. -/
def takeFree (s : Signature) (f : Found) (word : String) : Except Refusal Found :=
  match word.toList with
  | ['-', '-'] => .ok { f with onlyArguments := true }
  | '-' :: '-' :: name =>
    let attached := match name.dropWhile (· ≠ '=') with
      | [] => none
      | _ :: value => some (String.ofList value)
    s.takeLong f (String.ofList (name.takeWhile (· ≠ '='))) attached
  | '-' :: letter :: letters => s.takeShort f (letter :: letters)
  | _ => f.addArgument s word

/-- The word looks like an option. -/
def isOptionLike (word : String) : Bool :=
  match word.toList with
  | '-' :: _ :: _ => true
  | _ => false

/-- Takes a word. -/
def take (s : Signature) (f : Found) (word : String) : Except Refusal Found :=
  if f.onlyArguments then f.addArgument s word
  else match f.pending with
    | none => s.takeFree f word
    | some option =>
      match option.kind with
      | .value anyWord _ =>
        if anyWord || !isOptionLike word then f.addValue option word else .error .misuse
      | _ => .error .misuse

/-- Takes all words. No value and no argument may be missing at the end. -/
def read (s : Signature) (words : List String) : Except Refusal Found := do
  let f ← words.foldlM s.take {}
  if f.pending.isSome || f.arguments.length ≠ s.arguments then throw .misuse
  return f

end Signature

end SolidTree
