/-
  SolidTree.Command.Request
  ─────────────────────────
  **WHAT A COMMAND LINE ASKS FOR.**

      render INPUT [-o OUTPUT | --save] [-c CONFIG]
      bbox INPUT
      solve [--from F] [--center C] [--to T] [--distance D]
      version

  Every command takes `-v` and `-h`; `help` explains another command.
-/
import SolidTree.Command.Option
import SolidTree.Geometry.Span
import SolidTree.Number.Numeral

namespace SolidTree

/-! ## §1. Requests. -/

/-- Where the source of a model goes. -/
inductive Destination where
  | console
  | file (path : String)
  /-- Into the folder of the project. -/
  | outputDir
  deriving Repr, DecidableEq

/-- What a command line asks for. -/
inductive Request where
  | render (input : String) (destination : Destination) (config : Option String)
  | bbox (input : String)
  | solve (spec : SpanSpec Float)
  | version

/-- Something that there is help on. -/
inductive Topic where
  | all
  | render
  | bbox
  | solve
  | version
  | help
  deriving Repr, DecidableEq

/-- What a command line is: a request, a question, or neither. -/
inductive CommandLine where
  | request (r : Request)
  | help (topic : Topic)
  | misuse

/-! ## §2. Signatures. -/

namespace Request

/-- Options of every command. -/
def common : List CommandOption :=
  [{ long := "verbose", short? := some 'v', kind := .flag },
    { long := "help", short? := some 'h', kind := .help }]

/-- A value that is any text but does not look like an option. -/
def textValue : OptionKind := .value false fun _ => true

/-- A value that is a number, perhaps a negative one. -/
def numberValue : OptionKind := .value true fun word => (Numeral.float? word).isSome

/-- The signature of `render`. -/
def renderSignature : Signature where
  options :=
    [{ long := "output", short? := some 'o', kind := textValue },
      { long := "save", kind := .flag },
      { long := "config", short? := some 'c', kind := textValue }] ++ common
  arguments := 1

/-- The signature of `bbox`. -/
def bboxSignature : Signature where
  options := common
  arguments := 1

/-- The signature of `solve`. -/
def solveSignature : Signature where
  options :=
    (["from", "center", "to", "distance"].map fun name =>
      { long := name, kind := numberValue : CommandOption }) ++ common

/-- The signature of `version`, and that of the words before a command. -/
def bareSignature : Signature where
  options := common

/-! ## §3. Reading. -/

/-- The request of `render`. A file and the folder of the project are not asked for at
once. -/
def ofRender (f : Found) : Option Request :=
  match f.arguments, f.value? "output", f.has "save" with
  | [input], none, false => some (.render input .console (f.value? "config"))
  | [input], some path, false => some (.render input (.file path) (f.value? "config"))
  | [input], none, true => some (.render input .outputDir (f.value? "config"))
  | _, _, _ => none

/-- The request of `bbox`. -/
def ofBbox (f : Found) : Option Request :=
  match f.arguments with
  | [input] => some (.bbox input)
  | _ => none

/-- The request of `solve`. -/
def ofSolve (f : Found) : Option Request :=
  let number (name : String) : Option Float := (f.value? name).bind Numeral.float?
  some (.solve
    { start? := number "from", center? := number "center", finish? := number "to",
      distance? := number "distance" })

end Request

/-- A command: what its words mean, and how they are read. -/
structure Command where
  name : String
  topic : Topic
  signature : Signature
  request : Found → Option Request

namespace Command

/-- The commands. -/
def all : List Command :=
  [⟨"render", .render, Request.renderSignature, Request.ofRender⟩,
    ⟨"bbox", .bbox, Request.bboxSignature, Request.ofBbox⟩,
    ⟨"solve", .solve, Request.solveSignature, Request.ofSolve⟩,
    ⟨"version", .version, Request.bareSignature, fun _ => some .version⟩]

/-- A command by its name. -/
def find? (name : String) : Option Command := all.find? (·.name == name)

/-- What the words after the name of a command ask for. -/
def read (c : Command) (words : List String) : CommandLine :=
  match c.signature.read words with
  | .error .helpWanted => .help c.topic
  | .error .misuse => .misuse
  | .ok found =>
    match c.request found with
    | some r => .request r
    | none => .misuse

/-- What the words after `help` ask for. -/
def readHelp : List String → CommandLine
  | [] => .help .all
  | ["help"] => .help .help
  | [name] =>
    match find? name with
    | some c => .help c.topic
    | none => .misuse
  | _ => .misuse

/-- What the words of a command line are, given the options before them. -/
def readAll (f : Found) : List String → CommandLine
  | [] => .misuse
  | word :: rest =>
    if Signature.isOptionLike word then
      match Request.bareSignature.takeFree f word with
      | .error .helpWanted => .help .all
      | .error .misuse => .misuse
      | .ok f => if f.onlyArguments then .misuse else readAll f rest
    else if word == "help" then readHelp rest
    else match find? word with
      | some c => c.read rest
      | none => .misuse

end Command

/-- What a command line is. -/
def CommandLine.ofWords (words : List String) : CommandLine := Command.readAll {} words

end SolidTree
