/-
  SolidTree.Command.Run
  ─────────────────────
  **CARRYING OUT A COMMAND.**

  A command reads and writes files through a store and ends in an outcome:
  what it prints, why it failed, or that it was not called as it should be.
  A whole command line runs with the standard library for JSON.

      outcome    exit code
      printed    0
      failed     1
      misused    2
-/
import SolidTree.Command.Help
import SolidTree.Json.Standard
import SolidTree.Project.Config

namespace SolidTree

/-! ## §1. Outcomes. -/

/-- How a command ended. -/
inductive Outcome where
  | printed (text : String)
  | failed (failure : Failure)
  | misused

namespace Outcome

/-- The exit code. -/
def code : Outcome → UInt32
  | .printed _ => 0
  | .failed _ => 1
  | .misused => 2

/-- What is printed as the result. -/
def output : Outcome → String
  | .printed text => text
  | .failed _ | .misused => ""

/-- What is told about a failure. -/
def complaint : Outcome → String
  | .printed _ => ""
  | .failed failure => failure.report
  | .misused => Topic.usage .all ++ "\nFor more information, try '--help'.\n"

end Outcome

/-! ## §2. Reports. -/

/-- A number of a report. -/
def reportNumber (x : Float) : String := NumberStyle.plain.text x

/-- A text with blanks in front, at least twelve characters wide. -/
def padLeft (text : String) : String :=
  String.ofList (List.replicate (12 - text.length) ' ') ++ text

/-- Three numbers of a report. -/
def reportTriple (v : Vec3 Float) : String :=
  "[" ++ ", ".intercalate (v.toList.map reportNumber) ++ "]"

/-- The box of a tree file, in lines. -/
def BoundingBox.report (b : BoundingBox Float) (input : String) : String :=
  let edges (axis : Axis) : String :=
    "  " ++ axis.name ++ ": " ++ padLeft (reportNumber (b.min.get axis)) ++ " "
      ++ padLeft (reportNumber (b.max.get axis)) ++ "\n"
  input ++ "\n" ++ String.join (Axis.all.map edges)
    ++ "  size: " ++ reportTriple b.size ++ "\n  center: " ++ reportTriple b.center ++ "\n"

/-- A solved span in one line. -/
def Span.report (s : Span Float) : String :=
  "Solved: from=" ++ reportNumber s.start ++ " center=" ++ reportNumber s.center
    ++ " to=" ++ reportNumber s.finish ++ " distance=" ++ reportNumber s.distance ++ "\n"

/-! ## §3. Commands. -/

/-- The stem of the file that a tree is saved to: the name of a part, or else the stem
of the file that the tree comes from. -/
def saveStem (n : Node Float) (input : Path) : Path :=
  match n with
  | .part _ p => .ofString p.fileName
  | _ =>
    match input.stem? with
    | some stem => ⟨stem⟩
    | none => .ofString "model"

namespace Store

variable {m : Type → Type} [Monad m]

/-- The text that rendering a tree file prints. The environment overrides the settings
of the working folder, but not those of a file that is asked for. -/
def render [JsonLibrary] (store : Store m) (env : Environment) (input : String)
    (destination : Destination) (config : Option String) : ExceptT Failure m String := do
  let config ← match config with
    | some path => store.readConfig (.ofString path)
    | none => store.loadConfig env
  let n ← store.importTree (.ofString input)
  let source ← match n.source config.format with
    | .ok source => pure source
    | .error fault => throw (.notRendered input fault)
  let path ← match destination with
    | .console => return source ++ "\n"
    | .file path => pure (Path.ofString path)
    | .outputDir => pure (config.outputPath (saveStem n (.ofString input)))
  let written ← store.exportSource source path
  return "Rendered " ++ input ++ " -> " ++ written.text ++ "\n"

/-- The text that measuring a tree file prints. -/
def bbox [JsonLibrary] (store : Store m) (input : String) : ExceptT Failure m String := do
  let n ← store.importTree (.ofString input)
  match n.extents.box with
  | .ok box => return box.report input
  | .error fault => throw (.notMeasured input fault)

/-- The text that solving a span prints. -/
def solve (spec : SpanSpec Float) : ExceptT Failure m String :=
  match spec.resolve with
  | .ok span => return span.report
  | .error fault => throw (.notSolved fault)

/-- The text that a request prints. -/
def carryOut [JsonLibrary] (store : Store m) (env : Environment) :
    Request → ExceptT Failure m String
  | .render input destination config => store.render env input destination config
  | .bbox input => store.bbox input
  | .solve spec => solve spec
  | .version => return "polyscad v0.1.0\n"

/-- Carries out a command line. -/
def run (store : Store m) (env : Environment) (words : List String) : m Outcome :=
  match CommandLine.ofWords words with
  | .misuse => return .misused
  | .help topic => return .printed topic.text
  | .request r => do
    match ← (store.carryOut env r).run with
    | .ok text => return .printed text
    | .error failure => return .failed failure

end Store

end SolidTree
