/-
  SolidTree.Project.Failure
  ─────────────────────────
  **WHAT CAN GO WRONG WITH FILES AND COMMANDS.**

  A failure says what was being done, to which file or model; if a fault of
  the model was the reason, it is kept and shown as the cause, in a
  paragraph of its own whose lines are indented.
-/
import SolidTree.Fault
import SolidTree.Storage.Path
import SolidTree.Text.Quoted

namespace SolidTree

/-- A failure of a command, of a file or of a setting. -/
inductive Failure where
  | treeUnreadable (path : Path)
  | treeMalformed (path : Path)
  | configUnreadable (path : Path)
  | configMalformed (path : Path)
  /-- A setting of the environment is no count of decimals. -/
  | precisionInvalid (setting : String)
  | folderNotMade (path : Path)
  | sourceNotWritten (path : Path)
  | treeNotWritten (path : Path)
  /-- There is no source of a model. -/
  | notRendered (subject : String) (fault : Fault Float)
  /-- There is no box around a model. -/
  | notMeasured (subject : String) (fault : Fault Float)
  /-- There is no span with the given quantities. -/
  | notSolved (fault : Fault Float)

namespace Failure

/-- What was being done. -/
def message : Failure → String
  | .treeUnreadable path => "Failed to read tree file: " ++ path.text
  | .treeMalformed path => "Failed to parse tree file: " ++ path.text
  | .configUnreadable path => "Failed to read config file: " ++ Quoted.ofText path.text
  | .configMalformed path => "Failed to parse config file: " ++ Quoted.ofText path.text
  | .precisionInvalid setting => "Invalid POLYSCAD_PRECISION: " ++ Quoted.ofText setting
  | .folderNotMade path => "Failed to create directory: " ++ path.text
  | .sourceNotWritten path => "Failed to write SCAD file: " ++ path.text
  | .treeNotWritten path => "Failed to write tree file: " ++ path.text
  | .notRendered subject _ => "Failed to render " ++ subject
  | .notMeasured subject _ => "Failed to measure " ++ subject
  | .notSolved _ => "Failed to solve axis"

/-- The fault of the model that was the reason. -/
def cause? : Failure → Option (Fault Float)
  | .notRendered _ fault | .notMeasured _ fault | .notSolved fault => some fault
  | _ => none

/-- The blanks before each line of a cause. -/
def causeIndent : List Char := List.replicate 4 ' '

/-- The paragraph about a cause: its lines, indented from the second one on. -/
def causeText (fault : Fault Float) : String :=
  String.ofList (fault.message.toList.flatMap fun c => if c = '\n' then c :: causeIndent else [c])

/-- What is told about the failure. -/
def report (failure : Failure) : String :=
  let cause := match failure.cause? with
    | some fault => "\n\nCaused by:\n" ++ String.ofList causeIndent ++ causeText fault
    | none => ""
  "Error: " ++ failure.message ++ cause ++ "\n"

end Failure

end SolidTree
