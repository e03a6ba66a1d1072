/-
  SolidTree.Project.Config
  ────────────────────────
  **SETTINGS OF A PROJECT.**

  Settings say how source is formatted and which folder receives it.  They
  come from a settings file, where anything may be left out, and from the
  environment, which overrides a file:

      output_dir = "out"        POLYSCAD_OUTPUT_DIR

      [render]
      indent = "  "             POLYSCAD_INDENT
      precision = 4             POLYSCAD_PRECISION
-/
import SolidTree.Project.Failure
import SolidTree.Project.Files
import SolidTree.Text.Blank
import SolidTree.Toml.Reader
import SolidTree.Toml.Written

namespace SolidTree

/-! ## §1. Settings. -/

/-- Settings of a project. -/
structure Config where
  format : Format := {}
  outputDir : Path := .ofString "out"
  deriving Repr, DecidableEq

/-- The values of environment variables. -/
abbrev Environment := String → Option String

namespace Config

/-- The settings file that is looked for in the working folder. -/
def fileName : Path := .ofString "polyscad.toml"

/-- Where the source of a model goes. -/
def outputPath (config : Config) (stem : Path) : Path :=
  (config.outputDir.join stem).withExtension sourceExtension

/-! ## §2. The environment. -/

/-- A count of decimals, blanks around it left aside. -/
def precision? (setting : String) : Option UInt32 :=
  (Numeral.natural? UInt32.size (String.ofList (Blank.trim setting.toList))).map UInt32.ofNat

/-- The settings with overrides, and what was wrong with one of them. Overrides that
come before a wrong one are in force. -/
def override (config : Config) (env : Environment) : Config × Option Failure :=
  let config := match env "POLYSCAD_OUTPUT_DIR" with
    | some dir => { config with outputDir := .ofString dir }
    | none => config
  let config := match env "POLYSCAD_INDENT" with
    | some indent => { config with format := { config.format with indent := indent } }
    | none => config
  match env "POLYSCAD_PRECISION" with
  | none => (config, none)
  | some setting =>
    match precision? setting with
    | some n => ({ config with format := { config.format with precision := n } }, none)
    | none => (config, some (.precisionInvalid setting))

/-! ## §3. Reading settings files. -/

/-- An entry that may be left out. -/
def entry {β : Type} (usual : β) (read : Toml → Option β) : Option Toml → Option β
  | none => some usual
  | some v => read v

/-- A text. -/
def text? : Toml → Option String
  | .text s => some s
  | _ => none

/-- A 32-bit word. -/
def word? : Toml → Option UInt32
  | .integer n => if 0 ≤ n ∧ n.toNat < UInt32.size then some (UInt32.ofNat n.toNat) else none
  | _ => none

/-- A format from a table, or from its two values in order. A moment says nothing about
a format. -/
def format? : Toml → Option Format
  | .table entries => do
    let usual : Format := {}
    let indent ← entry usual.indent text? (Toml.get? entries "indent")
    let precision ← entry usual.precision word? (Toml.get? entries "precision")
    return { indent, precision }
  | .array items => do
    let usual : Format := {}
    let indent ← entry usual.indent text? items[0]?
    let precision ← entry usual.precision word? items[1]?
    return { indent, precision }
  | .moment _ => some {}
  | _ => none

/-- The settings of a settings file. -/
def parse? (source : String) : Option Config := do
  let entries ← Toml.parse? source
  let usual : Config := {}
  let format ← entry usual.format format? (Toml.get? entries "render")
  let outputDir ← entry usual.outputDir (fun v => (text? v).map Path.ofString)
    (Toml.get? entries "output_dir")
  return { format, outputDir }

/-! ## §4. Writing settings files. -/

/-- A line with a key and a value. -/
def line (key : String) (value : List Char) : List Char :=
  key.toList ++ [' ', '=', ' '] ++ value ++ ['\n']

/-- The settings as a settings file. -/
def toToml (config : Config) : String :=
  String.ofList
    (line "output_dir" (Toml.written config.outputDir.text) ++ ['\n']
      ++ "[render]\n".toList
      ++ line "indent" (Toml.written config.format.indent)
      ++ line "precision" (Nat.toDigits 10 config.format.precision.toNat))

end Config

/-! ## §5. Settings in files. -/

namespace Store

variable {m : Type → Type} [Monad m]

/-- The settings of a file. -/
def readConfig (store : Store m) (path : Path) : ExceptT Failure m Config := do
  match ← store.read? path with
  | none => throw (.configUnreadable path)
  | some text =>
    match Config.parse? text with
    | none => throw (.configMalformed path)
    | some config => return config

/-- The settings of the working folder under the environment. -/
def loadConfig (store : Store m) (env : Environment) : ExceptT Failure m Config := do
  let config ← if ← store.isPresent Config.fileName then store.readConfig Config.fileName
    else pure {}
  match config.override env with
  | (config, none) => return config
  | (_, some failure) => throw failure

end Store

end SolidTree
