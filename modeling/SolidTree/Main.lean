/-
  SolidTree.Main
  ──────────────
  **THE PROGRAM.**

  Runs a command on the files of the disk and the variables of the
  environment.
-/
import SolidTree.Command.Run

namespace SolidTree.Program

/-- The result of an action, or nothing if it fails. -/
def attempt? {β : Type} (action : IO β) : IO (Option β) :=
  try
    let b ← action
    return some b
  catch _ => return none

/-- The store on the disk. -/
def disk : Store IO where
  read? p := attempt? (IO.FS.readFile p.text)
  isPresent p := return (← attempt? (IO.FS.realPath p.text)).isSome
  makeFolder p := return (← attempt? (IO.FS.createDirAll p.text)).isSome
  write p content := return (← attempt? (IO.FS.writeFile p.text content)).isSome

/-- The names of the environment variables that settings may come from. -/
def settingNames : List String := ["POLYSCAD_OUTPUT_DIR", "POLYSCAD_INDENT", "POLYSCAD_PRECISION"]

end SolidTree.Program

open SolidTree in
/-- Carries out the command line and exits with its code. -/
def main (words : List String) : IO UInt32 := do
  let settings ← Program.settingNames.mapM fun name => return (name, ← IO.getEnv name)
  let env : Environment := fun name => (settings.lookup name).join
  let outcome ← Program.disk.run env words
  IO.print outcome.output
  IO.eprint outcome.complaint
  return outcome.code
