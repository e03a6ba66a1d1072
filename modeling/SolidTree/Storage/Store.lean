/-
  SolidTree.Storage.Store
  ───────────────────────
  **WHAT IS ASKED OF A STORE OF FILES.**

  Commands read and write files through a `Store m`, whose operations run in
  a monad `m`.  The same command then runs on a folder that is a value, and
  on a disk.
-/
import SolidTree.Storage.Path

namespace SolidTree

/-- Files under paths. -/
structure Store (m : Type → Type) where
  /-- The text of a file, if there is such a file. -/
  read? : Path → m (Option String)
  /-- There is a file or a folder. -/
  isPresent : Path → m Bool
  /-- Makes a folder and those around it; tells whether it is there now. -/
  makeFolder : Path → m Bool
  /-- Writes a file into a folder that is there; tells whether it succeeded. -/
  write : Path → String → m Bool

end SolidTree
