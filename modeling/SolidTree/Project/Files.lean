/-
  SolidTree.Project.Files
  ───────────────────────
  **TREES AND SOURCE IN FILES.**

      importTree     — the tree of a file
      exportTree     — a tree as pretty JSON
      exportSource   — source under a name that ends in `.scad`
      renderToFile   — the source of a tree, exported

  What is written goes into folders that are made as needed.
-/
import SolidTree.Codec.Tree
import SolidTree.Project.Failure
import SolidTree.Source.Drawing
import SolidTree.Storage.Store

namespace SolidTree

/-- The extension of source files. -/
def sourceExtension : List Char := ['s', 'c', 'a', 'd']

namespace Store

variable {m : Type → Type} [Monad m]

/-- The tree of a file. -/
def importTree [JsonLibrary] (store : Store m) (path : Path) : ExceptT Failure m (Node Float) := do
  match ← store.read? path with
  | none => throw (.treeUnreadable path)
  | some text =>
    match Node.read? text with
    | none => throw (.treeMalformed path)
    | some n => return n

/-- Makes the folder that a file goes into. -/
def prepareFolder (store : Store m) (path : Path) : ExceptT Failure m Unit := do
  let folder := path.parent
  if !folder.isEmpty then
    if !(← store.makeFolder folder) then throw (.folderNotMade folder)

/-- Writes source to a path, which gets the extension of source files unless it has
it already; gives the path that was written. -/
def exportSource (store : Store m) (source : String) (path : Path) : ExceptT Failure m Path := do
  let path :=
    if path.extension? = some sourceExtension then path else path.setExtension sourceExtension
  store.prepareFolder path
  if !(← store.write path source) then throw (.sourceNotWritten path)
  return path

/-- Writes the source of a tree. -/
def renderToFile (store : Store m) (n : Node Float) (path : Path) (format : Format) :
    ExceptT Failure m Path := do
  match n.source format with
  | .ok source => store.exportSource source path
  | .error fault => throw (.notRendered "model" fault)

/-- Writes a tree as pretty JSON. -/
def exportTree [JsonLibrary] (store : Store m) (n : Node Float) (path : Path) :
    ExceptT Failure m Unit := do
  store.prepareFolder path
  if !(← store.write path (JsonLibrary.prettyText n.toJson)) then throw (.treeNotWritten path)

end Store

end SolidTree
