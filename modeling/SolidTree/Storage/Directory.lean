/-
  SolidTree.Storage.Directory
  ───────────────────────────
  **A FOLDER AS A VALUE.**

  A directory holds files and folders at locations.  A path leads to a
  location step by step: each step starts from a folder that is there, `..`
  goes to the folder around it, and an empty name or `.` stays.

  Locations are counted from the working folder, from a folder some levels
  above it, or from the root; the names on the way from the root to the
  working folder are not known.
-/
import SolidTree.Storage.Store

namespace SolidTree

/-! ## §1. Locations. -/

/-- The folder that a location is counted from. -/
inductive Anchor where
  | root
  /-- A folder so many levels above the working one. -/
  | above (levels : Nat)
  deriving Repr, DecidableEq

/-- A place for a file or a folder. -/
structure Location where
  anchor : Anchor
  /-- The names below the anchor, the innermost one first. -/
  names : List (List Char)
  deriving Repr, DecidableEq

namespace Location

/-- The folder around a location. There is none around the root. -/
def parent (l : Location) : Location :=
  match l.names, l.anchor with
  | _ :: names, _ => { l with names := names }
  | [], .root => l
  | [], .above levels => { l with anchor := .above (levels + 1) }

/-- A name inside of a location. -/
def child (l : Location) (name : List Char) : Location := { l with names := name :: l.names }

/-- One step along a path. -/
def step (l : Location) (name : List Char) : Location :=
  if name = [] ∨ name = ['.'] then l
  else if name = ['.', '.'] then l.parent
  else l.child name

/-- Where a path starts. -/
def startOf (p : Path) : Location := ⟨if p.isAbsolute then .root else .above 0, []⟩

end Location

/-! ## §2. Directories. -/

/-- What is at a location. -/
inductive Entry where
  | file (content : String)
  | folder
  deriving Repr, DecidableEq

/-- Files and folders at locations. -/
structure Directory where
  entries : List (Location × Entry) := []
  deriving Repr, DecidableEq

namespace Directory

/-- What is at a location; at every anchor there is a folder. -/
def entry? (d : Directory) (l : Location) : Option Entry :=
  if l.names.isEmpty then some .folder else d.entries.lookup l

/-- There is a folder at a location. -/
def isFolder (d : Directory) (l : Location) : Bool := d.entry? l == some .folder

/-- The directory with something at a location. -/
def put (d : Directory) (l : Location) (e : Entry) : Directory :=
  ⟨(l, e) :: d.entries.filter fun old => old.1 != l⟩

/-- The path can be used: it is not empty, has no NUL, and is not too long. -/
def isUsable (p : Path) : Bool :=
  !p.isEmpty && !p.chars.contains '\x00' && p.text.utf8ByteSize < 4096

/-- A name can be given to a file or a folder. -/
def isNameable (name : List Char) : Bool := (String.ofList name).utf8ByteSize ≤ 255

/-- The location after some steps, each from a folder that is there. -/
def walk (d : Directory) (l : Location) (names : List (List Char)) : Option Location :=
  names.foldlM (fun l name => if d.isFolder l then some (l.step name) else none) l

/-- The location of a path. -/
def locate? (d : Directory) (p : Path) : Option Location :=
  if isUsable p then d.walk (.startOf p) (Path.split p.chars) else none

/-! ## §3. Operations. -/

/-- The text of a file. -/
def read? (d : Directory) (p : Path) : Option String :=
  match (d.locate? p).bind d.entry? with
  | some (.file content) => some content
  | _ => none

/-- There is a file or a folder. -/
def isPresent (d : Directory) (p : Path) : Bool := ((d.locate? p).bind d.entry?).isSome

/-- The directory with the folders of some steps, and where the steps lead. -/
def makeWay (d : Directory) (l : Location) : List (List Char) → Option (Directory × Location)
  | [] => if d.isFolder l then some (d, l) else none
  | name :: rest =>
    if d.isFolder l then
      let next := l.step name
      match d.entry? next with
      | some _ => makeWay d next rest
      | none => if isNameable name then makeWay (d.put next .folder) next rest else none
    else none

/-- The directory with a folder and those around it. -/
def makeFolder (d : Directory) (p : Path) : Option Directory :=
  if isUsable p then (d.makeWay (.startOf p) (Path.split p.chars)).map Prod.fst else none

/-- The directory with a file. Its folder has to be there, and no folder may have its
name. -/
def write (d : Directory) (p : Path) (content : String) : Option Directory :=
  let names := Path.split p.chars
  let name := Path.lastName p.chars
  if isUsable p ∧ isNameable name ∧ name ≠ [] ∧ name ≠ ['.'] ∧ name ≠ ['.', '.'] then
    match d.walk (.startOf p) names.dropLast with
    | some folder =>
      if d.isFolder folder ∧ !d.isFolder (folder.child name) then
        some (d.put (folder.child name) (.file content))
      else none
    | none => none
  else none

/-- The directory that holds some files, each in folders of its own path. -/
def ofFiles (files : List (String × String)) : Directory :=
  files.foldl
    (fun d (name, content) =>
      let path := Path.ofString name
      let folders := (d.makeFolder path.parent).getD d
      (folders.write path content).getD folders)
    {}

/-! ## §4. As a store. -/

/-- Runs a change that may be impossible. -/
def change (f : Directory → Option Directory) : StateM Directory Bool := do
  match f (← get) with
  | some d =>
    set d
    return true
  | none => return false

/-- The store on a directory that is a value. -/
def store : Store (StateM Directory) where
  read? p := return (← get).read? p
  isPresent p := return (← get).isPresent p
  makeFolder p := change (·.makeFolder p)
  write p content := change (·.write p content)

end Directory

end SolidTree
