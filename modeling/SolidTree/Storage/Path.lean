/-
  SolidTree.Storage.Path
  ──────────────────────
  **PATHS OF FILES.**

  A path is the text that was given; separators and dots that say nothing
  stay in it.  Only its last name is looked at and changed:

      body        — the path up to the end of its last name
      fileName?   — the last name, unless it is `.` or `..`
      stem?       — the name before its last dot; a name that only starts with
                    a dot has no extension
      join        — a path below another one; an absolute path stands alone
-/
namespace SolidTree

/-- A path as it is written. -/
structure Path where
  chars : List Char
  deriving Repr, DecidableEq

namespace Path

/-! ## §1. Texts. -/

/-- The path of a text. -/
def ofString (text : String) : Path := ⟨text.toList⟩

/-- The text of a path. -/
def text (p : Path) : String := String.ofList p.chars

/-- The path leads nowhere. -/
def isEmpty (p : Path) : Bool := p.chars.isEmpty

/-- The names between separators, from left to right; some may be empty. -/
def split : List Char → List (List Char)
  | [] => [[]]
  | c :: rest =>
    if c = '/' then [] :: split rest
    else match split rest with
      | [] => [[c]]
      | name :: names => (c :: name) :: names

/-- The path starts from the root. -/
def isAbsolute (p : Path) : Bool := p.chars.head? == some '/'

/-! ## §2. The last name. -/

/-- What is left of a path, read from its end, after the separators there and names
that stay in the same folder. -/
def trimBack : List Char → List Char
  | '/' :: rest => trimBack rest
  | '.' :: '/' :: rest => trimBack rest
  | cs => cs

/-- The path up to the end of its last name. -/
def body (p : Path) : List Char := (trimBack p.chars.reverse).reverse

/-- The characters after the last separator. -/
def lastName (cs : List Char) : List Char := (cs.reverse.takeWhile (· ≠ '/')).reverse

/-- The last name, unless it leads to a folder that is named elsewhere. -/
def fileName? (p : Path) : Option (List Char) :=
  let name := lastName p.body
  if name = [] ∨ name = ['.'] ∨ name = ['.', '.'] then none else some name

/-- The folder of the last name, as far as the path names it. -/
def parent (p : Path) : Path :=
  let folder := p.body.take (p.body.length - (lastName p.body).length)
  ⟨(trimBack folder.reverse).reverse⟩

/-! ## §3. Stem and extension. -/

/-- A name before its last dot and after it. -/
def splitName (name : List Char) : List Char × Option (List Char) :=
  match (name.reverse.dropWhile (· ≠ '.')).drop 1 with
  | [] => (name, none)
  | stem => (stem.reverse, some (name.drop (stem.length + 1)))

/-- The last name without its extension. -/
def stem? (p : Path) : Option (List Char) := p.fileName?.map fun name => (splitName name).1

/-- The extension of the last name. -/
def extension? (p : Path) : Option (List Char) :=
  p.fileName?.bind fun name => (splitName name).2

/-- The path with another extension in the place of the one there. What follows the
last name is dropped; a path without a last name stays as it is. -/
def setExtension (p : Path) (extension : List Char) : Path :=
  match p.fileName? with
  | none => p
  | some name =>
    let folder := p.body.take (p.body.length - name.length)
    ⟨folder ++ (splitName name).1 ++ '.' :: extension⟩

/-- A copy of the path with another extension. The copy leaves out as many characters
from the end as the extension has, before the extension there is replaced; so a
name whose stem is a lone dot becomes the folder above. -/
def withExtension (p : Path) (extension : List Char) : Path :=
  match p.extension? with
  | none => p.setExtension extension
  | some old => (Path.mk (p.chars.take (p.chars.length - old.length))).setExtension extension

/-! ## §4. Paths below paths. -/

/-- The path `q` seen from `p`. -/
def join (p q : Path) : Path :=
  if q.isAbsolute then q
  else if p.isEmpty ∨ p.chars.getLast? = some '/' then ⟨p.chars ++ q.chars⟩
  else ⟨p.chars ++ '/' :: q.chars⟩

end Path

end SolidTree
