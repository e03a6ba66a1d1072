/-
  SolidTree.Tree.Node
  ───────────────────
  **THE MODEL TREE.**

  A node is a leaf shape, an operator over children, a set operation on
  operands, or a part; each carries a tag with a modifier and a comment.

  A part sorts its members into three lists — structural children, holes and
  miscellaneous items — and each member remembers the field that holds it.
  The lists are kept in an `Assembly ν` whose members are of any kind `ν`, so
  that the same arrangement serves nodes and what is drawn from them.
-/
import SolidTree.Tree.Operator
import SolidTree.Tree.Primitive

namespace SolidTree

/-! ## §1. Tags. -/

/-- How the subtree is shown while a model is being worked on. -/
inductive Modifier where
  | none
  /-- Left out. -/
  | disable
  /-- Highlighted. -/
  | debug
  /-- Transparent, and not part of the model. -/
  | background
  /-- Shown alone. -/
  | root
  deriving Repr, DecidableEq

namespace Modifier

/-- The modifiers in order. -/
def all : List Modifier := [.none, .disable, .debug, .background, .root]

/-- Name of the modifier. -/
def name : Modifier → String
  | .none => "None"
  | .disable => "Disable"
  | .debug => "Debug"
  | .background => "Background"
  | .root => "Root"

/-- The sign in front of a call. -/
def sign : Modifier → List Char
  | .none => []
  | .disable => ['*']
  | .debug => ['#']
  | .background => ['%']
  | .root => ['!']

end Modifier

/-- What is said about a node besides its geometry. -/
structure Tag where
  modifier : Modifier := .none
  comment : Option String := none
  deriving Repr, DecidableEq

/-- Nothing is said. -/
def Tag.isPlain (t : Tag) : Bool := t.modifier == .none && t.comment == none

/-! ## §2. Parts. -/

/-- A member of a part, with the field that holds it, if any. -/
structure Slot (ν : Type) where
  field : Option String
  node : ν
  deriving Repr, DecidableEq

/-- What becomes of the geometry of a part when it is drawn. Measures ignore it. -/
inductive Finish where
  /-- It is drawn as it was built. -/
  | asBuilt
  /-- It is a profile, and is turned about the Z axis. -/
  | revolve (segments : Option UInt32)
  /-- It is two items or more, and they are drawn as their hull. -/
  | hullPair
  deriving Repr, DecidableEq

/-- A named collection of members, sorted by their roles. -/
structure Assembly (ν : Type) where
  name : String
  children : List (Slot ν) := []
  holes : List (Slot ν) := []
  miscellaneous : List (Slot ν) := []
  finish : Option Finish := none
  deriving Repr, DecidableEq

/-! ## §3. Nodes. -/

/-- An operation on sets of points. -/
inductive SetOperation where
  | union
  /-- The first operand without the others. -/
  | difference
  | intersection
  deriving Repr, DecidableEq

/-- Name of the call. -/
def SetOperation.name : SetOperation → String
  | .union => "union"
  | .difference => "difference"
  | .intersection => "intersection"

/-- A node of the model tree. -/
inductive Node (α : Type) where
  | leaf (tag : Tag) (shape : Primitive α)
  /-- An operator over the union of its children. -/
  | apply (tag : Tag) (op : Operator α) (children : List (Node α))
  | compose (tag : Tag) (op : SetOperation) (operands : List (Node α))
  | part (tag : Tag) (members : Assembly (Node α))

/-- A part of the model. -/
abbrev Part (α : Type) := Assembly (Node α)

namespace Node

variable {α : Type}

/-- The tag of a node. -/
def tag : Node α → Tag
  | .leaf tag _ | .apply tag _ _ | .compose tag _ _ | .part tag _ => tag

/-- The same geometry with another tag. -/
def withTag (n : Node α) (tag : Tag) : Node α :=
  match n with
  | .leaf _ shape => .leaf tag shape
  | .apply _ op children => .apply tag op children
  | .compose _ op operands => .compose tag op operands
  | .part _ members => .part tag members

/-- The node has neither modifier nor comment. -/
def isPlain (n : Node α) : Bool := n.tag.isPlain

/-- The node with a comment. -/
def withComment (n : Node α) (comment : String) : Node α :=
  n.withTag { n.tag with comment := some comment }

/-- The node with a modifier. -/
def withModifier (n : Node α) (modifier : Modifier) : Node α :=
  n.withTag { n.tag with modifier := modifier }

/-- Name of the call that the node stands for. -/
def name : Node α → String
  | .leaf _ shape => shape.name
  | .apply _ op _ => op.name
  | .compose _ op _ => op.name
  | .part .. => "part"

/-- The nodes right below; those inside of a part do not count. -/
def children : Node α → List (Node α)
  | .leaf .. | .part .. => []
  | .apply _ _ children => children
  | .compose _ _ operands => operands

@[simp] theorem tag_withTag (n : Node α) (t : Tag) : (n.withTag t).tag = t := by
  cases n <;> rfl

@[simp] theorem withTag_tag (n : Node α) : n.withTag n.tag = n := by
  cases n <;> rfl

@[simp] theorem withTag_withTag (n : Node α) (t u : Tag) :
    (n.withTag t).withTag u = n.withTag u := by
  cases n <;> rfl

@[simp] theorem children_withTag (n : Node α) (t : Tag) :
    (n.withTag t).children = n.children := by
  cases n <;> rfl

end Node

end SolidTree
