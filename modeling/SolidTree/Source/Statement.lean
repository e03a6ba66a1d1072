/-
  SolidTree.Source.Statement
  ──────────────────────────
  **STATEMENTS OF GENERATED SOURCE.**

  A statement is a call by itself, a call over one statement, or a call with
  a block of statements.  Comments stand before it, on lines of their own,
  and a modifier right before the name:

      // comment                  // comment
      name(arguments);            #name(arguments) {
                                    statement
      name(arguments)               statement
      statement                   }

  The tree of statements is built elsewhere; this is the only place where
  it becomes text.
-/
import SolidTree.Source.Arguments
import SolidTree.Tree.Node

namespace SolidTree

/-! ## §1. Statements. -/

/-- What stands before the body of a statement. -/
structure Head (α : Type) where
  /-- Comments, the first one on top; none of them is empty. -/
  comments : List String := []
  modifier : Modifier := .none
  name : String
  arguments : Arguments α := {}

/-- How the block of a call is opened. -/
inductive Opening where
  /-- On the line of the call. -/
  | sameLine
  /-- On a line of its own. -/
  | nextLine
  deriving Repr, DecidableEq

/-- A statement. -/
inductive Statement (α : Type) where
  | call (head : Head α)
  /-- A call that takes the statement after it. -/
  | over (head : Head α) (operand : Statement α)
  | block (head : Head α) (opening : Opening) (items : List (Statement α))

namespace Statement

variable {α : Type}

/-- What stands before the body. -/
def head : Statement α → Head α
  | .call head | .over head _ | .block head _ _ => head

/-- The statement with another head. -/
def withHead (s : Statement α) (head : Head α) : Statement α :=
  match s with
  | .call _ => .call head
  | .over _ operand => .over head operand
  | .block _ opening items => .block head opening items

/-- The statement under one more comment. Neither an absent nor an empty comment
shows. -/
def underComment (s : Statement α) (comment : Option String) : Statement α :=
  match comment with
  | none => s
  | some comment =>
    if comment.isEmpty then s
    else s.withHead { s.head with comments := comment :: s.head.comments }

end Statement

/-! ## §2. Text. -/

/-- The comments and the call. -/
def Head.chars (format : Format) (h : Head Float) : List Char :=
  h.comments.flatMap (fun comment => Source.commentLines comment.toList)
    ++ h.modifier.sign ++ h.name.toList
    ++ '(' :: (Source.arguments format.precision h.arguments ++ [')'])

/-- The characters that open a block. -/
def Opening.chars : Opening → List Char
  | .sameLine => [' ', '\x7b']
  | .nextLine => ['\n', '\x7b']

mutual

/-- A statement as text. -/
def Statement.chars (format : Format) : Statement Float → List Char
  | .call head => head.chars format ++ [';']
  | .over head operand => head.chars format ++ '\n' :: operand.chars format
  | .block head opening items =>
    head.chars format ++ opening.chars ++ blockLines format items ++ ['\n', '\x7d']

/-- The statements of a block, each on lines of its own. -/
def blockLines (format : Format) : List (Statement Float) → List Char
  | [] => []
  | s :: rest =>
    '\n' :: (Source.indent format.indent.toList (s.chars format) ++ blockLines format rest)

end

/-- A statement as text. -/
def Statement.text (format : Format) (s : Statement Float) : String :=
  String.ofList (s.chars format)

end SolidTree
