/-
  SolidTree.Source.Lines
  ──────────────────────
  **INDENTED LINES, COMMENTS AND QUOTED TEXTS.**

  Generated source is text over lines.  Two operations work on it without
  looking inside: indenting every line by a token, and putting a comment in
  front.  A text becomes a literal in which no quote, backslash, line end or
  tab stands for itself, so a literal stays on its line.
-/
namespace SolidTree.Source

/-- Every line with `token` in front. The empty text is one line. -/
def indent (token code : List Char) : List Char :=
  token ++ code.flatMap fun c => if c = '\n' then '\n' :: token else [c]

/-- Each line of a comment as a comment line of its own. -/
def commentLines (comment : List Char) : List Char :=
  indent ['/', '/', ' '] comment ++ ['\n']

/-- The code under a comment. Neither an absent nor an empty comment shows. -/
def underComment (comment : Option String) (code : List Char) : List Char :=
  match comment with
  | none => code
  | some comment => if comment.isEmpty then code else commentLines comment.toList ++ code

/-- The characters that a character of a text is written with. -/
def escapeChar (c : Char) : List Char :=
  match c with
  | '\\' => ['\\', '\\']
  | '"' => ['\\', '"']
  | '\n' => ['\\', 'n']
  | '\t' => ['\\', 't']
  | c => [c]

/-- A text as a literal in double quotes. -/
def quote (text : List Char) : List Char := '"' :: (text.flatMap escapeChar ++ ['"'])

end SolidTree.Source
