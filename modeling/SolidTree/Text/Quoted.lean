/-
  SolidTree.Text.Quoted
  ─────────────────────
  **TEXTS QUOTED IN MESSAGES.**

  A message shows a text between double quotes such that every character of
  it can be seen: double quotes and backslashes follow a backslash, line
  ends and tabs are letters after a backslash, and a character that does not
  show by itself is its number in hexadecimal.  Single quotes stay as they
  are.
-/
import SolidTree.Text.Visible

namespace SolidTree.Quoted

/-- A character as its number. -/
def byNumber (c : Char) : List Char :=
  '\\' :: 'u' :: '\x7b' :: (Nat.toDigits 16 c.toNat ++ ['\x7d'])

/-- The characters that a character is shown as. -/
def showChar (c : Char) : List Char :=
  match c with
  | '\x00' => ['\\', '0']
  | '\t' => ['\\', 't']
  | '\r' => ['\\', 'r']
  | '\n' => ['\\', 'n']
  | '\\' => ['\\', '\\']
  | '"' => ['\\', '"']
  | c => if Visible.isVisible c then [c] else byNumber c

/-- A text as a message shows it. -/
def ofText (text : String) : String :=
  String.ofList ('"' :: (text.toList.flatMap showChar ++ ['"']))

end SolidTree.Quoted
