/-
Quoted text: a text between quotes in which every character can be seen.

The quote and the backslash get a backslash, the usual controls their letter, and every other hidden
character is spelled by its number in hexadecimal.  So a quoted text is one line, whatever it
quotes, and it ends at its first quote that has no backslash before it.
-/
import WidgetLayout.Text.Hidden

namespace WidgetLayout.Text

/-- A number in hexadecimal, with small letters and no leading zero. -/
def hex (n : Nat) : List Char := Nat.toDigits 16 n

/-- How one character is spelled inside quotes. -/
def spell (c : Char) : List Char :=
  match c with
  | '\x00' => ['\\', '0']
  | '\t' => ['\\', 't']
  | '\r' => ['\\', 'r']
  | '\n' => ['\\', 'n']
  | '"' => ['\\', '"']
  | '\\' => ['\\', '\\']
  | c => if isHidden c then ['\\', 'u', '\x7b'] ++ hex c.toNat ++ ['\x7d'] else [c]

/-- A text between quotes. -/
def quote (cs : List Char) : List Char := '"' :: cs.flatMap spell ++ ['"']

end WidgetLayout.Text
