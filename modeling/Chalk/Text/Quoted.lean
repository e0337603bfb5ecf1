import Chalk.Text.Extending
import Chalk.Text.Ignorable
import Chalk.Text.Invisible

/-!
Quoted text: the form in which messages and tree listings show a piece of the source, so that every
character can be seen. It stands between double quotes; quote and backslash are escaped, and what
would not show, or would join the character before it, is given by its code point.
-/

namespace Chalk.Text

/-- A character by its code point in lower-case hexadecimal, as in `\u{ad}`. -/
def codePoint (c : Char) : List Char :=
  ['\\', 'u', '{'] ++ Nat.toDigits 16 c.toNat ++ ['}']

/-- Whether a character cannot be seen where it stands alone. -/
def isHidden (c : Char) : Bool :=
  extending.contains c || ignorable.contains c || invisible.contains c

/-- One character inside quotes. -/
def quotedChar (c : Char) : List Char :=
  if c = '\x00' then ['\\', '0']
  else if c = '\t' then ['\\', 't']
  else if c = '\r' then ['\\', 'r']
  else if c = '\n' then ['\\', 'n']
  else if c = '\\' then ['\\', '\\']
  else if c = '"' then ['\\', '"']
  else if isHidden c then codePoint c
  else [c]

/-- A text between quotes, each character in its visible form. -/
def quoted (s : String) : String :=
  String.ofList ('"' :: s.toList.flatMap quotedChar ++ ['"'])

example : quoted "it's\t\"é\"" = "\"it's\\t\\\"é\\\"\"" := by decide +kernel

example : quoted "e\u0301" = "\"e\\u\x7b301\x7d\"" := by decide +kernel

example : quoted "\u115f\uff9f" = "\"\\u\x7b115f\x7d\uff9f\"" := by decide +kernel

end Chalk.Text
