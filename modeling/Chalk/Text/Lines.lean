/-!
Lines of a text. A line ends after each newline character and at the end of the text, so a text that
ends in a newline has no empty line after it, and the empty text has no line at all.
-/

namespace Chalk.Text

/-- The lines of a text, each with its newline. -/
def lines : List Char → List (List Char)
  | [] => []
  | c :: cs =>
    if c = '\n' then [c] :: lines cs
    else
      match lines cs with
      | [] => [[c]]
      | line :: rest => (c :: line) :: rest

/-- A line without the newlines and carriage returns at its end. -/
def dropLineEnd (line : List Char) : List Char :=
  (line.reverse.dropWhile fun c => c == '\n' || c == '\r').reverse

/-- The line of the given number, counted from 1, without its end. -/
def line? (cs : List Char) : Nat → Option (List Char)
  | 0 => none
  | n + 1 => (lines cs)[n]?.map dropLineEnd

/-- The number of newlines in a text. -/
def newlines (cs : List Char) : Nat :=
  cs.count '\n'

end Chalk.Text
