/-!
Outlines: trees set out on lines for reading. A group opens and closes on lines of its own, its
items stand between them one step further in, and each item ends with a comma; a group without items
stands on one line.
-/

namespace Chalk

inductive Outline where
  | atom (text : String)
  /-- Items with labels, which may be empty. -/
  | group (opening closing : String) (items : List (String × Outline))
deriving Inhabited

namespace Outline

/-- Puts a label before the first line. -/
def labelled (label : String) : List String → List String
  | [] => [label]
  | line :: lines => (label ++ line) :: lines

/-- Puts a comma behind the last line. -/
def withComma : List String → List String
  | [] => []
  | [line] => [line ++ ","]
  | line :: lines => line :: withComma lines

mutual

/-- The lines of an outline. -/
def lines : Outline → List String
  | atom text => [text]
  | group opening closing [] => [opening ++ closing]
  | group opening closing items => opening :: itemLines items ++ [closing]

/-- The lines of the items of a group. -/
def itemLines : List (String × Outline) → List String
  | [] => []
  | (label, item) :: rest =>
    (withComma (labelled label item.lines)).map ("    " ++ ·) ++ itemLines rest

end

/-- The text of an outline. -/
def text (o : Outline) : String :=
  "\n".intercalate o.lines

/-- A list of items without labels. -/
def list (items : List Outline) : Outline :=
  group "[" "]" (items.map fun item => ("", item))

/-- A name with parts in parentheses. -/
def tuple (name : String) (parts : List Outline) : Outline :=
  group (name ++ "(") ")" (parts.map fun part => ("", part))

/-- A name with labelled fields in braces. -/
def record (name : String) (fields : List (String × Outline)) : Outline :=
  group (name ++ " \x7b") "\x7d" (fields.map fun (label, field) => (label ++ ": ", field))

end Outline

end Chalk
