/-!
Paths of files: names with slashes between them.
-/

namespace Chalk.Path

/-- The names on a path. A single dot and the nothing between two slashes are left in. -/
def names (path : String) : List String :=
  (path.toList.splitOn '/').map String.ofList

/-- The characters behind the last slash. -/
def lastName (cs : List Char) : List Char :=
  (cs.reverse.takeWhile (· != '/')).reverse

/-- The name of the file at the end of a path. -/
def fileName (path : String) : String :=
  String.ofList (lastName path.toList)

/-- A file name without its extension: what stands before the last dot, unless the dot comes first
or the name is the one for the directory above. -/
def stem (name : List Char) : List Char :=
  match (name.reverse.dropWhile (· != '.')).drop 1 with
  | [] => name
  | before => if name = ['.', '.'] then name else before.reverse

/-- A file name up to its extension, with the dot before it. -/
def bare (name : List Char) : List Char :=
  if stem name = name then name else stem name ++ ['.']

/-- The path with another extension; the empty one takes the extension away. The letters of the old
one go first, and where two dots are left the path leads to the directory above, which has no
extension. -/
def withExtension (path extension : String) : String :=
  let cs := path.toList
  let name := lastName cs
  let folder := cs.take (cs.length - name.length)
  let suffix := if extension = "" then [] else '.' :: extension.toList
  String.ofList (folder ++ if bare name = ['.', '.'] then ['.', '.'] else stem name ++ suffix)

example : withExtension "sub.d/a.b.ch" "c" = "sub.d/a.b.c" := by decide +kernel

example : withExtension "noext" "c" = "noext.c" := by decide +kernel

example : withExtension "sub/.ch" "c" = "sub/.ch.c" := by decide +kernel

example : withExtension "a." "" = "a" := by decide +kernel

example : withExtension "sub/..ch" "c" = "sub/.." := by decide +kernel

example : withExtension "...c" "" = ".." := by decide +kernel

end Chalk.Path
