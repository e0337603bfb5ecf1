import Chalk.Command.Path
import Chalk.Text.Utf8

/-!
Files in directories. A place is given by the names on the way down to it from the root. One file
can stand at several places, and a link leads on to where its own path leads. Paths begin at the
root or in the working directory and are walked name by name, so each name on the way has to be a
directory, also where a later pair of dots leads out of it again.
-/

namespace Chalk

/-- Why a file cannot be read, written or started. -/
inductive FileError where
  | notFound
  | notADirectory
  | isADirectory
  | nameTooLong
  | tooManyLinks
  /-- The bytes of the file are no UTF-8 text. -/
  | notText
  | other (description : String)
deriving DecidableEq, Repr, Inhabited

namespace FileError

def message : FileError → String
  | notFound => "No such file or directory (os error 2)"
  | notADirectory => "Not a directory (os error 20)"
  | isADirectory => "Is a directory (os error 21)"
  | nameTooLong => "File name too long (os error 36)"
  | tooManyLinks => "Too many levels of symbolic links (os error 40)"
  | notText => "stream did not contain valid UTF-8"
  | other description => description

end FileError

namespace FileTree

/-- The names on the way down from the root. -/
abbrev Place := List String

/-- What is kept under a place. -/
inductive Entry where
  | file (bytes : List UInt8)
  | directory
  /-- A device that is empty whatever is written to it. -/
  | device
  /-- A link to a path. -/
  | link (path : String)
  /-- The file that is kept under another place. -/
  | same (place : Place)
deriving DecidableEq, Repr, Inhabited

/-- What stands at a place. -/
inductive Node where
  | file (bytes : List UInt8)
  | directory
  | device
  | link (path : String)
  | nothing
deriving DecidableEq, Repr, Inhabited

end FileTree

/-- Files and directories by their places, and the working directory. The root is always there. -/
structure FileTree where
  entries : List (FileTree.Place × FileTree.Entry)
  current : FileTree.Place
deriving DecidableEq, Repr, Inhabited

namespace FileTree

/-- The place under which the file at a place is kept. -/
def owner (t : FileTree) (place : Place) : Place :=
  match t.entries.lookup place with
  | some (.same kept) => kept
  | _ => place

def node (t : FileTree) (place : Place) : Node :=
  if place = [] then .directory
  else
    match t.entries.lookup (t.owner place) with
    | some (.file bytes) => .file bytes
    | some .directory => .directory
    | some .device => .device
    | some (.link path) => .link path
    | some (.same _) | none => .nothing

/-- The most bytes in the name of a file or directory. -/
def longestName : Nat :=
  255

/-- The most bytes in a path. -/
def longestPath : Nat :=
  4095

/-- The most links on the way of one path. -/
def mostLinks : Nat :=
  40

/-- The place one name further on. -/
def enter (t : FileTree) (place : Place) (name : String) : Except FileError Place :=
  match t.node place with
  | .directory =>
    if name = "" ∨ name = "." then .ok place
    else if longestName < Text.utf8Length name.toList then .error .nameTooLong
    else if name = ".." then .ok place.dropLast
    else .ok (place ++ [name])
  | .nothing => .error .notFound
  | _ => .error .notADirectory

/-- Where a path begins that is written in a directory. -/
def origin (path : String) (directory : Place) : Place :=
  if path.toList.head? = some '/' then [] else directory

/-- The place to which names lead, where `onLink` goes on from a link: it is given the directory of
the link, its path, and the names behind it. -/
def through (t : FileTree) (onLink : Place → String → List String → Except FileError Place)
    (place : Place) : List String → Except FileError Place
  | [] => .ok place
  | name :: rest => do
    let next ← t.enter place name
    match t.node next with
    | .link path => onLink place path rest
    | _ => t.through onLink next rest

/-- The place to which names lead, over at most so many links. -/
def follow (t : FileTree) : Nat → Place → List String → Except FileError Place
  | 0 => t.through fun _ _ _ => .error .tooManyLinks
  | links + 1 => t.through fun directory path rest =>
    t.follow links (origin path directory) (Path.names path ++ rest)

/-- The place to which names lead on from the start of a path. -/
def walk (t : FileTree) (path : String) (names : List String) : Except FileError Place :=
  if longestPath < Text.utf8Length path.toList then .error .nameTooLong
  else t.follow mostLinks (origin path t.current) names

/-- The bytes of the file at a path. -/
def read (t : FileTree) (path : String) : Except FileError (List UInt8) := do
  match t.node (← t.walk path (Path.names path)) with
  | .file bytes => .ok bytes
  | .device => .ok []
  | .directory => .error .isADirectory
  | .link _ | .nothing => .error .notFound

/-- The place at which a path can be written. What is above the file has to be there, and the file
itself must not be a directory or be called one. -/
def target (t : FileTree) (path : String) : Except FileError Place := do
  let name := Path.fileName path
  if name = "" ∨ name = "." ∨ name = ".." then
    let names := ((Path.names path).reverse.dropWhile (· == "")).reverse
    let _ ← t.enter (← t.walk path names.dropLast) "."
    .error .isADirectory
  else
    let place ← t.walk path (Path.names path)
    match t.node place with
    | .file _ | .device => .ok place
    | .nothing => if t.owner place = place then .ok place else .error .notFound
    | .directory => .error .isADirectory
    | .link _ => .error .notFound

/-- The tree with a file of the given bytes. -/
def insert (t : FileTree) (place : Place) (bytes : List UInt8) : FileTree :=
  if (t.entries.lookup place).isSome then
    { t with
      entries := t.entries.map fun (p, old) => if p = place then (p, .file bytes) else (p, old) }
  else { t with entries := t.entries ++ [(place, .file bytes)] }

/-- Writes the file at a path. A device takes all that is written to it and is as it was. -/
def write (t : FileTree) (path : String) (bytes : List UInt8) : Except FileError FileTree := do
  let place ← t.target path
  match t.node place with
  | .device => .ok t
  | _ => .ok (t.insert (t.owner place) bytes)

end FileTree

end Chalk
