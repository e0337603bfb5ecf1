/-!
Places in a source text. An offset counts the bytes of the UTF-8 form that stand before the place,
and a line number is one more than the number of newlines before it. Both are 32-bit words.
-/

namespace Chalk

/-- A place in a file. -/
structure Position where
  offset : UInt32
  line : UInt32
  file : String
deriving DecidableEq, Repr, Inhabited

namespace Position

/-- The first place of a file. -/
def start (file : String) : Position :=
  { offset := 0, line := 1, file }

/-- The place of something that stands in no file. -/
def nowhere : Position :=
  start "<null>"

end Position

/-- A stretch of a file, from `start` up to but not including `stop`. -/
structure Span where
  start : Position
  stop : Position
deriving DecidableEq, Repr, Inhabited

end Chalk
