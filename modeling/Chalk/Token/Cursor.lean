import Chalk.Text.Lines
import Chalk.Text.Utf8
import Chalk.Token.Basic

/-!
A cursor is a place in a source text together with what is still to be read there. It counts bytes
and lines without bound; the positions it gives are 32-bit words.
-/

namespace Chalk

structure Cursor where
  rest : List Char
  offset : Nat
  line : Nat
  file : String
deriving DecidableEq, Repr, Inhabited

namespace Cursor

/-- The cursor before the first character of a text. -/
def ofText (source : String) (file : String) : Cursor :=
  { rest := source.toList, offset := 0, line := 1, file }

def atEnd (c : Cursor) : Bool :=
  c.rest.isEmpty

/-- The character under the cursor; the null character at the end. -/
def char (c : Cursor) : Char :=
  c.rest.headD '\x00'

/-- What is still to be read. -/
def remainder (c : Cursor) : String :=
  String.ofList c.rest

def position (c : Cursor) : Position :=
  { offset := .ofNat c.offset, line := .ofNat c.line, file := c.file }

/-- The stretch of the next `n` bytes, taken to lie on one line. -/
def span (c : Cursor) (n : Nat) : Span :=
  { start := c.position, stop := { c.position with offset := .ofNat (c.offset + n) } }

/-- The cursor after a text has been read and `rest` is left. -/
def after (c : Cursor) (text rest : List Char) : Cursor :=
  { c with
    rest
    offset := c.offset + Text.utf8Length text
    line := c.line + Text.newlines text }

/-- The cursor `n` bytes further on, or at the end when there are fewer. It cannot stop inside a
character. -/
def advance? (c : Cursor) (n : Nat) : Option Cursor :=
  (Text.splitAtByte? n c.rest).map fun (text, rest) => c.after text rest

end Cursor

end Chalk
