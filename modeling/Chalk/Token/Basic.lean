import Chalk.Source.Position
import Chalk.Token.Kind

/-!
Tokens: a kind, a text and the stretch of the source it was cut from. The text of a string token is
what stands between its quotes, with its escapes as written.
-/

namespace Chalk

structure Token where
  kind : Token.Kind
  value : String
  span : Span
deriving DecidableEq, Repr, Inhabited

namespace Token

/-- The line on which a token begins. -/
def line (t : Token) : UInt32 :=
  t.span.start.line

/-- The token that ends a list of tokens, at the given place. -/
def endAt (place : Position) : Token :=
  { kind := .eof, value := "EOF", span := ⟨place, place⟩ }

/-- A token as listings show it. -/
def listing (t : Token) : String :=
  "Token \x7b\nkind: " ++ t.kind.name ++ ",\nvalue: " ++ t.value ++ "\x7d"

end Token

end Chalk
