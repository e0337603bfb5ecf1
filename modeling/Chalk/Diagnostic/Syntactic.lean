import Chalk.Source.Position
import Chalk.Text.Quoted

/-!
What can be wrong with the form of a program: a character that starts no token, a token that cannot
stand where it stands, a number out of range, or a name that is no type.
-/

namespace Chalk

namespace SyntaxError

/-- What is wrong. Each cause carries the text of the token at fault. -/
inductive Cause where
  /-- A character that starts no token. -/
  | unrecognised (token : String)
  /-- A token that cannot stand here. -/
  | unexpected (token : String)
  /-- A token that cannot stand here, with a note on what was wanted. -/
  | unexpectedHere (token wanted : String)
  /-- A number whose value cannot be held. -/
  | unreadableNumber (token : String)
  /-- A name that is no type. -/
  | unknownType (name : String)
deriving DecidableEq, Repr, Inhabited

namespace Cause

/-- The name under which a cause is reported. -/
def name : Cause → String
  | unrecognised _ => "UnrecognisedToken"
  | unexpected _ => "UnexpectedToken"
  | unexpectedHere _ _ => "UnexpectedTokenDetailed"
  | unreadableNumber _ => "NumberParseError"
  | unknownType _ => "UnknownType"

def message : Cause → String
  | unrecognised token => "unrecognised token: " ++ Text.quoted token
  | unexpected token => "unexpected token: " ++ Text.quoted token
  | unexpectedHere token wanted => "unexpected token (" ++ wanted ++ "): " ++ Text.quoted token
  | unreadableNumber token => "error parsing number: " ++ Text.quoted token
  | unknownType name => "unknown type '" ++ name ++ "'"

/-- Advice to the writer of the program. -/
def tip? : Cause → Option String
  | unrecognised _ => none
  | unexpected token => some ("Unexpected token: `" ++ token ++ "`, did you miss a semicolon?")
  | unexpectedHere token wanted => some ("Unexpected token: `" ++ token ++ "`, " ++ wanted)
  | unreadableNumber token =>
    some ("Invalid number: `" ++ token ++ "`, is it above the integer limit?")
  | unknownType name =>
    some ("Unknown type `" ++ name ++ "`, expected one of int, float, string, bool, void")

end Cause

end SyntaxError

/-- A fault of form, and the place where it shows. -/
structure SyntaxError where
  cause : SyntaxError.Cause
  position : Position
deriving DecidableEq, Repr, Inhabited

end Chalk
