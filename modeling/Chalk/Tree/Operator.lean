import Chalk.Token.Kind

/-!
The operators that stand between two operands.
-/

namespace Chalk

inductive Operator where
  | add | subtract | multiply | divide
  | equals | notEquals | less | greater | lessEquals | greaterEquals
deriving DecidableEq, Repr, Inhabited

namespace Operator

/-- How an operator is written, in the source and in C. -/
def symbol : Operator → String
  | add => "+"
  | subtract => "-"
  | multiply => "*"
  | divide => "/"
  | equals => "=="
  | notEquals => "!="
  | less => "<"
  | greater => ">"
  | lessEquals => "<="
  | greaterEquals => ">="

/-- Whether an operator gives a truth value. -/
def isComparison : Operator → Bool
  | add | subtract | multiply | divide => false
  | equals | notEquals | less | greater | lessEquals | greaterEquals => true

/-- The operator that a token of the given kind is. -/
def ofKind? : Token.Kind → Option Operator
  | .sign .plus => some add
  | .sign .dash => some subtract
  | .sign .star => some multiply
  | .sign .slash => some divide
  | .sign .equals => some equals
  | .sign .notEquals => some notEquals
  | .sign .less => some less
  | .sign .greater => some greater
  | .sign .lessEquals => some lessEquals
  | .sign .greaterEquals => some greaterEquals
  | _ => none

def all : List Operator :=
  [add, subtract, multiply, divide, equals, notEquals, less, greater, lessEquals, greaterEquals]

/-- The operator written in the given way. -/
def ofSymbol? (symbol : String) : Option Operator :=
  all.find? (·.symbol == symbol)

end Operator

end Chalk
