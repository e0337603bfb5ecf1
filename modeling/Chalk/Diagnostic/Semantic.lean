import Chalk.Tree.Expr

/-!
What can be wrong with the meaning of a program: each cause names one violated rule and carries the
names and types that show the violation.
-/

namespace Chalk

namespace SemanticError

inductive Cause where
  | undefinedVariable (name : String)
  | undefinedFunction (name : String)
  /-- An assignment to a variable that was declared without leave to change it. -/
  | immutableAssignment (name : String) (ty : Ty)
  /-- An initial value of another type than the declared one. -/
  | declarationMismatch (name : String) (expected received : Ty)
  | assignmentMismatch (name : String) (expected received : Ty)
  | returnOutsideFunction
  | returnMismatch (function : String) (expected received : Ty)
  /-- A bare return from a function that has a result. -/
  | missingReturnValue (function : String) (expected : Ty)
  | invalidNegation (received : Ty)
  | comparisonMismatch (left right : Ty)
  | arithmeticMismatch (symbol : String) (left right : Ty)
  /-- A call of a variable. -/
  | notAFunction (name : String)
  /-- A use of a function as a variable. -/
  | notAVariable (name : String)
  | argumentCountMismatch (function : String) (expected received : Nat)
  /-- An argument of another type than its parameter; positions count from 1. -/
  | argumentMismatch (function : String) (position : Nat) (expected received : Ty)
deriving DecidableEq, Repr, Inhabited

namespace Cause

/-- The name under which a cause is reported. -/
def name : Cause → String
  | undefinedVariable _ => "UndefinedVariable"
  | undefinedFunction _ => "UndefinedFunction"
  | immutableAssignment _ _ => "ImmutableAssignment"
  | declarationMismatch _ _ _ => "DeclarationTypeMismatch"
  | assignmentMismatch _ _ _ => "AssignmentTypeMismatch"
  | returnOutsideFunction => "ReturnOutsideFunction"
  | returnMismatch _ _ _ => "ReturnTypeMismatch"
  | missingReturnValue _ _ => "MissingReturnValue"
  | invalidNegation _ => "InvalidNegation"
  | comparisonMismatch _ _ => "ComparisonTypeMismatch"
  | arithmeticMismatch _ _ _ => "ArithmeticTypeMismatch"
  | notAFunction _ => "NotAFunction"
  | notAVariable _ => "NotAVariable"
  | argumentCountMismatch _ _ _ => "ArgumentCountMismatch"
  | argumentMismatch _ _ _ _ => "ArgumentTypeMismatch"

/-- A name between single quotes. -/
def cited (name : String) : String :=
  "'" ++ name ++ "'"

def message : Cause → String
  | undefinedVariable name => "undefined variable " ++ cited name
  | undefinedFunction name => "undefined function " ++ cited name
  | immutableAssignment name ty =>
    "cannot assign to immutable variable " ++ cited name ++ "\nhint: declare it as " ++
      cited ("mut " ++ name ++ ": " ++ ty.name ++ " = ...")
  | declarationMismatch name expected received =>
    "type mismatch: " ++ cited name ++ " is " ++ cited expected.name ++ " but got " ++
      cited received.name
  | assignmentMismatch name expected received =>
    "type mismatch in assignment to " ++ cited name ++ ": expected " ++ cited expected.name ++
      ", got " ++ cited received.name
  | returnOutsideFunction => "'return' used outside of a function"
  | returnMismatch function expected received =>
    "return type mismatch in " ++ cited function ++ ": expected " ++ cited expected.name ++
      ", got " ++ cited received.name
  | missingReturnValue function expected =>
    "missing return value in " ++ cited function ++ ": expected " ++ cited expected.name
  | invalidNegation received => "unary '-' requires int or float, got " ++ cited received.name
  | comparisonMismatch left right =>
    "cannot compare " ++ cited left.name ++ " and " ++ cited right.name
  | arithmeticMismatch symbol left right =>
    "type mismatch: cannot apply " ++ cited symbol ++ " to " ++ cited left.name ++ " and " ++
      cited right.name
  | notAFunction name => cited name ++ " is a variable, not a function"
  | notAVariable name => cited name ++ " is a function, not a variable"
  | argumentCountMismatch function expected received =>
    cited function ++ " expects " ++ expected.repr ++ " argument(s), got " ++ received.repr
  | argumentMismatch function position expected received =>
    "argument " ++ position.repr ++ " of " ++ cited function ++ ": expected " ++
      cited expected.name ++ ", got " ++ cited received.name

/-- Advice to the writer of the program. -/
def tip? : Cause → Option String
  | returnOutsideFunction => some "move the 'return' into a function body"
  | missingReturnValue function expected =>
    some (cited function ++ " is declared to return " ++ cited expected.name ++
      ", write 'return <value>;'")
  | argumentCountMismatch function expected _ =>
    some (cited function ++ " takes " ++ expected.repr ++ " argument(s)")
  | _ => none

end Cause

end SemanticError

/-- A violated rule, and the line of the node that violates it. -/
structure SemanticError where
  cause : SemanticError.Cause
  line : Line
deriving DecidableEq, Repr, Inhabited

end Chalk
