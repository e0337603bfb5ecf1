import Chalk.Diagnostic.Semantic
import Chalk.Typing.Scope

/-!
Types of expressions. The types of the operands of an operator agree exactly, and so do the types of
the arguments and the parameters of a call; there are no conversions. The operands are checked from
left to right, after the callee and the number of arguments of a call.
-/

namespace Chalk

namespace Scopes

/-- The variable that a name stands for. -/
def findVariable (s : Scopes) (name : String) (line : Line) : Except SemanticError Variable :=
  match s.lookup? name with
  | some (.var v) => .ok v
  | some (.fn _) => .error { cause := .notAVariable name, line }
  | none => .error { cause := .undefinedVariable name, line }

/-- The function that a name stands for. -/
def findFunction (s : Scopes) (name : String) (line : Line) : Except SemanticError Signature :=
  match s.lookup? name with
  | some (.fn f) => .ok f
  | some (.var _) => .error { cause := .notAFunction name, line }
  | none => .error { cause := .undefinedFunction name, line }

end Scopes

namespace Operator

/-- The type of an operation on two operands of the given types. -/
def resultTy (operator : Operator) (left right : Ty) : Except SemanticError.Cause Ty :=
  if operator.isComparison then
    if left = right then .ok .bool else .error (.comparisonMismatch left right)
  else
    if left = right then .ok left else .error (.arithmeticMismatch operator.symbol left right)

end Operator

namespace Expr

mutual

/-- The expression with the types of its nodes. -/
def check (scopes : Scopes) : ParsedExpr → Except SemanticError TypedExpr
  | number value _ => .ok (number value value.ty)
  | string bytes _ => .ok (string bytes .string)
  | bool value _ => .ok (bool value .bool)
  | var name line => do
    let v ← scopes.findVariable name line
    .ok (var name v.ty)
  | negate operand line => do
    let operand ← operand.check scopes
    if operand.note.isNumeric then .ok (negate operand operand.note)
    else .error { cause := .invalidNegation operand.note, line }
  | binary operator left right line => do
    let left ← left.check scopes
    let right ← right.check scopes
    match operator.resultTy left.note right.note with
    | .ok ty => .ok (binary operator left right ty)
    | .error cause => .error { cause, line }
  | call callee arguments line => do
    let f ← scopes.findFunction callee line
    if arguments.length = f.params.length then
      let arguments ← checkArguments scopes f.name line 1 arguments (f.params.map Prod.snd)
      .ok (call callee arguments f.returns)
    else
      .error
        { cause := .argumentCountMismatch f.name f.params.length arguments.length
          line }

/-- Arguments of a function against the types of its parameters, counted from the given position
on. -/
def checkArguments (scopes : Scopes) (function : String) (line : Line) (position : Nat) :
    List ParsedExpr → List Ty → Except SemanticError (List TypedExpr)
  | argument :: arguments, expected :: types => do
    let argument ← argument.check scopes
    if argument.note = expected then
      let rest ← checkArguments scopes function line (position + 1) arguments types
      .ok (argument :: rest)
    else
      .error { cause := .argumentMismatch function position expected argument.note, line }
  | _, _ => .ok []

end

/-- The expressions with the types of their nodes, up to the first fault. -/
def checkAll (scopes : Scopes) : List ParsedExpr → Except SemanticError (List TypedExpr)
  | [] => .ok []
  | e :: es => do
    let e ← e.check scopes
    let es ← checkAll scopes es
    .ok (e :: es)

end Expr

end Chalk
