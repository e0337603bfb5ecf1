import Chalk.C.Expr
import Chalk.Tree.Stmt

/-!
Statements in C, as lines of text. A line is indented by four spaces for each block around it, an
empty line by none.
-/

namespace Chalk

namespace C

/-- A line inside the given number of blocks. -/
def indented (depth : Nat) (line : String) : String :=
  if line = "" then "" else String.ofList (List.replicate (4 * depth) ' ') ++ line

/-- The head of a function. -/
def head (f : Signature) : String :=
  let params := f.params.map fun (name, ty) => ty.cName ++ " " ++ name
  f.returns.cName ++ " " ++ f.name ++ "(" ++ ", ".intercalate params ++ ")"

end C

namespace Stmt

open C

mutual

/-- The lines of a statement inside the given number of blocks. -/
def cLines (depth : Nat) : TypedStmt → List String
  | declare target value _ =>
    let qualifier := if target.mutable then "" else "const "
    [indented depth
      (qualifier ++ target.ty.cName ++ " " ++ target.name ++ " = " ++ value.cText ++ ";")]
  | assign target value _ => [indented depth (target ++ " = " ++ value.cText ++ ";")]
  | branch condition thenBody elseBody _ =>
    let otherwise :=
      match elseBody with
      | [] => []
      | _ => indented depth "\x7d else \x7b" :: cBody (depth + 1) elseBody
    indented depth ("if (" ++ condition.cText ++ ") \x7b") :: cBody (depth + 1) thenBody ++
      otherwise ++ [indented depth "\x7d"]
  | loop condition body _ =>
    indented depth ("while (" ++ condition.cText ++ ") \x7b") :: cBody (depth + 1) body ++
      [indented depth "\x7d"]
  | function signature body _ =>
    indented depth (head signature ++ " \x7b") :: cBody (depth + 1) body ++
      [indented depth "\x7d", indented depth ""]
  | ret (some value) _ => [indented depth ("return " ++ value.cText ++ ";")]
  | ret none _ => [indented depth "return;"]
  | print values _ => [indented depth (Expr.cPrint values)]
  | expr value _ => [indented depth (value.cText ++ ";")]

/-- The lines of statements inside the given number of blocks. -/
def cBody (depth : Nat) : List TypedStmt → List String
  | [] => []
  | s :: rest => cLines depth s ++ cBody depth rest

end

theorem cBody_eq (depth : Nat) (body : List TypedStmt) :
    cBody depth body = body.flatMap (cLines depth) := by
  induction body with
  | nil => rfl
  | cons s rest ih => simp [cBody, ih]

end Stmt

end Chalk
