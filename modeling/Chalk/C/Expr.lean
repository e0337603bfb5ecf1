import Chalk.C.Literal
import Chalk.C.Ty
import Chalk.Tree.Expr

/-!
Expressions in C. Every operation stands in parentheses, so the text shows the tree without the
operators' precedences.
-/

namespace Chalk.Expr

mutual

/-- The C text of an expression. -/
def cText : TypedExpr → String
  | number value _ => value.text
  | string bytes _ => "\"" ++ String.ofList (C.escape bytes) ++ "\""
  | bool value _ => if value then "1" else "0"
  | var name _ => name
  | negate operand _ => "(-" ++ operand.cText ++ ")"
  | binary operator left right _ =>
    "(" ++ left.cText ++ " " ++ operator.symbol ++ " " ++ right.cText ++ ")"
  | call callee arguments _ => callee ++ "(" ++ ", ".intercalate (cTexts arguments) ++ ")"

/-- The C texts of a list of expressions. -/
def cTexts : List TypedExpr → List String
  | [] => []
  | e :: es => e.cText :: cTexts es

end

theorem cTexts_eq (es : List TypedExpr) : cTexts es = es.map cText := by
  induction es with
  | nil => rfl
  | cons e es ih => simp [cTexts, ih]

/-- The format of a `printf` that prints the given values on one line. -/
def printFormat (values : List TypedExpr) : String :=
  String.join (values.map (·.note.conversion)) ++ "\\n"

/-- The C statement that prints values on one line. -/
def cPrint (values : List TypedExpr) : String :=
  "printf(\"" ++ printFormat values ++ "\", " ++ ", ".intercalate (values.map cText) ++ ");"

end Chalk.Expr
