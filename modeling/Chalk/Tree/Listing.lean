import Chalk.Text.Quoted
import Chalk.Tree.Outline
import Chalk.Tree.Stmt

/-!
Listings of programs: every node with its parts and its line, as an outline.
-/

namespace Chalk

open Outline

def Ty.outline : Ty → Outline
  | .int => atom "Int"
  | .float => atom "Float"
  | .string => atom "String"
  | .bool => atom "Bool"
  | .void => atom "Void"

def Operator.outline : Operator → Outline
  | .add => atom "Add"
  | .subtract => atom "Subtract"
  | .multiply => atom "Multiply"
  | .divide => atom "Divide"
  | .equals => atom "Equals"
  | .notEquals => atom "NotEquals"
  | .less => atom "Less"
  | .greater => atom "Greater"
  | .lessEquals => atom "LessEquals"
  | .greaterEquals => atom "GreaterEquals"

def Number.outline : Number → Outline
  | n@(.int _) => tuple "Int" [atom n.text]
  | n@(.float _) => tuple "Float" [atom n.text]

namespace Outline

def ofText (text : String) : Outline :=
  atom (Text.quoted text)

def ofBool (value : Bool) : Outline :=
  atom (if value then "true" else "false")

def ofOption : Option Outline → Outline
  | none => atom "None"
  | some o => tuple "Some" [o]

def ofLine (line : Line) : Outline :=
  ofOption (line.map fun n => atom n.toNat.repr)

/-- A node: its sort, and a record of its parts and its line. -/
def node (sort recordName : String) (parts : List (String × Outline)) (line : Line) : Outline :=
  tuple sort [record recordName (parts ++ [("line", ofLine line)])]

end Outline

namespace Expr

mutual

def outline : ParsedExpr → Outline
  | number value line => node "Number" "NumberExpr" [("value", value.outline)] line
  | string bytes line =>
    node "String" "StringExpr" [("value", list (bytes.map fun b => atom b.toNat.repr))] line
  | bool value line => node "Bool" "BoolExpr" [("value", ofBool value)] line
  | var name line => node "Symbol" "SymbolExpr" [("value", ofText name)] line
  | negate operand line =>
    node "Prefix" "PrefixExpr"
      [("operator", atom "Negate"), ("right_expr", operand.outline)] line
  | binary operator left right line =>
    node "Binary" "BinaryExpr"
      [("left", left.outline), ("operator", operator.outline), ("right", right.outline)] line
  | call callee arguments line =>
    node "Call" "CallExpr"
      [("callee", ofText callee), ("arguments", list (outlines arguments))] line

def outlines : List ParsedExpr → List Outline
  | [] => []
  | e :: es => e.outline :: outlines es

end

end Expr

namespace Stmt

mutual

def outline : ParsedStmt → Outline
  | declare target value line =>
    node "VarDecl" "VarDeclStmt"
      [("identifier", ofText target.name), ("explicit_type", target.ty.outline),
        ("assigned_value", value.outline), ("is_mutable", ofBool target.mutable)] line
  | assign target value line =>
    node "Assign" "AssignStmt" [("identifier", ofText target), ("value", value.outline)] line
  | branch condition thenBody elseBody line =>
    node "If" "IfStmt"
      [("condition", condition.outline), ("then_body", list (outlines thenBody)),
        ("else_body", list (outlines elseBody))] line
  | loop condition body line =>
    node "While" "WhileStmt"
      [("condition", condition.outline), ("body", list (outlines body))] line
  | function signature body line =>
    let params := signature.params.map fun (name, ty) => tuple "" [ofText name, ty.outline]
    node "FnDecl" "FnDeclStmt"
      [("identifier", ofText signature.name), ("parameters", list params),
        ("return_type", signature.returns.outline), ("body", list (outlines body))] line
  | ret value line =>
    node "Return" "ReturnStmt" [("value", ofOption (value.map Expr.outline))] line
  | print values line =>
    node "Print" "PrintStmt" [("values", list (values.map Expr.outline))] line
  | expr value line =>
    node "Expression" "ExpressionStmt" [("expression", value.outline)] line

def outlines : List ParsedStmt → List Outline
  | [] => []
  | s :: rest => s.outline :: outlines rest

end

end Stmt

/-- The listing of a program. -/
def listing (program : List ParsedStmt) : String :=
  (record "Program" [("statements", list (Stmt.outlines program))]).text

end Chalk
