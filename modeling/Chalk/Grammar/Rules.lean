import Chalk.Grammar.Parser
import Chalk.Grammar.Table
import Chalk.Token.Escape

/-!
The rules of the grammar. A rule reads the parts of what it reads by the parsers in `Parts`, so no
rule calls itself; tying the knot is left to the module on programs. A rule that is started directly
does not look at its first token unless it says so.
-/

namespace Chalk

/-- The parsers by which rules read what is nested in them, and by which lists go on. -/
structure Parts where
  /-- An expression whose operators hold it together more tightly than the given power. -/
  expr : Power → Parser ParsedExpr
  /-- What goes on with an expression that was read already. -/
  tail : Power → ParsedExpr → Parser ParsedExpr
  /-- Arguments, up to and including the closing parenthesis. -/
  arguments : Parser (List ParsedExpr)
  /-- Parameters, up to and including the closing parenthesis. -/
  params : Parser (List (String × Ty))
  stmt : Parser ParsedStmt
  /-- A conditional statement, from its keyword on. -/
  branch : Parser ParsedStmt
  /-- Statements, up to and including the closing brace. -/
  body : Parser (List ParsedStmt)
  /-- Statements, up to the end of the text. -/
  program : Parser (List ParsedStmt)

namespace Parts

open Chalk.Parser

/-! ## Expressions -/

/-- A literal or a name. -/
def primaryRule : Parser ParsedExpr := do
  let t ← advance
  let line := some t.line
  match t.kind with
  | .number =>
    match Number.read? t.value with
    | some value => pure (.number value line)
    | none => failAt t (.unreadableNumber t.value)
  | .identifier => pure (.var t.value line)
  | .string => pure (.string (unescape t.value.toList) line)
  | .keyword .trueKw => pure (.bool true line)
  | .keyword .falseKw => pure (.bool false line)
  | _ => failAt t (.unexpected t.value)

/-- A minus and its operand. -/
def negationRule (parts : Parts) : Parser ParsedExpr := do
  let t ← advance
  let operand ← parts.expr .unary
  pure (.negate operand (some t.line))

/-- An expression in parentheses. -/
def groupRule (parts : Parts) : Parser ParsedExpr := do
  let _ ← advance
  let inside ← parts.expr .default
  let _ ← expectHere (.sign .closeParen) "expected ')' to close the group"
  pure inside

def headRule (parts : Parts) : HeadRule → Parser ParsedExpr
  | .primary => primaryRule
  | .negation => parts.negationRule
  | .group => parts.groupRule

/-- An operator and its right operand. The operand is held together more tightly than the operator,
so operators of one power group from the left. -/
def binaryRule (parts : Parts) (left : ParsedExpr) (power : Power) : Parser ParsedExpr := do
  let t ← advance
  match Operator.ofKind? t.kind with
  | none => failAt t (.unexpected t.value)
  | some operator =>
    let right ← parts.expr power
    pure (.binary operator left right left.note)

/-- The arguments of a call. Only a name can be called. -/
def callRule (parts : Parts) : ParsedExpr → Parser ParsedExpr
  | .var callee line => do
    let _ ← advance
    let arguments ← parts.arguments
    pure (.call callee arguments line)
  | _ => unexpectedHere "only named functions can be called"

def tailRule (parts : Parts) (left : ParsedExpr) (power : Power) : TailRule → Parser ParsedExpr
  | .binary => parts.binaryRule left power
  | .call => parts.callRule left

/-- An expression: its head, and what goes on with it. -/
def exprRule (parts : Parts) (g : Grammar) (power : Power) : Parser ParsedExpr := do
  match g.head (← kind) with
  | none => unexpected
  | some rule =>
    let left ← parts.headRule rule
    parts.tail power left

/-- Goes on with an expression while what follows binds more tightly than the given power. -/
def tailsRule (parts : Parts) (g : Grammar) (power : Power) (left : ParsedExpr) :
    Parser ParsedExpr := do
  match g.tail (← kind) with
  | none => pure left
  | some (p, rule) =>
    if power < p then
      let left ← parts.tailRule left p rule
      parts.tail power left
    else pure left

/-- Arguments with commas between them; one may follow the last. -/
def argumentsRule (parts : Parts) : Parser (List ParsedExpr) := do
  if (← kind) = .sign .closeParen then
    let _ ← advance
    pure []
  else
    let first ← parts.expr .default
    if (← kind) ≠ .sign .closeParen then
      let _ ← expectHere (.sign .comma) "expected ',' between arguments"
    let rest ← parts.arguments
    pure (first :: rest)

/-! ## Statements -/

/-- Parameters with commas between them; one may follow the last. -/
def paramsRule (parts : Parts) : Parser (List (String × Ty)) := do
  if (← kind) = .sign .closeParen then
    let _ ← advance
    pure []
  else
    let name ← expectHere .identifier "expected a parameter name"
    let _ ← expectHere (.sign .colon) "expected ':' and a parameter type"
    let ty ← Parser.ty
    if (← kind) ≠ .sign .closeParen then
      let _ ← expectHere (.sign .comma) "expected ',' between parameters"
    let rest ← parts.params
    pure ((name.value, ty) :: rest)

/-- Statements up to the closing brace. -/
def bodyRule (parts : Parts) : Parser (List ParsedStmt) := do
  match ← kind with
  | .sign .closeCurly =>
    let _ ← advance
    pure []
  | .eof => unexpectedHere "expected '\x7d' to close the block"
  | _ =>
    let first ← parts.stmt
    let rest ← parts.body
    pure (first :: rest)

/-- Statements in braces. -/
def blockRule (parts : Parts) : Parser (List ParsedStmt) := do
  let _ ← expectHere (.sign .openCurly) "expected '\x7b' to open a block"
  parts.body

/-- A declaration of a variable; the first token says whether it can be assigned to. -/
def declarationRule (parts : Parts) : Parser ParsedStmt := do
  let t ← advance
  let name ← expectHere .identifier "expected identifier during variable declaration"
  let _ ← expectHere (.sign .colon) "expected ':' and a type after the variable name"
  let ty ← Parser.ty
  let _ ← expectHere (.sign .assignment) "expected '=' and an initial value"
  let value ← parts.expr .default
  let _ ← expect (.sign .semicolon)
  let target := { name := name.value, ty, mutable := t.kind = .keyword .mutKw }
  pure (.declare target value (some t.line))

def assignmentRule (parts : Parts) : Parser ParsedStmt := do
  let target ← expect .identifier
  let _ ← expect (.sign .assignment)
  let value ← parts.expr .default
  let _ ← expect (.sign .semicolon)
  pure (.assign target.value value (some target.line))

/-- What stands behind a conditional body: nothing, another conditional statement, or a body. -/
def elseRule (parts : Parts) : Parser (List ParsedStmt) := do
  if (← kind) = .keyword .elseKw then
    let _ ← advance
    if (← kind) = .keyword .ifKw then
      let other ← parts.branch
      pure [other]
    else parts.blockRule
  else pure []

def branchRule (parts : Parts) : Parser ParsedStmt := do
  let t ← advance
  let condition ← parts.expr .default
  let thenBody ← parts.blockRule
  let elseBody ← parts.elseRule
  pure (.branch condition thenBody elseBody (some t.line))

def loopRule (parts : Parts) : Parser ParsedStmt := do
  let t ← advance
  let condition ← parts.expr .default
  let body ← parts.blockRule
  pure (.loop condition body (some t.line))

/-- The result type of a function; none is written when there is no result. -/
def returnsRule : Parser Ty := do
  if (← kind) = .sign .arrow then
    let _ ← advance
    Parser.ty
  else pure .void

def functionRule (parts : Parts) : Parser ParsedStmt := do
  let t ← advance
  let name ← expectHere .identifier "expected a function name"
  let _ ← expect (.sign .openParen)
  let params ← parts.params
  let returns ← returnsRule
  let body ← parts.blockRule
  pure (.function { name := name.value, params, returns } body (some t.line))

def retRule (parts : Parts) : Parser ParsedStmt := do
  let t ← advance
  if (← kind) = .sign .semicolon then
    let _ ← advance
    pure (.ret none (some t.line))
  else
    let value ← parts.expr .default
    let _ ← expect (.sign .semicolon)
    pure (.ret (some value) (some t.line))

def printRule (parts : Parts) : Parser ParsedStmt := do
  let t ← advance
  let _ ← expectHere (.sign .openParen) "expected '(' after print"
  if (← kind) = .sign .closeParen then unexpectedHere "print expects at least one value"
  else
    let values ← parts.arguments
    let _ ← expect (.sign .semicolon)
    pure (.print values (some t.line))

/-- An expression as a statement. -/
def exprStmtRule (parts : Parts) : Parser ParsedStmt := do
  let line ← line
  let value ← parts.expr .default
  let _ ← expect (.sign .semicolon)
  pure (.expr value line)

def stmtRule (parts : Parts) : StmtRule → Parser ParsedStmt
  | .any => parts.stmt
  | .declaration => parts.declarationRule
  | .assignment => parts.assignmentRule
  | .branch => parts.branchRule
  | .loop => parts.loopRule
  | .function => parts.functionRule
  | .ret => parts.retRule
  | .print => parts.printRule

/-- A statement: by the rule for its first token, or else an assignment if a name and an equals sign
begin it, or else an expression. -/
def anyStmtRule (parts : Parts) (g : Grammar) : Parser ParsedStmt := do
  let first ← kind
  match g.stmt first with
  | some rule => parts.stmtRule rule
  | none =>
    if first = .identifier ∧ (← nextKind) = .sign .assignment then parts.assignmentRule
    else parts.exprStmtRule

/-- Statements up to the end of the text. -/
def programRule (parts : Parts) : Parser (List ParsedStmt) := do
  if (← kind) = .eof then pure []
  else
    let first ← parts.stmt
    let rest ← parts.program
    pure (first :: rest)

end Parts

end Chalk
