import Chalk.Typing.Expr

/-!
Checking statements. A checker works on a context, the open scopes and the function whose body is
being checked, and leaves a context behind whether or not it finds a fault. A declaration is visible
after itself, a function also in its own body, and what a block defines is gone after it.
-/

namespace Chalk

/-- What is known where a statement stands. -/
structure Context where
  scopes : Scopes
  /-- The innermost function around the statement. -/
  function : Option Signature
deriving DecidableEq, Repr, Inhabited

namespace Context

/-- Nothing is defined, and there is no function around. -/
def empty : Context :=
  { scopes := .empty, function := none }

def define (c : Context) (name : String) (entry : Entry) : Context :=
  { c with scopes := c.scopes.define name entry }

end Context

/-- A check that uses and changes a context. -/
def Checker (α : Type) : Type :=
  Context → Except SemanticError α × Context

namespace Checker

variable {α β : Type}

/-- Runs a check and, if it found no fault, the one that its value gives. -/
def andThen (p : Checker α) (f : α → Checker β) : Checker β := fun c =>
  match p c with
  | (.ok a, c) => f a c
  | (.error e, c) => (.error e, c)

instance : Monad Checker where
  pure a := fun c => (.ok a, c)
  bind := andThen

theorem pure_apply (a : α) (c : Context) : (pure a : Checker α) c = (.ok a, c) := rfl

theorem bind_apply (p : Checker α) (f : α → Checker β) (c : Context) :
    (p >>= f) c =
      match p c with
      | (.ok a, c) => f a c
      | (.error e, c) => (.error e, c) := rfl

def fault (cause : SemanticError.Cause) (line : Line) : Checker α := fun c =>
  (.error { cause, line }, c)

/-- A check that only looks at the scopes. -/
def look (f : Scopes → Except SemanticError α) : Checker α := fun c =>
  (f c.scopes, c)

/-- The function around the statement. -/
def enclosing : Checker (Option Signature) := fun c =>
  (.ok c.function, c)

def define (name : String) (entry : Entry) : Checker Unit := fun c =>
  (.ok (), c.define name entry)

/-- Runs a check in a scope of its own. -/
def block (p : Checker α) : Checker α := fun c =>
  let (result, c') := p { c with scopes := c.scopes.push }
  (result, { c' with scopes := c'.scopes.pop })

/-- Runs a check in the body of a function. -/
def inside (f : Signature) (p : Checker α) : Checker α := fun c =>
  let (result, c') := p { c with function := some f }
  (result, { c' with function := c.function })

/-- Defines parameters, which cannot be assigned to. -/
def defineParams : List (String × Ty) → Checker Unit
  | [] => pure ()
  | (name, ty) :: rest => do
    define name (.var { name, ty, mutable := false })
    defineParams rest

end Checker

namespace Stmt

open Checker

/-- A declaration: the value is checked before the name is defined. -/
def checkDeclare (target : Variable) (value : ParsedExpr) (line : Line) : Checker TypedStmt := do
  let value ← look value.check
  if value.note = target.ty then
    define target.name (.var target)
    pure (declare target value ())
  else fault (.declarationMismatch target.name target.ty value.note) line

/-- An assignment: the target is checked before the value. -/
def checkAssign (name : String) (value : ParsedExpr) (line : Line) : Checker TypedStmt := do
  let target ← look (·.findVariable name line)
  if target.mutable then
    let value ← look value.check
    if value.note = target.ty then pure (assign name value ())
    else fault (.assignmentMismatch target.name target.ty value.note) line
  else fault (.immutableAssignment target.name target.ty) line

/-- A return: the value has the result type of the function around it, and only a function without a
result returns none. -/
def checkRet (value : Option ParsedExpr) (line : Line) : Checker TypedStmt := do
  match ← enclosing with
  | none => fault .returnOutsideFunction line
  | some f =>
    match value with
    | some value =>
      let value ← look value.check
      if value.note = f.returns then pure (ret (some value) ())
      else fault (.returnMismatch f.name f.returns value.note) line
    | none =>
      if f.returns = .void then pure (ret none ())
      else fault (.missingReturnValue f.name f.returns) line

mutual

/-- The statement with the types of its expressions. -/
def check : ParsedStmt → Checker TypedStmt
  | declare target value line => checkDeclare target value line
  | assign target value line => checkAssign target value line
  | branch condition thenBody elseBody _ => do
    let condition ← look condition.check
    let thenBody ← block (checkAll thenBody)
    let elseBody ← block (checkAll elseBody)
    pure (branch condition thenBody elseBody ())
  | loop condition body _ => do
    let condition ← look condition.check
    let body ← block (checkAll body)
    pure (loop condition body ())
  | function signature body _ => do
    define signature.name (.fn signature)
    let body ← inside signature <| block do
      defineParams signature.params
      checkAll body
    pure (function signature body ())
  | ret value line => checkRet value line
  | print values _ => do
    let values ← look (Expr.checkAll · values)
    pure (print values ())
  | expr value _ => do
    let value ← look value.check
    pure (expr value ())

/-- The statements with the types of their expressions, up to the first fault. -/
def checkAll : List ParsedStmt → Checker (List TypedStmt)
  | [] => pure []
  | s :: rest => do
    let s ← check s
    let rest ← checkAll rest
    pure (s :: rest)

end

end Stmt

/-- The program with the types of its expressions. -/
def typeCheck (program : List ParsedStmt) : Except SemanticError (List TypedStmt) :=
  (Stmt.checkAll program .empty).1

end Chalk
