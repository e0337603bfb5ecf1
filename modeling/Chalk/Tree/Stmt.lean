import Chalk.Tree.Expr

/-!
Statements. Like expressions they carry notes: lines in a tree that was read from a source, nothing
in a tree that was checked. A program is a list of statements.
-/

namespace Chalk

/-- A named place for a value. -/
structure Variable where
  name : String
  ty : Ty
  mutable : Bool
deriving DecidableEq, Repr, Inhabited

/-- A function as its callers see it. -/
structure Signature where
  name : String
  params : List (String × Ty)
  returns : Ty
deriving DecidableEq, Repr, Inhabited

inductive Stmt (ε σ : Type) where
  | declare (target : Variable) (value : Expr ε) (note : σ)
  | assign (target : String) (value : Expr ε) (note : σ)
  | branch (condition : Expr ε) (thenBody elseBody : List (Stmt ε σ)) (note : σ)
  | loop (condition : Expr ε) (body : List (Stmt ε σ)) (note : σ)
  | function (signature : Signature) (body : List (Stmt ε σ)) (note : σ)
  | ret (value : Option (Expr ε)) (note : σ)
  | print (values : List (Expr ε)) (note : σ)
  | expr (value : Expr ε) (note : σ)
deriving Repr, Inhabited

/-- A statement with the lines of its nodes. -/
abbrev ParsedStmt := Stmt Line Line

/-- A statement with the types of its expressions. -/
abbrev TypedStmt := Stmt Ty Unit

namespace Stmt

/-- The note of the topmost node. -/
def note {ε σ : Type} : Stmt ε σ → σ
  | declare _ _ note | assign _ _ note | branch _ _ _ note | loop _ _ note | function _ _ note
  | ret _ note | print _ note | expr _ note => note

/-- Whether a statement defines a function. -/
def isFunction {ε σ : Type} : Stmt ε σ → Bool
  | function .. => true
  | _ => false

mutual

/-- The same statement with each note replaced. -/
def map {ε σ ε' σ' : Type} (f : ε → ε') (g : σ → σ') : Stmt ε σ → Stmt ε' σ'
  | declare target value note => declare target (value.map f) (g note)
  | assign target value note => assign target (value.map f) (g note)
  | branch condition thenBody elseBody note =>
    branch (condition.map f) (mapList f g thenBody) (mapList f g elseBody) (g note)
  | loop condition body note => loop (condition.map f) (mapList f g body) (g note)
  | function signature body note => function signature (mapList f g body) (g note)
  | ret value note => ret (value.map (Expr.map f)) (g note)
  | print values note => print (values.map (Expr.map f)) (g note)
  | expr value note => expr (value.map f) (g note)

/-- `map` on a list of statements. -/
def mapList {ε σ ε' σ' : Type} (f : ε → ε') (g : σ → σ') : List (Stmt ε σ) → List (Stmt ε' σ')
  | [] => []
  | s :: rest => s.map f g :: mapList f g rest

end

theorem mapList_eq {ε σ ε' σ' : Type} (f : ε → ε') (g : σ → σ') (body : List (Stmt ε σ)) :
    mapList f g body = body.map (map f g) := by
  induction body with
  | nil => rfl
  | cons s rest ih => simp [mapList, ih]

end Stmt

end Chalk
