import Chalk.Tree.Stmt

/-!
Scopes: what each name stands for, from the innermost open block outwards. A name can be defined
anew, in the same scope or in an inner one; the latest definition in the innermost scope that has
one counts. The outermost scope is never closed.
-/

namespace Chalk

/-- What a name stands for. -/
inductive Entry where
  | var (v : Variable)
  | fn (f : Signature)
deriving DecidableEq, Repr, Inhabited

/-- The definitions of one block, the latest first. -/
abbrev Scope := List (String × Entry)

structure Scopes where
  inner : Scope
  outer : List Scope
deriving DecidableEq, Repr, Inhabited

namespace Scopes

/-- One open scope without definitions. -/
def empty : Scopes :=
  { inner := [], outer := [] }

/-- The number of open scopes. -/
def depth (s : Scopes) : Nat :=
  s.outer.length + 1

/-- Opens a scope. -/
def push (s : Scopes) : Scopes :=
  { inner := [], outer := s.inner :: s.outer }

/-- Closes the innermost scope, unless it is the only one. -/
def pop (s : Scopes) : Scopes :=
  match s.outer with
  | [] => s
  | scope :: outer => { inner := scope, outer }

/-- Defines a name in the innermost scope. -/
def define (s : Scopes) (name : String) (entry : Entry) : Scopes :=
  { s with inner := (name, entry) :: s.inner }

/-- What a name stands for. -/
def lookup? (s : Scopes) (name : String) : Option Entry :=
  (s.inner :: s.outer).findSome? (·.lookup name)

@[simp] theorem pop_push (s : Scopes) : s.push.pop = s := rfl

@[simp] theorem depth_push (s : Scopes) : s.push.depth = s.depth + 1 := rfl

@[simp] theorem depth_define (s : Scopes) (name : String) (entry : Entry) :
    (s.define name entry).depth = s.depth := rfl

@[simp] theorem lookup?_empty (name : String) : empty.lookup? name = none := rfl

@[simp] theorem lookup?_push (s : Scopes) (name : String) : s.push.lookup? name = s.lookup? name :=
  rfl

theorem lookup?_define (s : Scopes) (name other : String) (entry : Entry) :
    (s.define name entry).lookup? other = if other = name then some entry else s.lookup? other := by
  by_cases h : other = name
  · simp [lookup?, define, h]
  · simp [lookup?, define, List.findSome?_cons, List.lookup_cons, beq_eq_false_iff_ne.2 h, h]

end Scopes

end Chalk
