import Chalk.Tree.Number
import Chalk.Tree.Operator

/-!
Expressions. Each node carries a note: in a tree that was read from a source it is the line on which
the node begins, in a tree that was checked it is the node's type. `Expr.map` changes the notes, so
forgetting them is a map as well.
-/

namespace Chalk

/-- The line on which a node begins, if it comes from a source. -/
abbrev Line := Option UInt32

inductive Expr (ν : Type) where
  | number (value : Number) (note : ν)
  | string (bytes : List UInt8) (note : ν)
  | bool (value : Bool) (note : ν)
  | var (name : String) (note : ν)
  | negate (operand : Expr ν) (note : ν)
  | binary (operator : Operator) (left right : Expr ν) (note : ν)
  | call (callee : String) (arguments : List (Expr ν)) (note : ν)
deriving Repr, Inhabited

/-- An expression with the lines of its nodes. -/
abbrev ParsedExpr := Expr Line

/-- An expression with the types of its nodes. -/
abbrev TypedExpr := Expr Ty

namespace Expr

/-- The note of the topmost node. -/
def note {ν : Type} : Expr ν → ν
  | number _ note | string _ note | bool _ note | var _ note | negate _ note
  | binary _ _ _ note | call _ _ note => note

mutual

/-- The same expression with each note replaced. -/
def map {ν μ : Type} (f : ν → μ) : Expr ν → Expr μ
  | number value note => number value (f note)
  | string bytes note => string bytes (f note)
  | bool value note => bool value (f note)
  | var name note => var name (f note)
  | negate operand note => negate (operand.map f) (f note)
  | binary operator left right note => binary operator (left.map f) (right.map f) (f note)
  | call callee arguments note => call callee (mapList f arguments) (f note)

/-- `map` on a list of expressions. -/
def mapList {ν μ : Type} (f : ν → μ) : List (Expr ν) → List (Expr μ)
  | [] => []
  | e :: es => e.map f :: mapList f es

end

theorem mapList_eq {ν μ : Type} (f : ν → μ) (es : List (Expr ν)) :
    mapList f es = es.map (map f) := by
  induction es with
  | nil => rfl
  | cons e es ih => simp [mapList, ih]

end Expr

end Chalk
