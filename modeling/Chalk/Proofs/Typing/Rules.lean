import Chalk.Tree.Stmt

/-!
# The rules of the type system

The rules are stated over an environment that is never changed: a declaration gives the statements
behind it an environment with one more name, and what a block declares is gone behind it since the
statements there are checked in the environment from before it. `Typed Γ e ty e'` says that the
expression `e` has the type `ty` and that `e'` is the same expression with the types of its nodes;
`WellTyped ρ Γ ss ts` says the like of the statements of a block, where `ρ` is the result type of
the innermost function around them.
-/

namespace Chalk

/-- What a name means to the rules. -/
inductive Binding where
  | var (ty : Ty) (mutable : Bool)
  | fn (params : List Ty) (returns : Ty)

/-- What each visible name means. -/
def Env : Type :=
  String → Option Binding

namespace Env

def empty : Env := fun _ => none

def bind (Γ : Env) (x : String) (b : Binding) : Env := fun y =>
  if y = x then some b else Γ y

def bindFunction (Γ : Env) (f : Signature) : Env :=
  Γ.bind f.name (.fn (f.params.map Prod.snd) f.returns)

/-- Parameters are variables that cannot be assigned to. Of two with one name the second counts. -/
def bindParams (Γ : Env) (ps : List (String × Ty)) : Env :=
  ps.foldl (fun Γ p => Γ.bind p.1 (.var p.2 false)) Γ

end Env

mutual

/-- The type of an expression, and the expression with the types of its nodes. -/
inductive Typed (Γ : Env) : ParsedExpr → Ty → TypedExpr → Prop
  | number {v : Number} {line : Line} : Typed Γ (.number v line) v.ty (.number v v.ty)
  | string {bytes : List UInt8} {line : Line} :
      Typed Γ (.string bytes line) .string (.string bytes .string)
  | bool {b : Bool} {line : Line} : Typed Γ (.bool b line) .bool (.bool b .bool)
  | var {x : String} {ty : Ty} {m : Bool} {line : Line} (name : Γ x = some (.var ty m)) :
      Typed Γ (.var x line) ty (.var x ty)
  | negate {e : ParsedExpr} {e' : TypedExpr} {ty : Ty} {line : Line} (operand : Typed Γ e ty e')
      (numeric : ty = .int ∨ ty = .float) : Typed Γ (.negate e line) ty (.negate e' ty)
  | comparison {op : Operator} {l r : ParsedExpr} {l' r' : TypedExpr} {ty : Ty} {line : Line}
      (compares : op.isComparison = true) (left : Typed Γ l ty l') (right : Typed Γ r ty r') :
      Typed Γ (.binary op l r line) .bool (.binary op l' r' .bool)
  | arithmetic {op : Operator} {l r : ParsedExpr} {l' r' : TypedExpr} {ty : Ty} {line : Line}
      (computes : op.isComparison = false) (left : Typed Γ l ty l') (right : Typed Γ r ty r') :
      Typed Γ (.binary op l r line) ty (.binary op l' r' ty)
  | call {f : String} {es : List ParsedExpr} {es' : List TypedExpr} {params : List Ty} {ty : Ty}
      {line : Line} (name : Γ f = some (.fn params ty)) (arguments : TypedAll Γ es params es') :
      Typed Γ (.call f es line) ty (.call f es' ty)

/-- The types of expressions, one by one. -/
inductive TypedAll (Γ : Env) : List ParsedExpr → List Ty → List TypedExpr → Prop
  | nil : TypedAll Γ [] [] []
  | cons {e : ParsedExpr} {ty : Ty} {e' : TypedExpr} {es : List ParsedExpr} {tys : List Ty}
      {es' : List TypedExpr} (first : Typed Γ e ty e') (rest : TypedAll Γ es tys es') :
      TypedAll Γ (e :: es) (ty :: tys) (e' :: es')

end

/-- The statements of a block that obey the rules, with the types of their expressions. -/
inductive WellTyped : Option Ty → Env → List ParsedStmt → List TypedStmt → Prop
  | nil {ρ : Option Ty} {Γ : Env} : WellTyped ρ Γ [] []
  | declare {ρ : Option Ty} {Γ : Env} {v : Variable} {e : ParsedExpr} {e' : TypedExpr} {line : Line}
      {ss : List ParsedStmt} {ts : List TypedStmt} (value : Typed Γ e v.ty e')
      (rest : WellTyped ρ (Γ.bind v.name (.var v.ty v.mutable)) ss ts) :
      WellTyped ρ Γ (.declare v e line :: ss) (.declare v e' () :: ts)
  | assign {ρ : Option Ty} {Γ : Env} {x : String} {ty : Ty} {e : ParsedExpr} {e' : TypedExpr}
      {line : Line} {ss : List ParsedStmt} {ts : List TypedStmt}
      (target : Γ x = some (.var ty true)) (value : Typed Γ e ty e') (rest : WellTyped ρ Γ ss ts) :
      WellTyped ρ Γ (.assign x e line :: ss) (.assign x e' () :: ts)
  | branch {ρ : Option Ty} {Γ : Env} {e : ParsedExpr} {e' : TypedExpr} {ty : Ty}
      {a b ss : List ParsedStmt} {a' b' ts : List TypedStmt} {line : Line}
      (condition : Typed Γ e ty e') (thenBody : WellTyped ρ Γ a a') (elseBody : WellTyped ρ Γ b b')
      (rest : WellTyped ρ Γ ss ts) :
      WellTyped ρ Γ (.branch e a b line :: ss) (.branch e' a' b' () :: ts)
  | loop {ρ : Option Ty} {Γ : Env} {e : ParsedExpr} {e' : TypedExpr} {ty : Ty}
      {a ss : List ParsedStmt} {a' ts : List TypedStmt} {line : Line} (condition : Typed Γ e ty e')
      (body : WellTyped ρ Γ a a') (rest : WellTyped ρ Γ ss ts) :
      WellTyped ρ Γ (.loop e a line :: ss) (.loop e' a' () :: ts)
  | function {ρ : Option Ty} {Γ : Env} {f : Signature} {a ss : List ParsedStmt}
      {a' ts : List TypedStmt} {line : Line}
      (body : WellTyped (some f.returns) ((Γ.bindFunction f).bindParams f.params) a a')
      (rest : WellTyped ρ (Γ.bindFunction f) ss ts) :
      WellTyped ρ Γ (.function f a line :: ss) (.function f a' () :: ts)
  | retSome {ρ : Option Ty} {Γ : Env} {ty : Ty} {e : ParsedExpr} {e' : TypedExpr} {line : Line}
      {ss : List ParsedStmt} {ts : List TypedStmt} (inside : ρ = some ty) (value : Typed Γ e ty e')
      (rest : WellTyped ρ Γ ss ts) :
      WellTyped ρ Γ (.ret (some e) line :: ss) (.ret (some e') () :: ts)
  | retNone {ρ : Option Ty} {Γ : Env} {line : Line} {ss : List ParsedStmt} {ts : List TypedStmt}
      (inside : ρ = some .void) (rest : WellTyped ρ Γ ss ts) :
      WellTyped ρ Γ (.ret none line :: ss) (.ret none () :: ts)
  | print {ρ : Option Ty} {Γ : Env} {es : List ParsedExpr} {es' : List TypedExpr} {tys : List Ty}
      {line : Line} {ss : List ParsedStmt} {ts : List TypedStmt} (values : TypedAll Γ es tys es')
      (rest : WellTyped ρ Γ ss ts) : WellTyped ρ Γ (.print es line :: ss) (.print es' () :: ts)
  | expr {ρ : Option Ty} {Γ : Env} {e : ParsedExpr} {e' : TypedExpr} {ty : Ty} {line : Line}
      {ss : List ParsedStmt} {ts : List TypedStmt} (value : Typed Γ e ty e')
      (rest : WellTyped ρ Γ ss ts) : WellTyped ρ Γ (.expr e line :: ss) (.expr e' () :: ts)

/-! ## Forgetting notes -/

mutual

theorem Typed.erase {Γ : Env} {e : ParsedExpr} {ty : Ty} {e' : TypedExpr} :
    Typed Γ e ty e' → e'.map (fun _ => ()) = e.map (fun _ => ())
  | .number | .string | .bool | .var _ => rfl
  | .negate operand _ => by rw [Expr.map, Expr.map, operand.erase]
  | .comparison _ left right | .arithmetic _ left right => by
    rw [Expr.map, Expr.map, left.erase, right.erase]
  | .call _ arguments => by rw [Expr.map, Expr.map, arguments.erase]

theorem TypedAll.erase {Γ : Env} {es : List ParsedExpr} {tys : List Ty} {es' : List TypedExpr} :
    TypedAll Γ es tys es' → Expr.mapList (fun _ => ()) es' = Expr.mapList (fun _ => ()) es
  | .nil => rfl
  | .cons first rest => by rw [Expr.mapList, Expr.mapList, first.erase, rest.erase]

end

theorem TypedAll.length_eq {Γ : Env} {es : List ParsedExpr} {tys : List Ty} {es' : List TypedExpr}
    (h : TypedAll Γ es tys es') : es.length = tys.length := by
  induction es generalizing tys es' with
  | nil =>
    cases h
    rfl
  | cons e es ih =>
    cases h with
    | cons _ rest => rw [List.length_cons, List.length_cons, ih rest]

/-- What obeys the rules is the same program with the types of its expressions. -/
theorem WellTyped.erase {ρ : Option Ty} {Γ : Env} {ss : List ParsedStmt} {ts : List TypedStmt}
    (h : WellTyped ρ Γ ss ts) :
    Stmt.mapList (fun _ => ()) (fun _ => ()) ts = Stmt.mapList (fun _ => ()) (fun _ => ()) ss := by
  induction h with
  | nil => rfl
  | declare value _ ih | assign _ value _ ih | expr value _ ih =>
    simp only [Stmt.mapList, Stmt.map, value.erase, ih]
  | branch condition _ _ _ iha ihb ih =>
    simp only [Stmt.mapList, Stmt.map, condition.erase, iha, ihb, ih]
  | loop condition _ _ iha ih => simp only [Stmt.mapList, Stmt.map, condition.erase, iha, ih]
  | function _ _ iha ih => simp only [Stmt.mapList, Stmt.map, iha, ih]
  | retSome _ value _ ih => simp only [Stmt.mapList, Stmt.map, Option.map_some, value.erase, ih]
  | retNone _ _ ih => simp only [Stmt.mapList, Stmt.map, Option.map_none, ih]
  | print values _ ih =>
    simp only [Stmt.mapList, Stmt.map, ← Expr.mapList_eq, values.erase, ih]

end Chalk
