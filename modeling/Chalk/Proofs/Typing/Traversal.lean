import Chalk.Diagnostic.Semantic
import Chalk.Proofs.Typing.Rules

/-!
# Where the rules are violated

A program is checked in a fixed order, and what is checked before a node is known to obey the rules
when the node is looked at. `Site` is a node together with the environment and the function that
lexical scoping gives it. `Site.Enters` leads from a node to each of its parts, on the condition
that everything which is checked before that part obeys the rules; so the sites to which its steps
lead from a program are the nodes that can be at fault first. `Site.Violates` says, for each cause
of a fault, what a node does that the rules forbid. Both are stated over the rules alone.
-/

namespace Chalk

/-- An expression, a statement, or the statements of a block from some place on. -/
inductive Node where
  | expr (e : ParsedExpr)
  | stmt (s : ParsedStmt)
  | block (ss : List ParsedStmt)

/-- The line on which a node begins. The rest of a block is no node of its own and has none. -/
def Node.line : Node → Line
  | expr e => e.note
  | stmt s => s.note
  | block _ => none

/-- A node in the place where it stands. -/
structure Site where
  /-- The innermost function around the node. -/
  function : Option Signature
  env : Env
  node : Node

/-- The environment behind a statement. -/
def Env.behind (Γ : Env) : ParsedStmt → Env
  | .declare v _ _ => Γ.bind v.name (.var v.ty v.mutable)
  | .function f _ _ => Γ.bindFunction f
  | _ => Γ

namespace Site

/-- From a node to a part of it, when all that is checked before the part obeys the rules. -/
inductive Enters : Site → Site → Prop
  | operand {ρ : Option Signature} {Γ : Env} {e : ParsedExpr} {line : Line} :
      Enters ⟨ρ, Γ, .expr (.negate e line)⟩ ⟨ρ, Γ, .expr e⟩
  | left {ρ : Option Signature} {Γ : Env} {op : Operator} {l r : ParsedExpr} {line : Line} :
      Enters ⟨ρ, Γ, .expr (.binary op l r line)⟩ ⟨ρ, Γ, .expr l⟩
  | right {ρ : Option Signature} {Γ : Env} {op : Operator} {l r : ParsedExpr} {l' : TypedExpr}
      {ty : Ty} {line : Line} (before : Typed Γ l ty l') :
      Enters ⟨ρ, Γ, .expr (.binary op l r line)⟩ ⟨ρ, Γ, .expr r⟩
  | argument {ρ : Option Signature} {Γ : Env} {f : String} {es es' : List ParsedExpr}
      {e : ParsedExpr} {ts : List TypedExpr} {tys tys' : List Ty} {ty result : Ty} {line : Line}
      (callee : Γ f = some (.fn (tys ++ ty :: tys') result)) (count : es'.length = tys'.length)
      (before : TypedAll Γ es tys ts) :
      Enters ⟨ρ, Γ, .expr (.call f (es ++ e :: es') line)⟩ ⟨ρ, Γ, .expr e⟩
  | declared {ρ : Option Signature} {Γ : Env} {v : Variable} {e : ParsedExpr} {line : Line} :
      Enters ⟨ρ, Γ, .stmt (.declare v e line)⟩ ⟨ρ, Γ, .expr e⟩
  | assigned {ρ : Option Signature} {Γ : Env} {x : String} {ty : Ty} {e : ParsedExpr} {line : Line}
      (target : Γ x = some (.var ty true)) :
      Enters ⟨ρ, Γ, .stmt (.assign x e line)⟩ ⟨ρ, Γ, .expr e⟩
  | branchCondition {ρ : Option Signature} {Γ : Env} {e : ParsedExpr} {a b : List ParsedStmt}
      {line : Line} : Enters ⟨ρ, Γ, .stmt (.branch e a b line)⟩ ⟨ρ, Γ, .expr e⟩
  | thenBody {ρ : Option Signature} {Γ : Env} {e : ParsedExpr} {e' : TypedExpr} {ty : Ty}
      {a b : List ParsedStmt} {line : Line} (condition : Typed Γ e ty e') :
      Enters ⟨ρ, Γ, .stmt (.branch e a b line)⟩ ⟨ρ, Γ, .block a⟩
  | elseBody {ρ : Option Signature} {Γ : Env} {e : ParsedExpr} {e' : TypedExpr} {ty : Ty}
      {a b : List ParsedStmt} {a' : List TypedStmt} {line : Line} (condition : Typed Γ e ty e')
      (before : WellTyped (ρ.map (·.returns)) Γ a a') :
      Enters ⟨ρ, Γ, .stmt (.branch e a b line)⟩ ⟨ρ, Γ, .block b⟩
  | loopCondition {ρ : Option Signature} {Γ : Env} {e : ParsedExpr} {a : List ParsedStmt}
      {line : Line} : Enters ⟨ρ, Γ, .stmt (.loop e a line)⟩ ⟨ρ, Γ, .expr e⟩
  | loopBody {ρ : Option Signature} {Γ : Env} {e : ParsedExpr} {e' : TypedExpr} {ty : Ty}
      {a : List ParsedStmt} {line : Line} (condition : Typed Γ e ty e') :
      Enters ⟨ρ, Γ, .stmt (.loop e a line)⟩ ⟨ρ, Γ, .block a⟩
  | functionBody {ρ : Option Signature} {Γ : Env} {f : Signature} {a : List ParsedStmt}
      {line : Line} :
      Enters ⟨ρ, Γ, .stmt (.function f a line)⟩
        ⟨some f, (Γ.bindFunction f).bindParams f.params, .block a⟩
  | returned {f : Signature} {Γ : Env} {e : ParsedExpr} {line : Line} :
      Enters ⟨some f, Γ, .stmt (.ret (some e) line)⟩ ⟨some f, Γ, .expr e⟩
  | printed {ρ : Option Signature} {Γ : Env} {es es' : List ParsedExpr} {e : ParsedExpr}
      {ts : List TypedExpr} {tys : List Ty} {line : Line} (before : TypedAll Γ es tys ts) :
      Enters ⟨ρ, Γ, .stmt (.print (es ++ e :: es') line)⟩ ⟨ρ, Γ, .expr e⟩
  | value {ρ : Option Signature} {Γ : Env} {e : ParsedExpr} {line : Line} :
      Enters ⟨ρ, Γ, .stmt (.expr e line)⟩ ⟨ρ, Γ, .expr e⟩
  | first {ρ : Option Signature} {Γ : Env} {s : ParsedStmt} {ss : List ParsedStmt} :
      Enters ⟨ρ, Γ, .block (s :: ss)⟩ ⟨ρ, Γ, .stmt s⟩
  | next {ρ : Option Signature} {Γ : Env} {s : ParsedStmt} {t : TypedStmt} {ss : List ParsedStmt}
      (before : WellTyped (ρ.map (·.returns)) Γ [s] [t]) :
      Enters ⟨ρ, Γ, .block (s :: ss)⟩ ⟨ρ, Γ.behind s, .block ss⟩

/-- A node that violates a rule although all that is checked before obeys it. -/
inductive Violates : Site → SemanticError.Cause → Prop
  | undefinedVariable {ρ : Option Signature} {Γ : Env} {x : String} {line : Line}
      (name : Γ x = none) : Violates ⟨ρ, Γ, .expr (.var x line)⟩ (.undefinedVariable x)
  | notAVariable {ρ : Option Signature} {Γ : Env} {x : String} {tys : List Ty} {ty : Ty}
      {line : Line} (name : Γ x = some (.fn tys ty)) :
      Violates ⟨ρ, Γ, .expr (.var x line)⟩ (.notAVariable x)
  | invalidNegation {ρ : Option Signature} {Γ : Env} {e : ParsedExpr} {e' : TypedExpr} {ty : Ty}
      {line : Line} (operand : Typed Γ e ty e') (int : ty ≠ .int) (float : ty ≠ .float) :
      Violates ⟨ρ, Γ, .expr (.negate e line)⟩ (.invalidNegation ty)
  | comparisonMismatch {ρ : Option Signature} {Γ : Env} {op : Operator} {l r : ParsedExpr}
      {l' r' : TypedExpr} {lty rty : Ty} {line : Line} (compares : op.isComparison = true)
      (left : Typed Γ l lty l') (right : Typed Γ r rty r') (differ : lty ≠ rty) :
      Violates ⟨ρ, Γ, .expr (.binary op l r line)⟩ (.comparisonMismatch lty rty)
  | arithmeticMismatch {ρ : Option Signature} {Γ : Env} {op : Operator} {l r : ParsedExpr}
      {l' r' : TypedExpr} {lty rty : Ty} {line : Line} (computes : op.isComparison = false)
      (left : Typed Γ l lty l') (right : Typed Γ r rty r') (differ : lty ≠ rty) :
      Violates ⟨ρ, Γ, .expr (.binary op l r line)⟩ (.arithmeticMismatch op.symbol lty rty)
  | undefinedFunction {ρ : Option Signature} {Γ : Env} {f : String} {es : List ParsedExpr}
      {line : Line} (name : Γ f = none) :
      Violates ⟨ρ, Γ, .expr (.call f es line)⟩ (.undefinedFunction f)
  | notAFunction {ρ : Option Signature} {Γ : Env} {f : String} {es : List ParsedExpr} {ty : Ty}
      {m : Bool} {line : Line} (name : Γ f = some (.var ty m)) :
      Violates ⟨ρ, Γ, .expr (.call f es line)⟩ (.notAFunction f)
  | argumentCountMismatch {ρ : Option Signature} {Γ : Env} {f : String} {es : List ParsedExpr}
      {tys : List Ty} {result : Ty} {line : Line} (callee : Γ f = some (.fn tys result))
      (differ : es.length ≠ tys.length) :
      Violates ⟨ρ, Γ, .expr (.call f es line)⟩ (.argumentCountMismatch f tys.length es.length)
  | argumentMismatch {ρ : Option Signature} {Γ : Env} {f : String} {es es' : List ParsedExpr}
      {e : ParsedExpr} {e' : TypedExpr} {ts : List TypedExpr} {tys tys' : List Ty}
      {expected received result : Ty} {line : Line}
      (callee : Γ f = some (.fn (tys ++ expected :: tys') result))
      (count : es'.length = tys'.length) (before : TypedAll Γ es tys ts)
      (argument : Typed Γ e received e') (differ : received ≠ expected) :
      Violates ⟨ρ, Γ, .expr (.call f (es ++ e :: es') line)⟩
        (.argumentMismatch f (es.length + 1) expected received)
  | declarationMismatch {ρ : Option Signature} {Γ : Env} {v : Variable} {e : ParsedExpr}
      {e' : TypedExpr} {ty : Ty} {line : Line} (value : Typed Γ e ty e') (differ : ty ≠ v.ty) :
      Violates ⟨ρ, Γ, .stmt (.declare v e line)⟩ (.declarationMismatch v.name v.ty ty)
  | undefinedTarget {ρ : Option Signature} {Γ : Env} {x : String} {e : ParsedExpr} {line : Line}
      (name : Γ x = none) : Violates ⟨ρ, Γ, .stmt (.assign x e line)⟩ (.undefinedVariable x)
  | targetNotAVariable {ρ : Option Signature} {Γ : Env} {x : String} {e : ParsedExpr}
      {tys : List Ty} {ty : Ty} {line : Line} (name : Γ x = some (.fn tys ty)) :
      Violates ⟨ρ, Γ, .stmt (.assign x e line)⟩ (.notAVariable x)
  | immutableAssignment {ρ : Option Signature} {Γ : Env} {x : String} {e : ParsedExpr} {ty : Ty}
      {line : Line} (target : Γ x = some (.var ty false)) :
      Violates ⟨ρ, Γ, .stmt (.assign x e line)⟩ (.immutableAssignment x ty)
  | assignmentMismatch {ρ : Option Signature} {Γ : Env} {x : String} {e : ParsedExpr}
      {e' : TypedExpr} {expected received : Ty} {line : Line}
      (target : Γ x = some (.var expected true)) (value : Typed Γ e received e')
      (differ : received ≠ expected) :
      Violates ⟨ρ, Γ, .stmt (.assign x e line)⟩ (.assignmentMismatch x expected received)
  | returnOutsideFunction {Γ : Env} {value : Option ParsedExpr} {line : Line} :
      Violates ⟨none, Γ, .stmt (.ret value line)⟩ .returnOutsideFunction
  | returnMismatch {f : Signature} {Γ : Env} {e : ParsedExpr} {e' : TypedExpr} {ty : Ty}
      {line : Line} (value : Typed Γ e ty e') (differ : ty ≠ f.returns) :
      Violates ⟨some f, Γ, .stmt (.ret (some e) line)⟩ (.returnMismatch f.name f.returns ty)
  | missingReturnValue {f : Signature} {Γ : Env} {line : Line} (result : f.returns ≠ .void) :
      Violates ⟨some f, Γ, .stmt (.ret none line)⟩ (.missingReturnValue f.name f.returns)

/-- A part is smaller than the whole. -/
theorem Enters.sizeOf_lt {S S' : Site} (h : S.Enters S') : sizeOf S'.node < sizeOf S.node := by
  have hpart : ∀ (es es' : List ParsedExpr) (e : ParsedExpr), sizeOf e < sizeOf (es ++ e :: es') :=
    fun es es' e => List.sizeOf_lt_of_mem (by simp)
  cases h with
  | @argument _ _ _ es es' e =>
    have hlt := hpart es es' e
    simp only [Node.expr.sizeOf_spec, Expr.call.sizeOf_spec]
    omega
  | @printed _ _ es es' e =>
    have hlt := hpart es es' e
    simp only [Node.expr.sizeOf_spec, Node.stmt.sizeOf_spec, Stmt.print.sizeOf_spec]
    omega
  | _ => simp <;> omega

end Site

end Chalk
