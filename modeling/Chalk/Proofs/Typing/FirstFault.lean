import Chalk.Proofs.Typing.Blame
import Chalk.Proofs.Typing.Traversal
import Mathlib.Logic.Relation

/-!
# The fault that is reported is the first

A program is refused with a fault if and only if the traversal comes, with everything before in
order, to a node that violates the rule which the fault names (`typeCheck_eq_error_iff_violates`).
One step of the traversal is enough for both directions: a node is at fault if one of its parts is,
when the part is entered (`Site.Enters.fails`), and a node at fault either violates a rule itself or
has a part that is entered and at fault (`Node.Fails.traces`).
-/

namespace Chalk

open Checker

/-! ## Sites and contexts -/

/-- The check of a node finds a fault. -/
def Node.Fails (c : Context) (err : SemanticError) : Node → Prop
  | expr e => e.check c.scopes = .error err
  | stmt s => Blames s.check c err
  | block ss => Blames (Stmt.checkAll ss) c err

/-- The context holds what is known where the function around and the environment are these. -/
structure Context.Stands (c : Context) (ρ : Option Signature) (Γ : Env) : Prop where
  function : c.function = ρ
  env : c.scopes.env = Γ
  named : c.scopes.Named

namespace Context.Stands

variable {c : Context} {ρ : Option Signature} {Γ : Env}

theorem enter (h : c.Stands ρ Γ) : c.enter.Stands ρ Γ :=
  ⟨h.function, h.env, h.named⟩

theorem define (h : c.Stands ρ Γ) (entry : Entry) :
    (c.define entry.name entry).Stands ρ (Γ.bind entry.name entry.binding) := by
  refine ⟨h.function, ?_, h.named.define entry⟩
  rw [Context.define, Scopes.env_define, h.env]

theorem enterFunction (h : c.Stands ρ Γ) (f : Signature) :
    (c.enterFunction f).Stands (some f) (Γ.bindParams f.params) := by
  have hnamed := Scopes.Named.defineParams { c.enter with function := some f } h.named f.params
  obtain ⟨c', happly, hfunction, henv⟩ :=
    Stmt.defineParams_apply f.params { c.enter with function := some f }
  rw [happly] at hnamed
  rw [Context.enterFunction, happly]
  refine ⟨hfunction, henv.trans ?_, hnamed⟩
  exact congrArg (·.bindParams f.params) h.env

theorem behind (h : c.Stands ρ Γ) (s : ParsedStmt) :
    (c.extend s.definition?).Stands ρ (Γ.behind s) := by
  cases s with
  | declare v e line => exact h.define (.var v)
  | function f a line => exact h.define (.fn f)
  | _ => exact h

theorem returns_eq (h : c.Stands ρ Γ) : c.returns = ρ.map (·.returns) := by
  rw [Context.returns, h.function]

end Context.Stands

/-! ## One step -/

/-- A node that violates a rule is at fault, for the cause that names the rule. -/
theorem Site.Violates.fails {S : Site} {cause : SemanticError.Cause} (h : S.Violates cause)
    {c : Context} (hc : c.Stands S.function S.env) : S.node.Fails c ⟨cause, S.node.line⟩ := by
  obtain ⟨ρ, Γ, n⟩ := S
  obtain ⟨hfunction, henv, hnamed⟩ := hc
  dsimp only at hfunction henv
  subst henv
  cases h with
  | undefinedVariable name => exact Expr.var_error_iff.2 (.inl ⟨name, rfl⟩)
  | notAVariable name => exact Expr.var_error_iff.2 (.inr ⟨_, _, name, rfl⟩)
  | invalidNegation operand int float =>
    exact Expr.negate_error_iff.2 (.inr ⟨_, _, operand, not_or.2 ⟨int, float⟩, rfl⟩)
  | comparisonMismatch compares left right differ =>
    refine Expr.binary_error_iff.2 (.inr ⟨_, _, left, .inr ⟨_, _, right, differ, ?_⟩⟩)
    rw [Operator.mismatch, if_pos compares]
    rfl
  | arithmeticMismatch computes left right differ =>
    refine Expr.binary_error_iff.2 (.inr ⟨_, _, left, .inr ⟨_, _, right, differ, ?_⟩⟩)
    rw [Operator.mismatch, if_neg (Bool.eq_false_iff.1 computes)]
    rfl
  | undefinedFunction name => exact (Expr.call_error_iff hnamed).2 (.inl ⟨name, rfl⟩)
  | notAFunction name => exact (Expr.call_error_iff hnamed).2 (.inr (.inl ⟨_, _, name, rfl⟩))
  | argumentCountMismatch callee differ =>
    exact (Expr.call_error_iff hnamed).2 (.inr (.inr (.inl ⟨_, _, callee, differ, rfl⟩)))
  | argumentMismatch callee count before argument differ =>
    exact (Expr.call_error_iff hnamed).2 (.inr (.inr (.inr ⟨_, _, _, _, _, _, _, _, rfl, callee,
      count, before, .inr ⟨_, _, argument, differ, rfl⟩⟩)))
  | declarationMismatch value differ =>
    exact Stmt.blames_declare.2 (.inr ⟨_, _, value, differ, rfl⟩)
  | undefinedTarget name => exact (Stmt.blames_assign hnamed).2 (.inl (.inl ⟨name, rfl⟩))
  | targetNotAVariable name =>
    exact (Stmt.blames_assign hnamed).2 (.inl (.inr ⟨_, _, name, rfl⟩))
  | immutableAssignment target =>
    exact (Stmt.blames_assign hnamed).2 (.inr (.inl ⟨_, target, rfl⟩))
  | assignmentMismatch target value differ =>
    exact (Stmt.blames_assign hnamed).2
      (.inr (.inr ⟨_, target, .inr ⟨_, _, value, differ, rfl⟩⟩))
  | returnOutsideFunction => exact (Stmt.blames_ret_outside hfunction).2 rfl
  | returnMismatch value differ =>
    exact (Stmt.blames_ret_some hfunction).2 (.inr ⟨_, _, value, differ, rfl⟩)
  | missingReturnValue result => exact (Stmt.blames_ret_none hfunction).2 ⟨result, rfl⟩

/-- What a part is at fault for, when it is entered, the whole is at fault for. -/
theorem Site.Enters.fails {S S' : Site} (h : S.Enters S') {c : Context}
    (hc : c.Stands S.function S.env) :
    ∃ c' : Context, c'.Stands S'.function S'.env ∧
      ∀ err, S'.node.Fails c' err → S.node.Fails c err := by
  obtain ⟨ρ, Γ, n⟩ := S
  have hreturns := hc.returns_eq
  obtain rfl : c.scopes.env = Γ := hc.env
  cases h with
  | operand => exact ⟨c, hc, fun err h => Expr.negate_error_iff.2 (.inl h)⟩
  | left => exact ⟨c, hc, fun err h => Expr.binary_error_iff.2 (.inl h)⟩
  | right before =>
    exact ⟨c, hc, fun err h => Expr.binary_error_iff.2 (.inr ⟨_, _, before, .inl h⟩)⟩
  | argument callee count before =>
    exact ⟨c, hc, fun err h => (Expr.call_error_iff hc.named).2 (.inr (.inr (.inr
      ⟨_, _, _, _, _, _, _, _, rfl, callee, count, before, .inl h⟩)))⟩
  | declared => exact ⟨c, hc, fun err h => Stmt.blames_declare.2 (.inl h)⟩
  | assigned target =>
    exact ⟨c, hc, fun err h => (Stmt.blames_assign hc.named).2
      (.inr (.inr ⟨_, target, .inl h⟩))⟩
  | branchCondition => exact ⟨c, hc, fun err h => Stmt.blames_branch.2 (.inl h)⟩
  | thenBody condition =>
    exact ⟨c.enter, hc.enter, fun err h => Stmt.blames_branch.2
      (.inr ⟨_, _, condition, .inl h⟩)⟩
  | elseBody condition before =>
    rw [← hreturns] at before
    exact ⟨c.enter, hc.enter, fun err h => Stmt.blames_branch.2
      (.inr ⟨_, _, condition, .inr ⟨_, before, h⟩⟩)⟩
  | loopCondition => exact ⟨c, hc, fun err h => Stmt.blames_loop.2 (.inl h)⟩
  | loopBody condition =>
    exact ⟨c.enter, hc.enter, fun err h => Stmt.blames_loop.2 (.inr ⟨_, _, condition, h⟩)⟩
  | @functionBody _ _ f =>
    exact ⟨_, (hc.define (.fn f)).enterFunction f, fun err h => Stmt.blames_function.2 h⟩
  | returned => exact ⟨c, hc, fun err h => (Stmt.blames_ret_some hc.function).2 (.inl h)⟩
  | printed before =>
    exact ⟨c, hc, fun err h => Stmt.blames_print.2 (Expr.checkAll_error_iff.2
      ⟨_, _, _, _, _, rfl, before, h⟩)⟩
  | value => exact ⟨c, hc, fun err h => Stmt.blames_expr.2 h⟩
  | first => exact ⟨c, hc, fun err h => Stmt.blames_cons.2 (.inl h)⟩
  | @next _ _ s t =>
    rename_i before
    rw [← hreturns] at before
    exact ⟨_, hc.behind s, fun err h => Stmt.blames_cons.2 (.inr ⟨t, before, h⟩)⟩

/-- The fault of a node is its own, or that of a part which is entered. -/
def Site.Traces (S : Site) (err : SemanticError) : Prop :=
  S.Violates err.cause ∧ S.node.line = err.line ∨
    ∃ (S' : Site) (c' : Context), S.Enters S' ∧ c'.Stands S'.function S'.env ∧
      S'.node.Fails c' err

section

variable {c : Context} {ρ : Option Signature} {err : SemanticError}

theorem traces_expr (hc : c.Stands ρ c.scopes.env) {e : ParsedExpr}
    (h : e.check c.scopes = .error err) : Site.Traces ⟨ρ, c.scopes.env, .expr e⟩ err := by
  cases e with
  | number | string | bool => cases h
  | var x line =>
    rcases Expr.var_error_iff.1 h with ⟨hx, rfl⟩ | ⟨_, _, hx, rfl⟩
    · exact .inl ⟨.undefinedVariable hx, rfl⟩
    · exact .inl ⟨.notAVariable hx, rfl⟩
  | negate e line =>
    rcases Expr.negate_error_iff.1 h with h | ⟨ty, e', he, hnumeric, rfl⟩
    · exact .inr ⟨_, c, .operand, hc, h⟩
    · obtain ⟨hint, hfloat⟩ := not_or.1 hnumeric
      exact .inl ⟨.invalidNegation he hint hfloat, rfl⟩
  | binary op l r line =>
    rcases Expr.binary_error_iff.1 h with h | ⟨lty, l', hl, h | ⟨rty, r', hr, hne, rfl⟩⟩
    · exact .inr ⟨_, c, .left, hc, h⟩
    · exact .inr ⟨_, c, .right hl, hc, h⟩
    · unfold Operator.mismatch
      split
      · next hop => exact .inl ⟨.comparisonMismatch hop hl hr hne, rfl⟩
      · next hop => exact .inl ⟨.arithmeticMismatch (Bool.eq_false_iff.2 hop) hl hr hne, rfl⟩
  | call f es line =>
    rcases (Expr.call_error_iff hc.named).1 h with ⟨hf, rfl⟩ | ⟨_, _, hf, rfl⟩ |
      ⟨tys, ty, hf, hlength, rfl⟩ |
      ⟨as, a, bs, pre, wanted, post, ty, ts, rfl, hf, hbs, has, h | ⟨received, a', ha, hne, rfl⟩⟩
    · exact .inl ⟨.undefinedFunction hf, rfl⟩
    · exact .inl ⟨.notAFunction hf, rfl⟩
    · exact .inl ⟨.argumentCountMismatch hf hlength, rfl⟩
    · exact .inr ⟨_, c, .argument hf hbs has, hc, h⟩
    · exact .inl ⟨.argumentMismatch hf hbs has ha hne, rfl⟩

theorem traces_stmt (hc : c.Stands ρ c.scopes.env) {s : ParsedStmt} (h : Blames s.check c err) :
    Site.Traces ⟨ρ, c.scopes.env, .stmt s⟩ err := by
  cases s with
  | declare v e line =>
    rcases Stmt.blames_declare.1 h with h | ⟨ty, e', he, hne, rfl⟩
    · exact .inr ⟨_, c, .declared, hc, h⟩
    · exact .inl ⟨.declarationMismatch he hne, rfl⟩
  | assign x e line =>
    rcases (Stmt.blames_assign hc.named).1 h with (⟨hx, rfl⟩ | ⟨_, _, hx, rfl⟩) | ⟨ty, hx, rfl⟩ |
      ⟨wanted, hx, h | ⟨ty, e', he, hne, rfl⟩⟩
    · exact .inl ⟨.undefinedTarget hx, rfl⟩
    · exact .inl ⟨.targetNotAVariable hx, rfl⟩
    · exact .inl ⟨.immutableAssignment hx, rfl⟩
    · exact .inr ⟨_, c, .assigned hx, hc, h⟩
    · exact .inl ⟨.assignmentMismatch hx he hne, rfl⟩
  | branch e a b line =>
    rcases Stmt.blames_branch.1 h with h | ⟨ty, e', he, h | ⟨a', hbefore, h⟩⟩
    · exact .inr ⟨_, c, .branchCondition, hc, h⟩
    · exact .inr ⟨_, c.enter, .thenBody he, hc.enter, h⟩
    · rw [hc.returns_eq] at hbefore
      exact .inr ⟨_, c.enter, .elseBody he hbefore, hc.enter, h⟩
  | loop e a line =>
    rcases Stmt.blames_loop.1 h with h | ⟨ty, e', he, h⟩
    · exact .inr ⟨_, c, .loopCondition, hc, h⟩
    · exact .inr ⟨_, c.enter, .loopBody he, hc.enter, h⟩
  | function f a line =>
    exact .inr ⟨_, _, .functionBody, (hc.define (.fn f)).enterFunction f, Stmt.blames_function.1 h⟩
  | ret value line =>
    cases ρ with
    | none =>
      obtain rfl := (Stmt.blames_ret_outside hc.function).1 h
      exact .inl ⟨.returnOutsideFunction, rfl⟩
    | some f =>
      cases value with
      | some e =>
        rcases (Stmt.blames_ret_some hc.function).1 h with h | ⟨ty, e', he, hne, rfl⟩
        · exact .inr ⟨_, c, .returned, hc, h⟩
        · exact .inl ⟨.returnMismatch he hne, rfl⟩
      | none =>
        obtain ⟨hne, rfl⟩ := (Stmt.blames_ret_none hc.function).1 h
        exact .inl ⟨.missingReturnValue hne, rfl⟩
  | print es line =>
    obtain ⟨as, a, bs, tys, ts, rfl, has, h⟩ := Expr.checkAll_error_iff.1 (Stmt.blames_print.1 h)
    exact .inr ⟨_, c, .printed has, hc, h⟩
  | expr e line => exact .inr ⟨_, c, .value, hc, Stmt.blames_expr.1 h⟩

theorem traces_block (hc : c.Stands ρ c.scopes.env) {ss : List ParsedStmt}
    (h : Blames (Stmt.checkAll ss) c err) : Site.Traces ⟨ρ, c.scopes.env, .block ss⟩ err := by
  cases ss with
  | nil => exact absurd h not_blames_pure
  | cons s ss =>
    rcases Stmt.blames_cons.1 h with h | ⟨t, hbefore, h⟩
    · exact .inr ⟨_, c, .first, hc, h⟩
    · rw [hc.returns_eq] at hbefore
      exact .inr ⟨_, _, .next hbefore, hc.behind s, h⟩

end

theorem Node.Fails.traces {S : Site} {c : Context} {err : SemanticError}
    (h : S.node.Fails c err) (hc : c.Stands S.function S.env) : S.Traces err := by
  obtain ⟨ρ, Γ, n⟩ := S
  obtain rfl : c.scopes.env = Γ := hc.env
  cases n with
  | expr e => exact traces_expr hc h
  | stmt s => exact traces_stmt hc h
  | block ss => exact traces_block hc h

/-! ## The whole traversal -/

/-- A node is at fault if and only if a violation is reached from it. -/
theorem Node.fails_iff {S : Site} {c : Context} (hc : c.Stands S.function S.env)
    {err : SemanticError} :
    S.node.Fails c err ↔ ∃ S', Relation.ReflTransGen Site.Enters S S' ∧
      S'.node.line = err.line ∧ S'.Violates err.cause := by
  constructor
  · -- from the whole to its parts, which are smaller
    induction hsize : sizeOf S.node using Nat.strongRecOn generalizing S c with
    | ind n ih =>
      intro h
      subst hsize
      rcases h.traces hc with ⟨hviolates, hline⟩ | ⟨S', c', henters, hc', h'⟩
      · exact ⟨S, .refl, hline, hviolates⟩
      · obtain ⟨S'', hreach, hfault⟩ := ih _ henters.sizeOf_lt hc' rfl h'
        exact ⟨S'', .head henters hreach, hfault⟩
  · -- back along the steps, from the part to the whole
    rintro ⟨S', hreach, hline, hviolates⟩
    induction hreach using Relation.ReflTransGen.head_induction_on generalizing c with
    | refl =>
      have h := hviolates.fails hc
      rwa [hline] at h
    | head henters _ ih =>
      obtain ⟨c', hc', hfails⟩ := henters.fails hc
      exact hfails err (ih hc')

/-- A program is refused with a fault if and only if the traversal comes, having found everything
before in order, to a node on the line of the fault that violates the rule which its cause names. -/
theorem typeCheck_eq_error_iff_violates (p : List ParsedStmt) (err : SemanticError) :
    typeCheck p = .error err ↔
      ∃ S : Site, Relation.ReflTransGen Site.Enters ⟨none, .empty, .block p⟩ S ∧
        S.node.line = err.line ∧ S.Violates err.cause :=
  Node.fails_iff (S := ⟨none, .empty, .block p⟩) (c := .empty) ⟨rfl, rfl, Scopes.named_empty⟩

end Chalk
