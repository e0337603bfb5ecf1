import Chalk.Proofs.Typing.Agreement

/-!
# What a check blames

For each form of expression and of statement, the faults that its check can find: those of its
parts, each after the parts before it were found to obey the rules, and its own. The conditions are
stated by the rules of the type system. Faults name variables and functions by the names they were
defined under; in scopes that a program has built these are the names they are looked up by
(`Scopes.Named`).
-/

namespace Chalk

/-! ## Names in scopes -/

/-- The name under which an entry was defined. -/
def Entry.name : Entry → String
  | .var v => v.name
  | .fn f => f.name

namespace Scopes

variable {s : Scopes} {x : String} {line : Line} {err : SemanticError}

/-- Each entry is found by its own name. -/
def Named (s : Scopes) : Prop :=
  ∀ x entry, s.lookup? x = some entry → entry.name = x

theorem named_empty : empty.Named := by
  intro x entry h
  cases h

theorem Named.define (h : s.Named) (entry : Entry) : (s.define entry.name entry).Named := by
  intro x found hfound
  rw [lookup?_define] at hfound
  split at hfound
  · next hx =>
    cases hfound
    exact hx.symm
  · exact h x found hfound

theorem Named.defineParams (c : Context) (h : c.scopes.Named) (ps : List (String × Ty)) :
    (Checker.defineParams ps c).2.scopes.Named := by
  induction ps generalizing c with
  | nil => exact h
  | cons p ps ih => exact ih _ (h.define (.var ⟨p.1, p.2, false⟩))

theorem Named.name_of_findVariable (h : s.Named) {v : Variable}
    (hv : s.findVariable x line = .ok v) : v.name = x := by
  unfold findVariable at hv
  split at hv
  · next hlookup =>
    cases hv
    exact h x _ hlookup
  · cases hv
  · cases hv

theorem Named.name_of_findFunction (h : s.Named) {f : Signature}
    (hf : s.findFunction x line = .ok f) : f.name = x := by
  unfold findFunction at hf
  split at hf
  · next hlookup =>
    cases hf
    exact h x _ hlookup
  · cases hf
  · cases hf

theorem findVariable_error_iff :
    s.findVariable x line = .error err ↔
      s.env x = none ∧ err = ⟨.undefinedVariable x, line⟩ ∨
        ∃ tys ty, s.env x = some (.fn tys ty) ∧ err = ⟨.notAVariable x, line⟩ := by
  rw [findVariable, env]
  cases s.lookup? x with
  | none => simp [eq_comm]
  | some entry => cases entry <;> simp [Entry.binding, eq_comm]

theorem findFunction_error_iff :
    s.findFunction x line = .error err ↔
      s.env x = none ∧ err = ⟨.undefinedFunction x, line⟩ ∨
        ∃ ty m, s.env x = some (.var ty m) ∧ err = ⟨.notAFunction x, line⟩ := by
  rw [findFunction, env]
  cases s.lookup? x with
  | none => simp [eq_comm]
  | some entry => cases entry <;> simp [Entry.binding, eq_comm]

end Scopes

/-! ## Expressions -/

/-- The cause that names operands of different types. -/
def Operator.mismatch (op : Operator) (left right : Ty) : SemanticError.Cause :=
  if op.isComparison then .comparisonMismatch left right
  else .arithmeticMismatch op.symbol left right

theorem Operator.resultTy_of_ne {op : Operator} {l r : Ty} (h : l ≠ r) :
    op.resultTy l r = .error (op.mismatch l r) := by
  rw [resultTy, mismatch, if_neg h, if_neg h]
  split
  · rfl
  · rfl

theorem Operator.resultTy_self (op : Operator) (ty : Ty) :
    op.resultTy ty ty = .ok (if op.isComparison then .bool else ty) := by
  rw [resultTy, if_pos rfl, if_pos rfl]
  split
  · rfl
  · rfl

theorem Typed.note_eq {Γ : Env} {e : ParsedExpr} {ty : Ty} {e' : TypedExpr}
    (h : Typed Γ e ty e') : e'.note = ty := by
  cases h <;> rfl

namespace Expr

variable {s : Scopes} {err : SemanticError} {line : Line} {function : String}

theorem exists_check_iff {e : ParsedExpr} {Q : TypedExpr → Prop} :
    (∃ e', e.check s = .ok e' ∧ Q e') ↔ ∃ ty e', Typed s.env e ty e' ∧ Q e' := by
  constructor
  · rintro ⟨e', he, h⟩
    exact ⟨e'.note, e', (check_iff s e).1 ⟨he, rfl⟩, h⟩
  · rintro ⟨ty, e', he, h⟩
    exact ⟨e', ((check_iff s e).2 he).1, h⟩

/-- A check that goes on with an expression finds a fault in it, or goes on with its type. -/
theorem check_bind_error_iff {β : Type} {e : ParsedExpr} {f : TypedExpr → Except SemanticError β}
    {Q : Ty → Prop} (hf : ∀ e', f e' = .error err ↔ Q e'.note) :
    (e.check s >>= f) = .error err ↔
      e.check s = .error err ∨ ∃ ty e', Typed s.env e ty e' ∧ Q ty := by
  rw [bind_eq_error_iff, exists_check_iff]
  refine or_congr_right (exists_congr fun ty => exists_congr fun e' => and_congr_right fun he => ?_)
  rw [hf, he.note_eq]

theorem var_error_iff {x : String} :
    (Expr.var x line).check s = .error err ↔
      s.env x = none ∧ err = ⟨.undefinedVariable x, line⟩ ∨
        ∃ tys ty, s.env x = some (.fn tys ty) ∧ err = ⟨.notAVariable x, line⟩ := by
  rw [check, bind_eq_error_iff, ← Scopes.findVariable_error_iff]
  simp

theorem negate_error_iff {e : ParsedExpr} :
    (Expr.negate e line).check s = .error err ↔
      e.check s = .error err ∨ ∃ ty e', Typed s.env e ty e' ∧ ¬ (ty = .int ∨ ty = .float) ∧
        err = ⟨.invalidNegation ty, line⟩ := by
  rw [check]
  refine check_bind_error_iff fun e' => ?_
  rw [ite_eq_error_iff, Ty.isNumeric_iff]
  simp

theorem binary_error_iff {op : Operator} {l r : ParsedExpr} :
    (Expr.binary op l r line).check s = .error err ↔
      l.check s = .error err ∨ ∃ lty l', Typed s.env l lty l' ∧
        (r.check s = .error err ∨ ∃ rty r', Typed s.env r rty r' ∧ lty ≠ rty ∧
          err = ⟨op.mismatch lty rty, line⟩) := by
  rw [check]
  refine check_bind_error_iff fun l' => check_bind_error_iff fun r' => ?_
  by_cases hty : l'.note = r'.note
  · rw [hty, Operator.resultTy_self]
    simp
  · rw [Operator.resultTy_of_ne hty]
    simp [hty, eq_comm]

/-- The first of some arguments is at fault, has the wrong type, or is passed. -/
theorem checkArguments_cons_error_iff {e : ParsedExpr} {es : List ParsedExpr} {ty : Ty}
    {tys : List Ty} {position : Nat} :
    checkArguments s function line position (e :: es) (ty :: tys) = .error err ↔
      e.check s = .error err ∨ ∃ received e', Typed s.env e received e' ∧
        (received = ty ∧ checkArguments s function line (position + 1) es tys = .error err ∨
          received ≠ ty ∧ err = ⟨.argumentMismatch function position ty received, line⟩) := by
  rw [checkArguments]
  refine check_bind_error_iff fun e' => ?_
  rw [ite_eq_error_iff, bind_eq_error_iff]
  simp

/-- Arguments are at fault where one is, or has the wrong type, behind some that obey the rules. -/
theorem checkArguments_error_iff {es : List ParsedExpr} {tys : List Ty} {position : Nat}
    (hlength : es.length = tys.length) :
    checkArguments s function line position es tys = .error err ↔
      ∃ as a bs pre ty post ts, es = as ++ a :: bs ∧ tys = pre ++ ty :: post ∧
        TypedAll s.env as pre ts ∧
        (a.check s = .error err ∨ ∃ received a', Typed s.env a received a' ∧ received ≠ ty ∧
          err = ⟨.argumentMismatch function (as.length + position) ty received, line⟩) := by
  have hposition : ∀ (e : ParsedExpr) as position,
      (e :: as).length + position = as.length + (position + 1) := by
    intro e as position
    rw [List.length_cons]
    omega
  constructor
  · intro h
    induction es generalizing tys position with
    | nil =>
      cases tys with
      | nil => cases h
      | cons ty tys => cases hlength
    | cons e es ih =>
      cases tys with
      | nil => cases hlength
      | cons ty tys =>
        rcases checkArguments_cons_error_iff.1 h with
          hfault | ⟨received, e', he, ⟨rfl, hrest⟩ | ⟨hne, rfl⟩⟩
        · exact ⟨[], e, es, [], ty, tys, [], rfl, rfl, .nil, .inl hfault⟩
        · obtain ⟨as, a, bs, pre, ty, post, ts, rfl, rfl, has, hfault⟩ :=
            ih (Nat.succ.inj hlength) hrest
          refine ⟨e :: as, a, bs, received :: pre, ty, post, e' :: ts, rfl, rfl, .cons he has, ?_⟩
          rwa [hposition]
        · refine ⟨[], e, es, [], ty, tys, [], rfl, rfl, .nil, .inr ⟨received, e', he, hne, ?_⟩⟩
          rw [List.length_nil, Nat.zero_add]
  · rintro ⟨as, a, bs, pre, ty, post, ts, rfl, rfl, has, hfault⟩
    clear hlength
    induction as generalizing pre ts position with
    | nil =>
      cases has
      rw [List.length_nil, Nat.zero_add] at hfault
      refine checkArguments_cons_error_iff.2 (hfault.imp_right ?_)
      rintro ⟨received, a', ha, hne, rfl⟩
      exact ⟨received, a', ha, .inr ⟨hne, rfl⟩⟩
    | cons e as ih =>
      rw [hposition] at hfault
      cases has with
      | cons first rest =>
        exact checkArguments_cons_error_iff.2 (.inr ⟨_, _, first, .inl ⟨rfl, ih _ _ rest hfault⟩⟩)

/-- Values are at fault where one is, behind some that obey the rules. -/
theorem checkAll_error_iff {es : List ParsedExpr} :
    checkAll s es = .error err ↔
      ∃ as a bs tys ts, es = as ++ a :: bs ∧ TypedAll s.env as tys ts ∧
        a.check s = .error err := by
  have hcons : ∀ e es, checkAll s (e :: es) = .error err ↔
      e.check s = .error err ∨ ∃ ty e', Typed s.env e ty e' ∧ checkAll s es = .error err := by
    intro e es
    rw [checkAll]
    exact check_bind_error_iff fun e' => by simp [bind_eq_error_iff]
  constructor
  · intro h
    induction es with
    | nil => cases h
    | cons e es ih =>
      rcases (hcons e es).1 h with h | ⟨ty, e', he, h⟩
      · exact ⟨[], e, es, [], [], rfl, .nil, h⟩
      · obtain ⟨as, a, bs, tys, ts, rfl, has, hfault⟩ := ih h
        exact ⟨e :: as, a, bs, ty :: tys, e' :: ts, rfl, .cons he has, hfault⟩
  · rintro ⟨as, a, bs, tys, ts, rfl, has, hfault⟩
    induction as generalizing tys ts with
    | nil => exact (hcons a bs).2 (.inl hfault)
    | cons e as ih =>
      cases has with
      | cons first rest => exact (hcons e _).2 (.inr ⟨_, _, first, ih _ _ rest⟩)

/-- What the check of a call does once the name of its function is found. -/
theorem call_error_iff_arguments (hs : s.Named) {f : String} {es : List ParsedExpr} :
    (Expr.call f es line).check s = .error err ↔
      s.env f = none ∧ err = ⟨.undefinedFunction f, line⟩ ∨
      (∃ ty m, s.env f = some (.var ty m) ∧ err = ⟨.notAFunction f, line⟩) ∨
      ∃ tys ty, s.env f = some (.fn tys ty) ∧
        (es.length = tys.length ∧ checkArguments s f line 1 es tys = .error err ∨
          es.length ≠ tys.length ∧
            err = ⟨.argumentCountMismatch f tys.length es.length, line⟩) := by
  rw [check, bind_eq_error_iff, Scopes.findFunction_error_iff, or_assoc]
  refine or_congr_right (or_congr_right ?_)
  simp only [ite_eq_error_iff, bind_eq_error_iff, reduceCtorEq, and_false, exists_false, or_false]
  constructor
  · rintro ⟨g, hg, h⟩
    obtain rfl := hs.name_of_findFunction hg
    refine ⟨_, _, Scopes.findFunction_iff.1 ⟨g, hg, rfl, rfl⟩, ?_⟩
    rwa [List.length_map]
  · rintro ⟨tys, ty, hf, h⟩
    obtain ⟨g, hg, rfl, rfl⟩ : ∃ g, s.findFunction f line = .ok g ∧
      g.params.map Prod.snd = tys ∧ g.returns = ty := Scopes.findFunction_iff.2 hf
    obtain rfl := hs.name_of_findFunction hg
    rw [List.length_map] at h
    exact ⟨g, hg, h⟩

theorem call_error_iff (hs : s.Named) {f : String} {es : List ParsedExpr} :
    (Expr.call f es line).check s = .error err ↔
      s.env f = none ∧ err = ⟨.undefinedFunction f, line⟩ ∨
      (∃ ty m, s.env f = some (.var ty m) ∧ err = ⟨.notAFunction f, line⟩) ∨
      (∃ tys ty, s.env f = some (.fn tys ty) ∧ es.length ≠ tys.length ∧
        err = ⟨.argumentCountMismatch f tys.length es.length, line⟩) ∨
      ∃ as a bs pre wanted post ty ts, es = as ++ a :: bs ∧
        s.env f = some (.fn (pre ++ wanted :: post) ty) ∧ bs.length = post.length ∧
        TypedAll s.env as pre ts ∧
        (a.check s = .error err ∨ ∃ received a', Typed s.env a received a' ∧
          received ≠ wanted ∧
          err = ⟨.argumentMismatch f (as.length + 1) wanted received, line⟩) := by
  rw [call_error_iff_arguments hs]
  refine or_congr_right (or_congr_right ⟨?_, ?_⟩)
  · rintro ⟨tys, ty, hf, ⟨hlength, h⟩ | ⟨hlength, rfl⟩⟩
    · obtain ⟨as, a, bs, pre, wanted, post, ts, rfl, rfl, has, hfault⟩ :=
        (checkArguments_error_iff hlength).1 h
      have hbs : bs.length = post.length := by
        have hpre := has.length_eq
        simp only [List.length_append, List.length_cons] at hlength
        omega
      exact .inr ⟨as, a, bs, pre, wanted, post, ty, ts, rfl, hf, hbs, has, hfault⟩
    · exact .inl ⟨tys, ty, hf, hlength, rfl⟩
  · rintro (⟨tys, ty, hf, hlength, rfl⟩ |
      ⟨as, a, bs, pre, wanted, post, ty, ts, rfl, hf, hbs, has, hfault⟩)
    · exact ⟨tys, ty, hf, .inr ⟨hlength, rfl⟩⟩
    · have hlength : (as ++ a :: bs).length = (pre ++ wanted :: post).length := by
        simp [has.length_eq, hbs]
      exact ⟨_, ty, hf, .inl ⟨hlength, (checkArguments_error_iff hlength).2
        ⟨as, a, bs, pre, wanted, post, ts, rfl, rfl, has, hfault⟩⟩⟩

end Expr

/-! ## Checks -/

namespace Checker

variable {α β : Type} {p : Checker α} {f : α → Checker β} {c : Context} {err : SemanticError}

/-- The check finds a fault. -/
def Blames (p : Checker α) (c : Context) (err : SemanticError) : Prop :=
  (p c).1 = .error err

theorem not_blames_pure {a : α} : ¬ Blames (pure a) c err := by
  intro h
  cases h

theorem blames_bind :
    Blames (p >>= f) c err ↔ Blames p c err ∨ ∃ a, Gives p c a ∧ Blames (f a) (p c).2 err := by
  unfold Blames Gives
  rw [bind_apply]
  match p c with
  | (.ok a, _) => simp
  | (.error e, _) => simp

theorem Still.blames_bind (hp : p.Still) :
    Blames (p >>= f) c err ↔ Blames p c err ∨ ∃ a, Gives p c a ∧ Blames (f a) c err := by
  rw [Checker.blames_bind, hp c]

/-- The last step of a check is its result. -/
theorem blames_bind_pure {g : α → β} :
    Blames (p >>= fun a => pure (g a)) c err ↔ Blames p c err := by
  rw [blames_bind]
  simp [not_blames_pure]

theorem blames_look_bind {g : Scopes → Except SemanticError α} :
    Blames (look g >>= f) c err ↔
      g c.scopes = .error err ∨ ∃ a, g c.scopes = .ok a ∧ Blames (f a) c err :=
  (still_look g).blames_bind

theorem blames_check_bind {e : ParsedExpr} {f : TypedExpr → Checker β} :
    Blames (look e.check >>= f) c err ↔
      e.check c.scopes = .error err ∨
        ∃ ty e', Typed c.scopes.env e ty e' ∧ Blames (f e') c err := by
  rw [blames_look_bind, Expr.exists_check_iff]

theorem blames_enclosing_bind {g : Option Signature → Checker β} :
    Blames (enclosing >>= g) c err ↔ Blames (g c.function) c err :=
  Iff.rfl

theorem blames_ite_fault {q : Prop} [Decidable q] {cause : SemanticError.Cause} {line : Line} :
    Blames (if q then p else fault cause line) c err ↔
      q ∧ Blames p c err ∨ ¬ q ∧ err = ⟨cause, line⟩ := by
  by_cases hq : q
  · simp [hq]
  · rw [if_neg hq]
    show Except.error _ = Except.error err ↔ _
    simp [hq, eq_comm]

/-- A value of a wanted type is at fault, or has another type. -/
theorem blames_value {e : ParsedExpr} {wanted : Ty} {f : TypedExpr → Checker β}
    {cause : Ty → SemanticError.Cause} {line : Line} (hf : ∀ e', ¬ Blames (f e') c err) :
    Blames (look e.check >>= fun e' =>
        if e'.note = wanted then f e' else fault (cause e'.note) line) c err ↔
      e.check c.scopes = .error err ∨
        ∃ ty e', Typed c.scopes.env e ty e' ∧ ty ≠ wanted ∧ err = ⟨cause ty, line⟩ := by
  rw [blames_check_bind]
  refine or_congr_right (exists_congr fun ty => exists_congr fun e' => and_congr_right fun he => ?_)
  rw [he.note_eq, blames_ite_fault]
  simp [hf]

theorem blames_defineParams_bind {ps : List (String × Ty)} :
    Blames (defineParams ps >>= fun _ => p) c err ↔ Blames p (defineParams ps c).2 err := by
  obtain ⟨c', happly, -, -⟩ := Stmt.defineParams_apply ps c
  rw [Blames, bind_apply, happly, Blames]

end Checker

/-! ## Statements -/

/-- The context in which the body of a function is checked, when the function is defined. -/
def Context.enterFunction (c : Context) (f : Signature) : Context :=
  (Checker.defineParams f.params { c.enter with function := some f }).2

namespace Stmt

open Checker

variable {c : Context} {err : SemanticError} {line : Line} {e : ParsedExpr}

theorem blames_declare {v : Variable} :
    Blames (check (.declare v e line)) c err ↔
      e.check c.scopes = .error err ∨ ∃ ty e', Typed c.scopes.env e ty e' ∧ ty ≠ v.ty ∧
        err = ⟨.declarationMismatch v.name v.ty ty, line⟩ :=
  blames_value fun _ h => by cases h

theorem blames_assign (hc : c.scopes.Named) {x : String} :
    Blames (check (.assign x e line)) c err ↔
      (c.scopes.env x = none ∧ err = ⟨.undefinedVariable x, line⟩ ∨
        ∃ tys ty, c.scopes.env x = some (.fn tys ty) ∧ err = ⟨.notAVariable x, line⟩) ∨
      (∃ ty, c.scopes.env x = some (.var ty false) ∧ err = ⟨.immutableAssignment x ty, line⟩) ∨
      ∃ wanted, c.scopes.env x = some (.var wanted true) ∧
        (e.check c.scopes = .error err ∨ ∃ ty e', Typed c.scopes.env e ty e' ∧ ty ≠ wanted ∧
          err = ⟨.assignmentMismatch x wanted ty, line⟩) := by
  rw [check, checkAssign, blames_look_bind, ← Scopes.findVariable_error_iff]
  refine or_congr_right ?_
  simp only [blames_ite_fault, blames_value fun _ => not_blames_pure]
  constructor
  · rintro ⟨v, hv, h⟩
    have htarget := Scopes.findVariable_iff.1 ⟨v, hv, rfl, rfl⟩
    obtain rfl := hc.name_of_findVariable hv
    rcases h with ⟨hmutable, h⟩ | ⟨hmutable, rfl⟩
    · rw [hmutable] at htarget
      exact .inr ⟨_, htarget, h⟩
    · rw [Bool.eq_false_iff.2 hmutable] at htarget
      exact .inl ⟨_, htarget, rfl⟩
  · have hfind : ∀ ty m, c.scopes.env x = some (.var ty m) →
        c.scopes.findVariable x line = .ok ⟨x, ty, m⟩ := by
      intro ty m hx
      obtain ⟨v, hv, rfl, rfl⟩ : ∃ v, c.scopes.findVariable x line = .ok v ∧ v.ty = ty ∧
        v.mutable = m := Scopes.findVariable_iff.2 hx
      obtain rfl := hc.name_of_findVariable hv
      exact hv
    rintro (⟨ty, hx, rfl⟩ | ⟨wanted, hx, h⟩)
    · exact ⟨_, hfind _ _ hx, .inr ⟨by simp, rfl⟩⟩
    · exact ⟨_, hfind _ _ hx, .inl ⟨rfl, h⟩⟩

theorem blames_ret_outside (hc : c.function = none) {value : Option ParsedExpr} :
    Blames (check (.ret value line)) c err ↔ err = ⟨.returnOutsideFunction, line⟩ := by
  rw [check, checkRet, blames_enclosing_bind, hc]
  show Except.error _ = Except.error err ↔ _
  simp [eq_comm]

theorem blames_ret_some {f : Signature} (hc : c.function = some f) :
    Blames (check (.ret (some e) line)) c err ↔
      e.check c.scopes = .error err ∨ ∃ ty e', Typed c.scopes.env e ty e' ∧ ty ≠ f.returns ∧
        err = ⟨.returnMismatch f.name f.returns ty, line⟩ := by
  rw [check, checkRet, blames_enclosing_bind, hc]
  exact blames_value fun _ => not_blames_pure

theorem blames_ret_none {f : Signature} (hc : c.function = some f) :
    Blames (check (.ret none line)) c err ↔
      f.returns ≠ .void ∧ err = ⟨.missingReturnValue f.name f.returns, line⟩ := by
  rw [check, checkRet, blames_enclosing_bind, hc]
  dsimp only
  rw [blames_ite_fault]
  simp [not_blames_pure]

theorem blames_branch {a b : List ParsedStmt} :
    Blames (check (.branch e a b line)) c err ↔
      e.check c.scopes = .error err ∨ ∃ ty e', Typed c.scopes.env e ty e' ∧
        (Blames (checkAll a) c.enter err ∨
          ∃ a', WellTyped c.returns c.scopes.env a a' ∧ Blames (checkAll b) c.enter err) := by
  simp only [check, blames_check_bind, (framed_checkAll _).still_block.blames_bind,
    not_blames_pure, and_false, exists_false, or_false]
  have ha : ∀ a', Gives (block (checkAll a)) c a' ↔ WellTyped c.returns c.scopes.env a a' :=
    fun _ => checkAll_iff a
  simp only [ha]
  rfl

theorem blames_loop {a : List ParsedStmt} :
    Blames (check (.loop e a line)) c err ↔
      e.check c.scopes = .error err ∨ ∃ ty e', Typed c.scopes.env e ty e' ∧
        Blames (checkAll a) c.enter err := by
  simp only [check, blames_check_bind, blames_bind_pure]
  rfl

/-- The fault of a function is that of its body, where its name and its parameters are known. -/
theorem blames_function {f : Signature} {a : List ParsedStmt} :
    Blames (check (.function f a line)) c err ↔
      Blames (checkAll a) ((c.define f.name (.fn f)).enterFunction f) err := by
  show Blames (inside f (block do defineParams f.params; checkAll a) >>= _) _ err ↔ _
  rw [blames_bind_pure]
  exact blames_defineParams_bind

theorem blames_print {es : List ParsedExpr} :
    Blames (check (.print es line)) c err ↔ Expr.checkAll c.scopes es = .error err := by
  rw [check, blames_bind_pure]
  rfl

theorem blames_expr : Blames (check (.expr e line)) c err ↔ e.check c.scopes = .error err := by
  rw [check, blames_bind_pure]
  rfl

theorem gives_iff {s : ParsedStmt} {t : TypedStmt} :
    Gives (check s) c t ↔ WellTyped c.returns c.scopes.env [s] [t] := by
  rw [← checkAll_iff, checkAll_cons_iff]
  simp [checkAll, gives_pure]

/-- The statements of a block are at fault where the first is, or the others behind it are. -/
theorem blames_cons {s : ParsedStmt} {ss : List ParsedStmt} :
    Blames (checkAll (s :: ss)) c err ↔
      Blames (check s) c err ∨ ∃ t, WellTyped c.returns c.scopes.env [s] [t] ∧
        Blames (checkAll ss) (c.extend s.definition?) err := by
  rw [checkAll, blames_bind]
  refine or_congr_right (exists_congr fun t => ?_)
  rw [← gives_iff]
  refine and_congr_right fun ht => ?_
  rw [check_snd ht, blames_bind_pure]

end Stmt

end Chalk
